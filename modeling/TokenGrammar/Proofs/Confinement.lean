import Mathlib.Data.List.Basic
import Mathlib.Logic.Relation
import TokenGrammar.Proofs.Passes

namespace TokenGrammar

/-- What is read is one of the tokens, and they stay the same. -/
theorem TokenStream.among_of_read? {start next : TokenStream} {token : Token}
    (read : start.read? = some (token, next)) : token ∈ start.tokens ∧ next.tokens = start.tokens := by
  obtain ⟨-, shadows, -, remaining, -⟩ := read?_eq_some_iff.mp read
  exact ⟨by simp [TokenStream.tokens, remaining], (Reads.single read).tokens_eq⟩

/-- Tokens show at once those before a place, the nearest first, and the members of each group. -/
inductive Shows : List Token → List Token → Prop
  | behind (tokens : List Token) (count : Nat) : Shows tokens (tokens.take count).reverse
  | inside {tokens members : List Token} {token : Token} (among : token ∈ tokens)
      (group : token.unwrap.members? = some members) : Shows tokens members

/-- Tokens can be seen from others when these show them at once, or show others from which they can be seen. -/
def SeenFrom : List Token → List Token → Prop := Relation.ReflTransGen Shows

/-- A look to either side of a place sees what the tokens show. -/
theorem seenFrom_viewOf (direction : Direction) (start : TokenStream) :
    SeenFrom start.tokens (Rule.viewOf direction start).tokens := by
  cases direction with
  | ahead => exact .refl
  | behind =>
    refine .single ?_
    have shows := Shows.behind start.tokens start.passed.length
    have before : start.tokens.take start.passed.length = start.passed.reverse :=
      List.take_left' List.length_reverse
    rwa [before, List.reverse_reverse, ← TokenStream.tokens_ofTokens start.passed] at shows

/-- A match within tokens takes no others. -/
def TakenFrom (tokens : List Token) (answer : Option Match) : Prop := ∀ found ∈ answer, found.tokens ⊆ tokens

/-- Tokens that are collected within tokens are some of these. -/
def Collected (tokens : List Token) (answer : Option (List Token)) : Prop := ∀ taken ∈ answer, taken ⊆ tokens

theorem takenFrom_none {tokens : List Token} : TakenFrom tokens none := nofun

theorem takenFrom_some_iff {tokens : List Token} {found : Match} :
    TakenFrom tokens (some found) ↔ found.tokens ⊆ tokens := by
  simp [TakenFrom]

theorem collected_none {tokens : List Token} : Collected tokens none := nofun

theorem collected_some_iff {tokens taken : List Token} : Collected tokens (some taken) ↔ taken ⊆ tokens := by
  simp [Collected]

/-- Attempts are confined to tokens, and to what they may answer, when the simple attempts that stay among the tokens
and leave the captures alone are, and when attempts are that are put together from such attempts. -/
structure Confining (holds : ∀ {α : Type}, List Token → (α → Prop) → Attempt α → Prop) : Prop where
  pure : ∀ {α : Type} {tokens : List Token} {allowed : α → Prop} {answer : α}, allowed answer →
    holds tokens allowed (pure answer)
  fail : ∀ {α : Type} {tokens : List Token} {allowed : α → Prop} {fault : Fault}, holds tokens allowed (Attempt.fail fault)
  exhaust : ∀ {α : Type} {tokens : List Token} {allowed : α → Prop}, holds tokens allowed Attempt.exhaust
  stream : ∀ {tokens : List Token}, holds tokens (fun place => place.tokens = tokens) Attempt.stream
  goTo : ∀ {tokens : List Token} {place : TokenStream}, place.tokens = tokens →
    holds tokens (fun _ => True) (Attempt.goTo place)
  captures : ∀ {tokens : List Token}, holds tokens (fun _ => True) Attempt.captures
  notice : ∀ {tokens : List Token} {noticed : Notice}, holds tokens (fun _ => True) (Attempt.notice noticed)
  bind : ∀ {α β : Type} {tokens : List Token} {allowed : α → Prop} {allowed' : β → Prop} {attempt : Attempt α}
    {next : α → Attempt β}, holds tokens allowed attempt →
    (∀ answer, allowed answer → holds tokens allowed' (next answer)) → holds tokens allowed' (attempt >>= next)
  apart : ∀ {α : Type} {tokens : List Token} {allowed : α → Prop} {attempt : Attempt α}
    {view : TokenStream → TokenStream},
    (∀ start : TokenStream, start.tokens = tokens → SeenFrom tokens (view start).tokens ∧
      holds (view start).tokens allowed attempt) → holds tokens allowed (Attempt.apart view attempt)

namespace Confining

variable {holds : ∀ {α : Type}, List Token → (α → Prop) → Attempt α → Prop} (confining : Confining holds)
  {α β : Type} {tokens taken : List Token} {allowed : α → Prop} {allowed' : β → Prop} {attempt : Attempt α}
  {next : α → Attempt β} {run : Run} {rule : Rule} {each : Rule → Run} {rules : List Rule}
include confining

theorem mono {weaker : α → Prop} (confined : holds tokens allowed attempt)
    (weaken : ∀ answer, allowed answer → weaker answer) : holds tokens weaker attempt := by
  have goesOn := confining.bind confined fun answer allows => confining.pure (weaken answer allows)
  rwa [bind_pure] at goesOn

theorem ofResult {result : Except Fault α} (allows : ∀ answer, result = .ok answer → allowed answer) :
    holds tokens allowed (Attempt.ofResult result) := by
  cases result with
  | ok answer => exact confining.pure (allows answer rfl)
  | error fault => exact confining.fail

theorem tried (inner : holds tokens allowed attempt) : holds tokens allowed (Attempt.apart id attempt) := by
  refine confining.apart fun start among => ?_
  rw [id, among]
  exact ⟨.refl, inner⟩

theorem read : holds tokens (· ∈ tokens) Attempt.read := by
  refine confining.bind confining.stream fun start among => ?_
  have reads : holds tokens (fun next : Token × TokenStream => next.1 ∈ tokens ∧ next.2.tokens = tokens)
      (Attempt.ofResult start.read) := by
    refine confining.ofResult fun next found => ?_
    unfold TokenStream.read at found
    split at found
    · rename_i result read
      cases found
      exact among ▸ TokenStream.among_of_read? read
    · cases found
  exact confining.bind reads fun next both => confining.bind (confining.goTo both.2) fun _ _ => confining.pure both.1

theorem noMatch : holds tokens (TakenFrom tokens) Run.noMatch := confining.pure takenFrom_none

theorem answerMatch {found : Match} (inside : found.tokens ⊆ tokens) :
    holds tokens (TakenFrom tokens) (Pure.pure (some found) : Run) := confining.pure (takenFrom_some_iff.mpr inside)

theorem create {start finish : Number} (inside : taken ⊆ tokens) :
    holds tokens (fun found => found.tokens ⊆ tokens) (Attempt.ofResult (Match.create start finish taken rule)) := by
  refine confining.ofResult fun found made => ?_
  rw [Match.eq_of_create made]
  exact inside

theorem since {start : Nat} (inside : taken ⊆ tokens) : holds tokens (TakenFrom tokens) (Run.since start taken rule) :=
  confining.bind confining.stream fun _ _ => confining.bind (confining.create inside) fun _ => confining.answerMatch

theorem here : holds tokens (TakenFrom tokens) (Run.here rule) :=
  confining.bind confining.stream fun _ _ =>
    confining.bind (confining.create (List.nil_subset _)) fun _ => confining.answerMatch

theorem hereIf {condition : Bool} : holds tokens (TakenFrom tokens) (Run.hereIf condition rule) := by
  cases condition with
  | false => exact confining.noMatch
  | true => exact confining.here

theorem moveTo {start : TokenStream} {target : Number} (among : start.tokens = tokens) :
    holds tokens (fun place => place.tokens = tokens) (Attempt.ofResult (start.moveTo target)) :=
  confining.ofResult fun _ moves => (TokenStream.bounds_of_moveTo moves).2.2.2.trans among

theorem arrive {kind : Text} {found : Match} (inside : found.tokens ⊆ tokens) :
    holds tokens (TakenFrom tokens) (Run.arrive kind found) := by
  refine confining.bind confining.stream fun start among => ?_
  split
  · exact confining.bind (confining.moveTo among) fun place arrived =>
      confining.bind (confining.goTo arrived) fun _ _ => confining.answerMatch inside
  · exact confining.fail

theorem ofTest {test : Token → Bool} : holds tokens (TakenFrom tokens) (Run.ofTest test rule) := by
  refine confining.bind confining.stream fun start _ => ?_
  split
  · refine confining.bind confining.read fun token member => ?_
    split
    · exact confining.since (List.cons_subset.mpr ⟨member, List.nil_subset _⟩)
    · exact confining.noMatch
  · exact confining.noMatch

theorem readValues {expected : List Token} : holds tokens (Collected tokens) (Run.readValues expected) := by
  induction expected with
  | nil => exact confining.pure (collected_some_iff.mpr (List.nil_subset _))
  | cons wanted rest ih =>
    refine confining.bind confining.stream fun start _ => ?_
    cases start.current? with
    | none => exact confining.pure collected_none
    | some token =>
      dsimp only
      split
      · refine confining.bind confining.read fun token member => confining.bind ih fun others inside => confining.pure ?_
        cases others with
        | none => exact collected_none
        | some others => exact collected_some_iff.mpr (List.cons_subset.mpr ⟨member, collected_some_iff.mp inside⟩)
      · exact confining.pure collected_none

theorem sameValues {expected : List Token} : holds tokens (TakenFrom tokens) (Run.sameValues expected rule) := by
  refine confining.bind confining.stream fun start _ => confining.bind confining.readValues fun taken inside => ?_
  cases taken with
  | none => exact confining.noMatch
  | some taken => exact confining.since (collected_some_iff.mp inside)

theorem tokenStep : holds tokens (Collected tokens) Run.tokenStep :=
  confining.bind confining.read fun _ member =>
    confining.pure (collected_some_iff.mpr (List.cons_subset.mpr ⟨member, List.nil_subset _⟩))

theorem settle {kind : Text} (inner : holds tokens (TakenFrom tokens) run) :
    holds tokens (TakenFrom tokens) (Run.settle kind run) := by
  refine confining.bind (confining.tried inner) fun answer inside => ?_
  cases answer with
  | none => exact confining.noMatch
  | some found => exact confining.arrive (takenFrom_some_iff.mp inside)

theorem delegate (inner : holds tokens (TakenFrom tokens) run) : holds tokens (TakenFrom tokens) (Run.delegate run rule) := by
  refine confining.bind confining.stream fun start _ => confining.bind inner fun answer inside => ?_
  cases answer with
  | none => exact confining.noMatch
  | some found =>
    exact confining.bind (confining.create (takenFrom_some_iff.mp inside)) fun _ => confining.answerMatch

/-- Whatever a run takes from what can be seen, asking whether it succeeds takes nothing. -/
theorem succeeds {view : TokenStream → TokenStream} (inner : ∀ tokens, holds tokens (TakenFrom tokens) run)
    (sees : ∀ start : TokenStream, start.tokens = tokens → SeenFrom tokens (view start).tokens) :
    holds tokens (fun _ => True) (Run.succeeds view run) := by
  have apart : holds tokens (fun _ => True) (Attempt.apart view run) :=
    confining.apart fun start among => ⟨sees start among, confining.mono (inner _) fun _ _ => trivial⟩
  exact confining.bind apart fun _ _ => confining.pure trivial

theorem succeeds_viewOf (direction : Direction) (inner : ∀ tokens, holds tokens (TakenFrom tokens) run) :
    holds tokens (fun _ => True) (Run.succeeds (Rule.viewOf direction) run) :=
  confining.succeeds inner fun start among => among ▸ seenFrom_viewOf direction start

theorem inTurn (all : ∀ member ∈ rules, holds tokens (TakenFrom tokens) (each member)) :
    holds tokens (Collected tokens) (Run.inTurn each rules) := by
  induction rules with
  | nil => exact confining.pure (collected_some_iff.mpr (List.nil_subset _))
  | cons first rest ih =>
    obtain ⟨head, tail⟩ := List.forall_mem_cons.mp all
    refine confining.bind head fun answer inside => ?_
    cases answer with
    | none => exact confining.pure collected_none
    | some found =>
      refine confining.bind (ih tail) fun others drawn => ?_
      cases others with
      | none => exact confining.pure collected_none
      | some others =>
        exact confining.pure (collected_some_iff.mpr
          (List.append_subset.mpr ⟨takenFrom_some_iff.mp inside, collected_some_iff.mp drawn⟩))

theorem firstOf (all : ∀ member ∈ rules, holds tokens (TakenFrom tokens) (each member)) :
    holds tokens (TakenFrom tokens) (Run.firstOf each rules) := by
  induction rules with
  | nil => exact confining.noMatch
  | cons first rest ih =>
    obtain ⟨head, tail⟩ := List.forall_mem_cons.mp all
    refine confining.bind (confining.tried head) fun answer inside => ?_
    cases answer with
    | none => exact ih tail
    | some found => exact confining.pure inside

theorem farthestOf (all : ∀ member ∈ rules, holds tokens (TakenFrom tokens) (each member)) {farthest : Option Match}
    (before : TakenFrom tokens farthest) : holds tokens (TakenFrom tokens) (Run.farthestOf each farthest rules) := by
  induction rules generalizing farthest with
  | nil => exact confining.pure before
  | cons first rest ih =>
    obtain ⟨head, tail⟩ := List.forall_mem_cons.mp all
    refine confining.bind (confining.tried head) fun answer inside => ?_
    cases answer with
    | none => exact confining.noMatch
    | some found =>
      refine ih tail ?_
      cases farthest with
      | none => exact inside
      | some earlier =>
        dsimp only [Run.farther]
        split
        · exact inside
        · exact before

theorem repeating (inner : holds tokens (TakenFrom tokens) run) {least fuel count : Nat} {limit : Option Nat} :
    holds tokens (fun counted : Nat × List Token => counted.2 ⊆ tokens) (Run.repeating run least limit fuel count) := by
  induction fuel generalizing count with
  | zero => exact confining.exhaust
  | succ fuel ih =>
    rw [Run.repeating]
    split
    · exact confining.pure (List.nil_subset _)
    · refine confining.bind inner fun answer inside => ?_
      cases answer with
      | none => exact confining.pure (List.nil_subset _)
      | some found =>
        dsimp only
        split
        · exact confining.pure (List.nil_subset _)
        · exact confining.bind ih fun _ drawn =>
            confining.pure (List.append_subset.mpr ⟨takenFrom_some_iff.mp inside, drawn⟩)

theorem bodyStep (inner : holds tokens (TakenFrom tokens) run) : holds tokens (Collected tokens) (Run.bodyStep run) := by
  refine confining.bind inner fun answer inside => ?_
  cases answer with
  | none => exact confining.pure collected_none
  | some found =>
    refine confining.pure ?_
    split
    · exact collected_none
    · exact collected_some_iff.mpr (takenFrom_some_iff.mp inside)

theorem untilClosed {step : Attempt (Option (List Token))} (closing : holds tokens (TakenFrom tokens) run)
    (steps : holds tokens (Collected tokens) step) {fuel : Nat} :
    holds tokens (Collected tokens) (Run.untilClosed run step fuel) := by
  induction fuel with
  | zero => exact confining.exhaust
  | succ fuel ih =>
    refine confining.bind closing fun answer inside => ?_
    cases answer with
    | some found => exact confining.pure (collected_some_iff.mpr (takenFrom_some_iff.mp inside))
    | none =>
      refine confining.bind confining.stream fun start _ => ?_
      split
      · refine confining.bind steps fun taken drawn => ?_
        cases taken with
        | none => exact confining.pure collected_none
        | some taken =>
          refine confining.bind ih fun others later => ?_
          cases others with
          | none => exact confining.pure collected_none
          | some others =>
            exact confining.pure (collected_some_iff.mpr
              (List.append_subset.mpr ⟨collected_some_iff.mp drawn, collected_some_iff.mp later⟩))
      · exact confining.pure collected_none

theorem bounded {opening : Run} {step : Attempt (Option (List Token))} (opens : holds tokens (TakenFrom tokens) opening)
    (closing : holds tokens (TakenFrom tokens) run) (steps : holds tokens (Collected tokens) step) {fuel : Nat} :
    holds tokens (TakenFrom tokens) (Run.bounded opening run step fuel rule) := by
  refine confining.bind confining.stream fun start _ => confining.bind opens fun answer inside => ?_
  cases answer with
  | none => exact confining.noMatch
  | some found =>
    refine confining.bind (confining.untilClosed closing steps) fun taken drawn => ?_
    cases taken with
    | none => exact confining.noMatch
    | some taken =>
      exact confining.since (List.append_subset.mpr ⟨takenFrom_some_iff.mp inside, collected_some_iff.mp drawn⟩)

/-- A group is taken from the stream, whatever was taken from its members. -/
theorem insideGroup (inner : ∀ tokens, holds tokens (TakenFrom tokens) run) :
    holds tokens (TakenFrom tokens) (Run.insideGroup run rule) := by
  refine confining.bind confining.stream fun start _ => confining.bind confining.stream fun place among => ?_
  cases current : place.current? with
  | none => exact confining.noMatch
  | some token =>
    have member : token ∈ tokens := by
      rw [← among]
      exact List.mem_append_right _ (List.mem_of_find?_eq_some current)
    dsimp only
    cases group : token.unwrap.members? with
    | none => exact confining.noMatch
    | some members =>
      have sees : SeenFrom tokens (TokenStream.ofTokens members).tokens := by
        rw [TokenStream.tokens_ofTokens]
        exact .single (.inside member group)
      refine confining.bind (confining.succeeds inner fun _ _ => sees) fun matched _ => ?_
      cases matched with
      | false => exact confining.noMatch
      | true =>
        refine confining.bind confining.stream fun place among => ?_
        have steps : holds tokens (fun next => next.tokens = tokens) (Attempt.ofResult (place.advance 1)) := by
          refine confining.ofResult fun next advanced => ?_
          obtain ⟨token, read⟩ := TokenStream.advance_one_eq_ok_iff.mp advanced
          exact (TokenStream.among_of_read? read).2.trans among
        exact confining.bind steps fun next arrived => confining.bind (confining.goTo arrived) fun _ _ =>
          confining.since (List.cons_subset.mpr ⟨member, List.nil_subset _⟩)

variable {world : World} {fuel : Nat}

theorem followReference {key : Text} {kind : ReferenceKind} {self : Rule}
    (all : ∀ target, (Rule.reference key kind).Refers world target → holds tokens (TakenFrom tokens) (each target)) :
    holds tokens (TakenFrom tokens) (Rule.followReference world each key kind self) := by
  rw [Rule.followReference, Rule.followReferenceTelling]
  cases bound : if kind = .tokens then none else world.bindings.rule? key with
  | some target =>
    rw [Option.ite_none_left_eq_some] at bound
    exact confining.delegate (all target (.reference bound.1 bound.2))
  | none =>
    refine confining.bind confining.captures fun captures _ => ?_
    cases found : if kind = .dynamic then world.bindings.resolve? key captures else none with
    | some binding =>
      cases binding with
      | rule target =>
        rw [Option.ite_none_right_eq_some] at found
        obtain ⟨rfl, found⟩ := found
        exact confining.delegate (all target (.resolved found))
      | tokens expected => exact confining.sameValues
    | none =>
      dsimp only
      cases if kind = .rule then none else captures.find? key with
      | some tokens => exact confining.sameValues
      | none => exact confining.bind confining.notice fun _ _ => confining.noMatch

/-- What holds of the rules that a rule refers to holds of its body, unless the rule captures. -/
theorem body (uncaptured : ∀ key inner, rule ≠ .capture key inner)
    (all : ∀ inner, rule.Refers world inner → ∀ tokens, holds tokens (TakenFrom tokens) (each inner)) :
    holds tokens (TakenFrom tokens) (rule.body world fuel each) := by
  have shown {part : Rule} (child : part ∈ rule.children world.store) : holds tokens (TakenFrom tokens) (each part) :=
    all part (.shown child) tokens
  cases rule with
  | always => exact confining.here
  | never => exact confining.noMatch
  | matcher test negated => exact confining.ofTest
  | sequence rules =>
    refine confining.bind confining.stream fun start _ => ?_
    refine confining.bind (confining.inTurn fun member inside => shown (by simpa using inside)) fun taken drawn => ?_
    cases taken with
    | none => exact confining.noMatch
    | some taken => exact confining.since (collected_some_iff.mp drawn)
  | anyOf alternatives => exact confining.firstOf fun member inside => shown (by simpa using inside)
  | allOf rules => exact confining.farthestOf (fun member inside => shown (by simpa using inside)) takenFrom_none
  | optional inner negated =>
    refine confining.bind confining.stream fun start _ => confining.bind (shown (by simp)) fun answer inside => ?_
    cases answer with
    | none => exact confining.bind (confining.create (List.nil_subset _)) fun _ => confining.answerMatch
    | some found =>
      exact confining.bind (confining.create (takenFrom_some_iff.mp inside)) fun _ => confining.answerMatch
  | repeated inner range negated =>
    refine confining.bind confining.stream fun start _ =>
      confining.bind (confining.repeating (shown (by simp))) fun counted drawn => ?_
    dsimp only
    split
    · exact confining.since drawn
    · exact confining.noMatch
  | lookaround direction inner negative =>
    exact confining.bind (confining.succeeds_viewOf direction (all inner (.shown (by simp)))) fun _ _ => confining.hereIf
  | anchor place negated => exact confining.bind confining.stream fun _ _ => confining.hereIf
  | boundary opening closing => exact confining.bounded (shown (by simp)) (shown (by simp)) confining.tokenStep
  | filledBoundary opening inner closing =>
    exact confining.bounded (shown (by simp)) (shown (by simp)) (confining.bodyStep (shown (by simp)))
  | named name =>
    simp only [Rule.body, Rule.followNameTelling]
    cases bound : world.bindings.rule? name with
    | none => exact confining.bind confining.notice fun _ _ => confining.noMatch
    | some target => exact confining.delegate (all target (.named bound) tokens)
  | selfReferring cell =>
    simp only [Rule.body]
    cases filled : world.store.content? cell with
    | none => exact confining.noMatch
    | some target => exact confining.delegate (all target (.selfReferring filled) tokens)
  | lazy cell =>
    simp only [Rule.body]
    cases filled : world.store.content? cell with
    | none => exact confining.noMatch
    | some target => exact confining.delegate (all target (.lazy filled) tokens)
  | group inner => exact confining.insideGroup (all inner (.shown (by simp)))
  | capture key inner => exact absurd rfl (uncaptured key inner)
  | reference key kind => exact confining.followReference fun target refers => all target refers tokens
  | not inner =>
    refine confining.bind confining.stream fun start _ => ?_
    split
    · exact confining.bind (confining.succeeds_viewOf .ahead (all inner (.shown (by simp)))) fun _ _ => confining.hereIf
    · exact confining.noMatch
  | external number => exact confining.noMatch

end Confining

end TokenGrammar
