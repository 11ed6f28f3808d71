/-
This file finds the captures that a failed attempt leaves.
The rules that ran are told by runs in which one rule is barred in one situation.
-/

import TokenGrammar.Proofs.Composition
import TokenGrammar.Proofs.Safety

namespace TokenGrammar

namespace Rule

open Classical in
/-- Runs a rule with so much fuel, but stops where it would run the barred rule in the barred situation. -/
noncomputable def runBarring (world : World) (barred : Option (Rule × Situation)) : Nat → Rule → Run
  | 0, _ => Attempt.exhaust
  | fuel + 1, rule => fun situation =>
    if barred = some (rule, situation) then .error .exhausted situation
    else rule.step world fuel (runBarring world barred fuel) situation

/-- A run runs a rule in a situation on its way when it does not get to its end with that barred. -/
def RunsWithin (world : World) (fuel : Nat) (rule : Rule) (situation : Situation) (inner : Rule) (tried : Situation) :
    Prop :=
  ∃ stopped, rule.runBarring world (some (inner, tried)) fuel situation = .error .exhausted stopped

/-- A run captures tokens under a key on its way when it runs a capture rule of the key where that matches them. -/
def CapturesWithin (world : World) (fuel : Nat) (rule : Rule) (situation : Situation) (key : Text)
    (tokens : List Token) : Prop :=
  ∃ inner tried found settled, rule.RunsWithin world fuel situation (.capture key inner) tried ∧
    (Rule.capture key inner).Yields world tried (some found) settled ∧ found.tokens = tokens

variable {world : World} {rule inner : Rule} {fuel : Nat} {barred : Option (Rule × Situation)}
  {situation after middle : Situation} {key : Text}

theorem runBarring_self (world : World) (rule : Rule) (fuel : Nat) (situation : Situation) :
    rule.runBarring world (some (rule, situation)) (fuel + 1) situation = .error .exhausted situation :=
  if_pos rfl

theorem runBarring_other (other : barred ≠ some (rule, situation)) :
    rule.runBarring world barred (fuel + 1) situation = rule.step world fuel (runBarring world barred fuel) situation :=
  if_neg other

@[simp] theorem runBarring_none (fuel : Nat) (rule : Rule) : rule.runBarring world none fuel = rule.run world fuel := by
  induction fuel generalizing rule with
  | zero => rfl
  | succ fuel ih =>
    have same : runBarring world none fuel = run world fuel := funext ih
    funext situation
    rw [runBarring_other (Option.some_ne_none _).symm, same, run]

/-- With something barred a run comes to the same, unless it stops. -/
theorem runBarring_approximates (barred : Option (Rule × Situation)) (fuel : Nat) (rule : Rule) :
    (rule.runBarring world barred fuel).Approximates (rule.run world fuel) := by
  induction fuel generalizing rule with
  | zero => exact .refl _
  | succ fuel ih =>
    intro situation
    by_cases hit : barred = some (rule, situation)
    · rw [hit]
      exact .inl ⟨situation, runBarring_self world rule fuel situation⟩
    · rw [runBarring_other hit, run]
      have bodies : (rule.body world fuel (runBarring world barred fuel)).Approximates
          (rule.body world fuel (run world fuel)) := body_approximates ih (Nat.le_refl fuel)
      cases rule with
      | external number => exact .inr rfl
      | _ => exact Run.settle_approximates _ bodies situation

end Rule

/-- Whether an attempt stops without an answer that more fuel could give. -/
def Attempt.Exhausts {α : Type} (attempt : Attempt α) (situation : Situation) : Prop :=
  ∃ stopped, attempt situation = .error .exhausted stopped

namespace Captured

open Attempt (Exhausts Approximates)

variable {world : World} {key : Text} {α β : Type} {situation after : Situation} {answer : α}

/-- Attempts for everything that can be barred keep tokens under a key when those stop that bar a capture rule of the
key where it matches the tokens. -/
def Keeps (world : World) (key : Text) (attempt : Option (Rule × Situation) → Attempt α) (situation : Situation)
    (tokens : List Token) : Prop :=
  ∃ inner tried found settled, (attempt (some (.capture key inner, tried))).Exhausts situation ∧
    (Rule.capture key inner).Yields world tried (some found) settled ∧ found.tokens = tokens

/-- What is left under a key is what was there before, if nothing was kept, and otherwise tokens that were. -/
def Leaves (key : Text) (kept : List Token → Prop) (before after : Situation) : Prop :=
  (∀ tokens, ¬ kept tokens) ∧ after.memory.captures.find? key = before.memory.captures.find? key ∨
    ∃ tokens, kept tokens ∧ after.memory.captures.find? key = some tokens

/-- Attempts account for a key when they come to the same whatever is barred, unless they stop, and when they leave
under the key what they keep. -/
structure Accounted (world : World) (key : Text) (α : Type) (attempt : Option (Rule × Situation) → Attempt α) : Prop where
  approximates : ∀ barred, (attempt barred).Approximates (attempt none)
  leaves : ∀ {situation answer after}, attempt none situation = .ok answer after →
    Leaves key (Keeps world key attempt situation) situation after

/-- Attempts that nothing can bar account for keys that they leave alone. -/
theorem accounted_const {attempt : Attempt α}
    (stays : ∀ {situation answer after}, attempt situation = .ok answer after →
      after.memory.captures.find? key = situation.memory.captures.find? key) :
    Accounted world key α fun _ => attempt where
  approximates _ := .refl _
  leaves := by
    intro situation answer after answers
    refine .inl ⟨?_, stays answers⟩
    rintro tokens ⟨_, _, _, _, ⟨stopped, exhausted⟩, -⟩
    cases answers.symm.trans exhausted

section Bind

variable {attempt : Option (Rule × Situation) → Attempt α} {next : Option (Rule × Situation) → α → Attempt β}

/-- One after the other, attempts stop when one of the two does. -/
theorem exhausts_bind_iff (approximates : ∀ barred, (attempt barred).Approximates (attempt none))
    (answers : attempt none situation = .ok answer after) (barred : Option (Rule × Situation)) :
    (attempt barred >>= next barred).Exhausts situation ↔
      (attempt barred).Exhausts situation ∨ (next barred answer).Exhausts after := by
  unfold Exhausts
  rw [Stateful.bind_apply]
  rcases approximates barred situation with ⟨stopped, exhausted⟩ | same
  · simp [exhausted]
  · simp [same, answers]

theorem keeps_bind_iff (approximates : ∀ barred, (attempt barred).Approximates (attempt none))
    (answers : attempt none situation = .ok answer after) (tokens : List Token) :
    Keeps world key (fun barred => attempt barred >>= next barred) situation tokens ↔
      Keeps world key attempt situation tokens ∨ Keeps world key (fun barred => next barred answer) after tokens := by
  simp only [Keeps, exhausts_bind_iff approximates answers, or_and_right, exists_or]

/-- What is left by attempts one after the other is what the last of them that keeps something leaves. -/
theorem Leaves.trans {first second both : List Token → Prop} {before middle after : Situation}
    (split : ∀ tokens, both tokens ↔ first tokens ∨ second tokens) (left : Leaves key first before middle)
    (right : Leaves key second middle after) : Leaves key both before after := by
  rcases right with ⟨silent, same⟩ | ⟨tokens, captured, found⟩
  · rcases left with ⟨silent', same'⟩ | ⟨tokens, captured, found⟩
    · exact .inl ⟨fun tokens captured => ((split tokens).mp captured).elim (silent' tokens) (silent tokens), same.trans same'⟩
    · exact .inr ⟨tokens, (split tokens).mpr (.inl captured), same.trans found⟩
  · exact .inr ⟨tokens, (split tokens).mpr (.inr captured), found⟩

theorem Accounted.bind (first : Accounted world key α attempt)
    (second : ∀ answer, Accounted world key β fun barred => next barred answer) :
    Accounted world key β fun barred => attempt barred >>= next barred where
  approximates barred := (first.approximates barred).bind fun answer => (second answer).approximates barred
  leaves := by
    intro situation result after answers
    rw [Stateful.bind_apply] at answers
    cases outcome : attempt none situation with
    | error stop middle =>
      rw [outcome] at answers
      cases answers
    | ok answer middle =>
      rw [outcome] at answers
      exact (first.leaves outcome).trans (keeps_bind_iff first.approximates outcome)
        ((second answer).leaves answers)

end Bind

theorem exhausts_apart_iff {view : TokenStream → TokenStream} {attempt : Attempt α} :
    (Attempt.apart view attempt).Exhausts situation ↔
      attempt.Exhausts { situation with stream := view situation.stream } := by
  unfold Exhausts
  rw [Attempt.apart_apply]
  cases attempt { situation with stream := view situation.stream } <;> simp

theorem Accounted.apart {attempt : Option (Rule × Situation) → Attempt α} (view : TokenStream → TokenStream)
    (inner : Accounted world key α attempt) : Accounted world key α fun barred => Attempt.apart view (attempt barred) where
  approximates barred := (inner.approximates barred).apart view
  leaves := by
    intro situation answer after answers
    have keeps_iff (tokens : List Token) :
        Keeps world key (fun barred => Attempt.apart view (attempt barred)) situation tokens ↔
          Keeps world key attempt { situation with stream := view situation.stream } tokens := by
      simp only [Keeps, exhausts_apart_iff]
    rw [Attempt.apart_apply] at answers
    cases outcome : attempt none { situation with stream := view situation.stream } with
    | error stop middle =>
      rw [outcome] at answers
      cases answers
    | ok answer' middle =>
      rw [outcome] at answers
      cases answers
      rcases inner.leaves outcome with ⟨silent, same⟩ | ⟨tokens, captured, found⟩
      · exact .inl ⟨fun tokens captured => silent tokens ((keeps_iff tokens).mp captured), same⟩
      · exact .inr ⟨tokens, (keeps_iff tokens).mpr captured, found⟩

/-- Only capture rules replace captures, so all else accounts for every key. -/
theorem accounted_compositional (world : World) (key : Text) : Compositional (Accounted world key) where
  pure _ := accounted_const fun answers => by cases answers; rfl
  fail _ := accounted_const nofun
  exhaust := accounted_const nofun
  stream := accounted_const fun answers => by cases answers; rfl
  goTo _ := accounted_const fun answers => by cases answers; rfl
  captures := accounted_const fun answers => by cases answers; rfl
  notice _ := accounted_const fun answers => by cases answers; rfl
  bind first second := first.bind second
  apart view inner := inner.apart view

section Runs

variable {rule inner : Rule} {fuel : Nat} {each : Rule → Run} {other : Text}

theorem approximates_run (barred : Option (Rule × Situation)) :
    (rule.runBarring world barred fuel).Approximates (rule.runBarring world none fuel) := by
  rw [Rule.runBarring_none]
  exact Rule.runBarring_approximates barred fuel rule

/-- A rule that is no capture rule of the key accounts for it with its step. -/
theorem accounted_of_step (others : ∀ inner, rule ≠ .capture key inner)
    (steps : Accounted world key _ fun barred => rule.step world fuel (Rule.runBarring world barred fuel)) :
    Accounted world key _ fun barred => rule.runBarring world barred (fuel + 1) where
  approximates barred := approximates_run barred
  leaves := by
    intro situation answer after answers
    rw [Rule.runBarring_other (Option.some_ne_none _).symm] at answers
    have keeps_iff (tokens : List Token) :
        Keeps world key (fun barred => rule.runBarring world barred (fuel + 1)) situation tokens ↔
          Keeps world key (fun barred => rule.step world fuel (Rule.runBarring world barred fuel)) situation tokens := by
      have missed (inner : Rule) (tried : Situation) :
          some (Rule.capture key inner, tried) ≠ some (rule, situation) := by
        rintro same
        cases same
        exact others inner rfl
      simp only [Keeps, Exhausts, Rule.runBarring_other (missed _ _)]
    rcases steps.leaves answers with ⟨silent, same⟩ | ⟨tokens, captured, found⟩
    · exact .inl ⟨fun tokens captured => silent tokens ((keeps_iff tokens).mp captured), same⟩
    · exact .inr ⟨tokens, (keeps_iff tokens).mpr captured, found⟩

/-- What a capture rule does: it keeps the tokens that the rule inside of it matches. -/
theorem body_capture_apply (filled : key ≠ "") :
    (Rule.capture key inner).body world fuel each situation =
      match Run.delegate (each inner) (.capture key inner) situation with
      | .ok none after => .ok none after
      | .ok (some found) after =>
        .ok (some found) { after with memory.captures := after.memory.captures.keep key found.tokens }
      | .error stop after => .error stop after := by
  rw [Rule.body, Stateful.bind_apply]
  cases Run.delegate (each inner) (.capture key inner) situation with
  | error stop after => rfl
  | ok answer after =>
    cases answer with
    | none => rfl
    | some found =>
      have kept : after.memory.captures.capture key found.tokens = .ok (after.memory.captures.keep key found.tokens) :=
        check_bind_eq_ok_iff.mpr ⟨decide_eq_true filled, rfl⟩
      simp only [Attempt.captures_bind_apply, kept, Attempt.ofResult_ok, pure_bind, Attempt.setCaptures_bind_apply,
        Attempt.pure_apply]

/-- A capture rule of another key accounts for a key with its step. -/
theorem accounted_other (filled : other ≠ "") (different : key ≠ other)
    (inside : Accounted world key _ fun barred => inner.runBarring world barred fuel) :
    Accounted world key _ fun barred => (Rule.capture other inner).step world fuel (Rule.runBarring world barred fuel) := by
  have compositional := accounted_compositional world key
  refine compositional.settle _ (compositional.bind (compositional.delegate inside _) fun found => ?_)
  cases found with
  | none => exact compositional.noMatch
  | some found =>
    refine accounted_const fun {situation answer after} answers => ?_
    have kept : situation.memory.captures.capture other found.tokens =
        .ok (situation.memory.captures.keep other found.tokens) :=
      check_bind_eq_ok_iff.mpr ⟨decide_eq_true filled, rfl⟩
    simp only [Attempt.captures_bind_apply, kept, Attempt.ofResult_ok, pure_bind, Attempt.setCaptures_bind_apply,
      Attempt.pure_apply] at answers
    cases answers
    exact Captures.find?_keep_other _ _ different

/-- A capture rule stops without an answer where the rule inside of it does. -/
theorem exhausts_capture (filled : key ≠ "") {barred : Option (Rule × Situation)}
    (stops : (Run.delegate (inner.runBarring world barred fuel) (.capture key inner)).Exhausts situation) :
    ((Rule.capture key inner).runBarring world barred (fuel + 1)).Exhausts situation := by
  by_cases hit : barred = some (.capture key inner, situation)
  · rw [hit]
    exact ⟨situation, Rule.runBarring_self world _ fuel situation⟩
  · obtain ⟨stopped, exhausted⟩ := stops
    have bodied : (Rule.capture key inner).body world fuel (Rule.runBarring world barred fuel) situation =
        .error .exhausted stopped := by
      rw [body_capture_apply filled, exhausted]
    exact ⟨_, (Rule.runBarring_other hit).trans (Run.settle_error bodied)⟩

/-- A capture rule that does not match keeps what the rule inside of it keeps. -/
theorem keeps_capture_iff (filled : key ≠ "")
    (inside : Accounted world key _ fun barred =>
      Run.delegate (inner.runBarring world barred fuel) (.capture key inner))
    (fails : Run.delegate (inner.runBarring world none fuel) (.capture key inner) situation = .ok none after)
    (ran : (Rule.capture key inner).Yields world situation none { after with stream := situation.stream })
    (tokens : List Token) :
    Keeps world key (fun barred => (Rule.capture key inner).runBarring world barred (fuel + 1)) situation tokens ↔
      Keeps world key (fun barred => Run.delegate (inner.runBarring world barred fuel) (.capture key inner)) situation
        tokens := by
  constructor
  · rintro ⟨target, tried, found, settled, ⟨stopped, stops⟩, yields, taken⟩
    refine ⟨target, tried, found, settled, ?_, yields, taken⟩
    have hit : some (Rule.capture key target, tried) ≠ some (Rule.capture key inner, situation) := by
      rintro same
      cases same
      cases (yields.unique ran).1
    rcases inside.approximates (some (.capture key target, tried)) situation with exhausted | same
    · exact exhausted
    · have answers : (Rule.capture key inner).body world fuel
          (Rule.runBarring world (some (.capture key target, tried)) fuel) situation = .ok none after := by
        rw [body_capture_apply filled, same, fails]
      cases (Run.settle_none answers).symm.trans ((Rule.runBarring_other hit).symm.trans stops)
  · rintro ⟨target, tried, found, settled, stops, yields, taken⟩
    exact ⟨target, tried, found, settled, exhausts_capture filled stops, yields, taken⟩

/-- A capture rule of the key accounts for it: it keeps what it matches itself, or it does not match. -/
theorem accounted_self (builtIn : (Rule.capture key inner).BuiltIn world)
    (inside : Accounted world key _ fun barred => inner.runBarring world barred fuel) :
    Accounted world key _ fun barred => (Rule.capture key inner).runBarring world barred (fuel + 1) where
  approximates barred := approximates_run barred
  leaves := by
    have filled : key ≠ "" := builtIn.here
    have sound : ∀ target, (Rule.capture key inner).Refers world target → (target.run world fuel).Sound :=
      fun _ refers => Rule.run_sound (builtIn.of_refers refers) fuel
    have delegated := (accounted_compositional world key).delegate inside (.capture key inner)
    intro situation answer after answers
    rw [Rule.runBarring_none] at answers
    obtain ⟨middle, bodied, settles, memory_eq⟩ :=
      (Run.settle_eq_ok_iff (Rule.body_traces fuel builtIn.here sound)).mp answers
    rw [body_capture_apply filled] at bodied
    cases outcome : Run.delegate (inner.run world fuel) (.capture key inner) situation with
    | error stop stopped =>
      rw [outcome] at bodied
      cases bodied
    | ok found middle' =>
      rw [outcome] at bodied
      rw [← Rule.runBarring_none] at outcome
      cases found with
      | none =>
        cases bodied
        have after_eq : after = { middle with stream := situation.stream } := Situation.ext settles memory_eq
        have keeps_iff := keeps_capture_iff filled delegated outcome ⟨fuel + 1, after_eq ▸ answers⟩
        rw [after_eq]
        rcases delegated.leaves outcome with ⟨silent, same⟩ | ⟨tokens, captured, found⟩
        · exact .inl ⟨fun tokens captured => silent tokens ((keeps_iff tokens).mp captured), same⟩
        · exact .inr ⟨tokens, (keeps_iff tokens).mpr captured, found⟩
      | some found =>
        cases bodied
        refine .inr ⟨found.tokens, ⟨inner, situation, found, after, ?_, ⟨fuel + 1, answers⟩, rfl⟩, ?_⟩
        · exact ⟨situation, Rule.runBarring_self world _ fuel situation⟩
        · rw [memory_eq]
          exact Captures.find?_keep_self _ _ _

/-- Every run of a built-in rule accounts for every key. -/
theorem accounted_run (builtIn : rule.BuiltIn world) (fuel : Nat) :
    Accounted world key _ fun barred => rule.runBarring world barred fuel := by
  have compositional := accounted_compositional world key
  induction fuel generalizing rule with
  | zero => exact compositional.exhaust
  | succ fuel ih =>
    have inside : ∀ target, rule.Refers world target →
        Accounted world key _ fun barred => target.runBarring world barred fuel := fun target refers =>
      ih (builtIn.of_refers refers)
    cases rule with
    | external number => exact builtIn.here.elim
    | capture other inner =>
      by_cases same : key = other
      · subst same
        exact accounted_self builtIn (inside inner (.shown (by simp)))
      · refine accounted_of_step ?_ (accounted_other builtIn.here same (inside inner (.shown (by simp))))
        rintro _ equal
        cases equal
        exact same rfl
    | _ => exact accounted_of_step nofun (compositional.settle _ (compositional.body fuel nofun inside))

end Runs

end Captured

namespace Rule

/-- A built-in rule that does not match leaves the stream where it was. Under each key it leaves what was kept there
before, if no capture rule of the key matched on the way, and otherwise the tokens that one of them matched. -/
theorem run_none_leaves {world : World} {rule : Rule} {fuel : Nat} {situation after : Situation}
    (builtIn : rule.BuiltIn world) (fails : rule.run world fuel situation = .ok none after) :
    after.stream = situation.stream ∧ ∀ key,
      ((∀ tokens, ¬ rule.CapturesWithin world fuel situation key tokens) ∧
          after.memory.captures.find? key = situation.memory.captures.find? key) ∨
        ∃ tokens, rule.CapturesWithin world fuel situation key tokens ∧
          after.memory.captures.find? key = some tokens := by
  refine ⟨builtIn.settles ⟨fuel, fails⟩, fun key => ?_⟩
  have accounted : Captured.Accounted world key _ fun barred => rule.runBarring world barred fuel :=
    Captured.accounted_run builtIn fuel
  rw [← runBarring_none] at fails
  exact accounted.leaves fails

end Rule

namespace Brackets

/-- Two opening brackets, the first of which is captured. -/
def doubled : Rule := .sequence [.capture "first" (taking opening), taking opening]

/-- The start of an opening and a closing bracket. -/
def single : Situation := { stream := .ofTokens [opening, closing], memory := {} }

theorem doubled_builtIn : doubled.BuiltIn {} := by
  refine Rule.Throughout.of_closed (fun rule => rule ∈ [doubled, .capture "first" (taking opening), taking opening]) ?_ ?_
    (List.mem_cons_self ..)
  · simp [doubled, taking, Rule.IsMade, Token.value, opening, word, Token.writeBefore, Text.isEmpty]
  · intro member target isMember refers
    simp only [List.mem_cons, List.not_mem_nil, or_false] at isMember
    rcases isMember with rfl | rfl | rfl <;> cases refers <;>
      simp_all [doubled, taking, Rule.children, Rule.properties, Rule.testProperties, Rule.Property.children]

theorem doubled_fails :
    doubled.run {} 4 single = .ok none { single with memory.captures := ⟨[("first", [opening])]⟩ } := by
  rfl

end Brackets

namespace Rule

theorem failed_doubled_keeps_first :
    Brackets.doubled.BuiltIn {} ∧
      ∃ after, Brackets.doubled.run {} 4 Brackets.single = .ok none after ∧ after.stream = Brackets.single.stream ∧
        ∃ tokens, Brackets.doubled.CapturesWithin {} 4 Brackets.single "first" tokens ∧
          after.memory.captures.find? "first" = some tokens := by
  refine ⟨Brackets.doubled_builtIn, _, Brackets.doubled_fails, ?_⟩
  obtain ⟨stays, leaves⟩ := run_none_leaves Brackets.doubled_builtIn Brackets.doubled_fails
  refine ⟨stays, ?_⟩
  rcases leaves "first" with ⟨-, same⟩ | captured
  · cases same
  · exact captured

/-- Where the second of two opening brackets is missing, the first one is captured all the same. -/
theorem not_run_none_leaves :
    Brackets.doubled.BuiltIn {} ∧
      ∃ after, Brackets.doubled.Yields {} Brackets.single none after ∧
        after.memory.captures.find? "first" = some [Brackets.opening] ∧
        Brackets.single.memory.captures.find? "first" = none :=
  ⟨Brackets.doubled_builtIn, _, ⟨4, Brackets.doubled_fails⟩, rfl, rfl⟩

end Rule

end TokenGrammar
