/-
This file puts runs together from a few simple attempts, one after the other or one apart.
-/

import TokenGrammar.Engine
import TokenGrammar.Proofs.Outcome
import TokenGrammar.Proofs.Reach

namespace TokenGrammar

/-- A property of families of attempts is composable when the simple attempts that leave the memory alone have it, and
when attempts have it that are put together from attempts that do. -/
structure Composable {ι : Type} (property : ∀ α : Type, (ι → Attempt α) → Prop) : Prop where
  pure : ∀ {α : Type} (answer : α), property α fun _ => pure answer
  fail : ∀ {α : Type} (fault : Fault), property α fun _ => Attempt.fail fault
  exhaust : ∀ {α : Type}, property α fun _ => Attempt.exhaust
  stream : property TokenStream fun _ => Attempt.stream
  goTo : ∀ place : TokenStream, property Unit fun _ => Attempt.goTo place
  captures : property Captures fun _ => Attempt.captures
  bind : ∀ {α β : Type} {attempt : ι → Attempt α} {next : ι → α → Attempt β}, property α attempt →
    (∀ answer, property β fun i => next i answer) → property β fun i => attempt i >>= next i
  apart : ∀ {α : Type} {attempt : ι → Attempt α} (view : TokenStream → TokenStream), property α attempt →
    property α fun i => Attempt.apart view (attempt i)

/-- A composable property is compositional when attempts to notice something have it too. -/
structure Compositional {ι : Type} (property : ∀ α : Type, (ι → Attempt α) → Prop) : Prop extends Composable property where
  notice : ∀ notice : Notice, property Unit fun _ => Attempt.notice notice

/-- Whether a rule looks another one up, which it may not find. -/
def Rule.looksUp : Rule → Bool
  | .named _ | .reference .. => true
  | _ => false

namespace Composable

open Run

variable {ι : Type} {property : ∀ α : Type, (ι → Attempt α) → Prop} (compositional : Composable property)
  {run : ι → Run} {each : ι → Rule → Run} {rule : Rule} {rules : List Rule}
include compositional

theorem ofResult {α : Type} (result : Except Fault α) : property α fun _ => Attempt.ofResult result := by
  cases result with
  | ok answer => exact compositional.pure answer
  | error fault => exact compositional.fail fault

theorem read : property Token fun _ => Attempt.read :=
  compositional.bind compositional.stream fun stream => compositional.bind (compositional.ofResult stream.read) fun next =>
    compositional.bind (compositional.goTo next.2) fun _ => compositional.pure next.1

theorem noMatch : property (Option Match) fun _ => noMatch := compositional.pure none

theorem here (rule : Rule) : property (Option Match) fun _ => here rule :=
  compositional.bind compositional.stream fun _ => compositional.bind (compositional.ofResult _) fun _ =>
    compositional.pure _

theorem hereIf (condition : Bool) (rule : Rule) : property (Option Match) fun _ => hereIf condition rule := by
  cases condition with
  | false => exact compositional.noMatch
  | true => exact compositional.here rule

theorem since (start : Nat) (tokens : List Token) (rule : Rule) :
    property (Option Match) fun _ => since start tokens rule :=
  compositional.bind compositional.stream fun _ => compositional.bind (compositional.ofResult _) fun _ =>
    compositional.pure _

theorem arrive (kind : Text) (found : Match) : property (Option Match) fun _ => arrive kind found := by
  refine compositional.bind compositional.stream fun stream => ?_
  split
  · exact compositional.bind (compositional.ofResult _) fun _ => compositional.bind (compositional.goTo _) fun _ =>
      compositional.pure _
  · exact compositional.fail _

theorem ofTest (test : Token → Bool) (rule : Rule) : property (Option Match) fun _ => ofTest test rule := by
  refine compositional.bind compositional.stream fun start => ?_
  split
  · refine compositional.bind compositional.read fun token => ?_
    split
    · exact compositional.since start.index [token] rule
    · exact compositional.noMatch
  · exact compositional.noMatch

theorem tokenStep : property (Option (List Token)) fun _ => tokenStep :=
  compositional.bind compositional.read fun _ => compositional.pure _

theorem readValues (expected : List Token) : property (Option (List Token)) fun _ => readValues expected := by
  induction expected with
  | nil => exact compositional.pure _
  | cons wanted rest ih =>
    refine compositional.bind compositional.stream fun stream => ?_
    cases stream.current? with
    | none => exact compositional.pure none
    | some next =>
      dsimp only
      split
      · exact compositional.bind compositional.read fun _ => compositional.bind ih fun _ => compositional.pure _
      · exact compositional.pure none

theorem sameValues (expected : List Token) (rule : Rule) : property (Option Match) fun _ => sameValues expected rule := by
  refine compositional.bind compositional.stream fun start => compositional.bind (compositional.readValues expected) ?_
  intro tokens
  cases tokens with
  | none => exact compositional.noMatch
  | some tokens => exact compositional.since start.index tokens rule

theorem settle (kind : Text) (inner : property _ run) : property _ fun i => settle kind (run i) := by
  refine compositional.bind (compositional.apart id inner) fun found => ?_
  cases found with
  | none => exact compositional.noMatch
  | some found => exact compositional.arrive kind found

theorem delegate (inner : property _ run) (rule : Rule) : property _ fun i => delegate (run i) rule := by
  refine compositional.bind compositional.stream fun start => compositional.bind inner fun found => ?_
  cases found with
  | none => exact compositional.noMatch
  | some found => exact compositional.bind (compositional.ofResult _) fun _ => compositional.pure _

theorem succeeds (view : TokenStream → TokenStream) (inner : property _ run) :
    property _ fun i => succeeds view (run i) :=
  compositional.bind (compositional.apart view inner) fun _ => compositional.pure _

theorem inTurn (all : ∀ member ∈ rules, property _ fun i => each i member) :
    property _ fun i => inTurn (each i) rules := by
  induction rules with
  | nil => exact compositional.pure _
  | cons first rest ih =>
    refine compositional.bind (all first (List.mem_cons_self ..)) fun found => ?_
    cases found with
    | none => exact compositional.pure none
    | some found =>
      refine compositional.bind (ih fun member inside => all member (List.mem_cons_of_mem _ inside)) fun tokens => ?_
      cases tokens with
      | none => exact compositional.pure none
      | some tokens => exact compositional.pure _

theorem firstOf (all : ∀ member ∈ rules, property _ fun i => each i member) :
    property _ fun i => firstOf (each i) rules := by
  induction rules with
  | nil => exact compositional.noMatch
  | cons first rest ih =>
    refine compositional.bind (compositional.apart id (all first (List.mem_cons_self ..))) fun found => ?_
    cases found with
    | none => exact ih fun member inside => all member (List.mem_cons_of_mem _ inside)
    | some found => exact compositional.pure _

theorem farthestOf (all : ∀ member ∈ rules, property _ fun i => each i member) (farthest : Option Match) :
    property _ fun i => farthestOf (each i) farthest rules := by
  induction rules generalizing farthest with
  | nil => exact compositional.pure farthest
  | cons first rest ih =>
    refine compositional.bind (compositional.apart id (all first (List.mem_cons_self ..))) fun found => ?_
    cases found with
    | none => exact compositional.noMatch
    | some found => exact ih (fun member inside => all member (List.mem_cons_of_mem _ inside)) _

theorem repeating (inner : property _ run) (least : Nat) (limit : Option Nat) (fuel count : Nat) :
    property _ fun i => repeating (run i) least limit fuel count := by
  induction fuel generalizing count with
  | zero => exact compositional.exhaust
  | succ fuel ih =>
    simp only [Run.repeating]
    split
    · exact compositional.pure _
    · refine compositional.bind inner fun found => ?_
      cases found with
      | none => exact compositional.pure _
      | some found =>
        dsimp only
        split
        · exact compositional.pure _
        · exact compositional.bind (ih (count + 1)) fun _ => compositional.pure _

theorem bodyStep (inner : property _ run) : property _ fun i => bodyStep (run i) := by
  refine compositional.bind inner fun found => ?_
  cases found with
  | none => exact compositional.pure none
  | some found => exact compositional.pure _

theorem untilClosed {step : ι → Attempt (Option (List Token))} (closing : property _ run) (steps : property _ step)
    (fuel : Nat) : property _ fun i => untilClosed (run i) (step i) fuel := by
  induction fuel with
  | zero => exact compositional.exhaust
  | succ fuel ih =>
    refine compositional.bind closing fun found => ?_
    cases found with
    | some found => exact compositional.pure _
    | none =>
      refine compositional.bind compositional.stream fun stream => ?_
      split
      · refine compositional.bind steps fun tokens => ?_
        cases tokens with
        | none => exact compositional.pure none
        | some tokens =>
          refine compositional.bind ih fun rest => ?_
          cases rest with
          | none => exact compositional.pure none
          | some rest => exact compositional.pure _
      · exact compositional.pure none

theorem bounded {opening : ι → Run} {step : ι → Attempt (Option (List Token))} (opens : property _ opening)
    (closing : property _ run) (steps : property _ step) (fuel : Nat) (rule : Rule) :
    property _ fun i => bounded (opening i) (run i) (step i) fuel rule := by
  refine compositional.bind compositional.stream fun start => compositional.bind opens fun found => ?_
  cases found with
  | none => exact compositional.noMatch
  | some found =>
    refine compositional.bind (compositional.untilClosed closing steps fuel) fun tokens => ?_
    cases tokens with
    | none => exact compositional.noMatch
    | some tokens => exact compositional.since start.index _ rule

theorem insideGroup (inner : property _ run) (rule : Rule) : property _ fun i => insideGroup (run i) rule := by
  refine compositional.bind compositional.stream fun start => compositional.bind compositional.stream fun stream => ?_
  cases stream.current? with
  | none => exact compositional.noMatch
  | some token =>
    dsimp only
    cases token.unwrap.members? with
    | none => exact compositional.noMatch
    | some members =>
      refine compositional.bind (compositional.succeeds _ inner) fun matched => ?_
      cases matched with
      | false => exact compositional.noMatch
      | true =>
        exact compositional.bind compositional.stream fun _ => compositional.bind (compositional.ofResult _) fun _ =>
          compositional.bind (compositional.goTo _) fun _ => compositional.since start.index [token] rule

variable {world : World}

/-- What holds of telling that nothing is bound holds of following a name. -/
theorem followNameTelling {tell : ι → Notice → Attempt Unit} {name : Text}
    (tells : property Unit fun i => tell i (.recursionNotDefined name))
    (all : ∀ target, (Rule.named name).Refers world target → property _ fun i => each i target) :
    property _ fun i => Rule.followNameTelling (tell i) world (each i) name rule := by
  simp only [Rule.followNameTelling]
  cases bound : world.bindings.rule? name with
  | none => exact compositional.bind tells fun _ => compositional.noMatch
  | some target => exact compositional.delegate (all target (.named bound)) rule

theorem followReferenceTelling {tell : ι → Notice → Attempt Unit} {key : Text} {kind : ReferenceKind}
    (tells : property Unit fun i => tell i (.referenceNotBound key kind))
    (all : ∀ target, (Rule.reference key kind).Refers world target → property _ fun i => each i target) :
    property _ fun i => Rule.followReferenceTelling (tell i) world (each i) key kind rule := by
  simp only [Rule.followReferenceTelling]
  cases bound : if kind = .tokens then none else world.bindings.rule? key with
  | some target =>
    rw [Option.ite_none_left_eq_some] at bound
    exact compositional.delegate (all target (.reference bound.1 bound.2)) rule
  | none =>
    refine compositional.bind compositional.captures fun captures => ?_
    cases found : if kind = .dynamic then world.bindings.resolve? key captures else none with
    | some binding =>
      cases binding with
      | rule target =>
        rw [Option.ite_none_right_eq_some] at found
        obtain ⟨rfl, found⟩ := found
        exact compositional.delegate (all target (.resolved found)) rule
      | tokens expected => exact compositional.sameValues expected rule
    | none =>
      dsimp only
      cases if kind = .rule then none else captures.find? key with
      | some tokens => exact compositional.sameValues tokens rule
      | none => exact compositional.bind tells fun _ => compositional.noMatch

/-- Where attempts may replace captures, capture rules make no exception. -/
theorem capture (sets : ∀ captures : Captures, property _ fun _ => Attempt.setCaptures captures) (key : Text)
    (fuel : Nat) (inner : property _ fun i => each i rule) :
    property _ fun i => (Rule.capture key rule).body world fuel (each i) := by
  refine compositional.bind (compositional.delegate inner _) fun found => ?_
  cases found with
  | none => exact compositional.noMatch
  | some found =>
    exact compositional.bind compositional.captures fun _ => compositional.bind (compositional.ofResult _) fun _ =>
      compositional.bind (sets _) fun _ => compositional.pure _

/-- What holds of the rules that a rule refers to holds of its body, unless the rule captures or looks another one up. -/
theorem body_of_not_looksUp (fuel : Nat) (uncaptured : ∀ key inner, rule ≠ .capture key inner)
    (found : rule.looksUp = false) (all : ∀ inner, rule.Refers world inner → property _ fun i => each i inner) :
    property _ fun i => rule.body world fuel (each i) := by
  have shown : ∀ {part}, part ∈ rule.children world.store → property _ fun i => each i part := fun child =>
    all _ (.shown child)
  cases rule with
  | always => exact compositional.here .always
  | never => exact compositional.noMatch
  | matcher test negated => exact compositional.ofTest _ _
  | sequence rules =>
    refine compositional.bind compositional.stream fun start => ?_
    refine compositional.bind (compositional.inTurn fun member inside => shown (by simpa using inside)) fun tokens => ?_
    cases tokens with
    | none => exact compositional.noMatch
    | some tokens => exact compositional.since start.index tokens _
  | anyOf alternatives => exact compositional.firstOf fun member inside => shown (by simpa using inside)
  | allOf rules => exact compositional.farthestOf (fun member inside => shown (by simpa using inside)) none
  | optional inner negated =>
    refine compositional.bind compositional.stream fun start => compositional.bind (shown (by simp)) fun found => ?_
    cases found with
    | none => exact compositional.bind (compositional.ofResult _) fun _ => compositional.pure _
    | some found => exact compositional.bind (compositional.ofResult _) fun _ => compositional.pure _
  | repeated inner range negated =>
    refine compositional.bind compositional.stream fun start => ?_
    refine compositional.bind (compositional.repeating (shown (by simp)) _ _ fuel 0) fun counted => ?_
    dsimp only
    split
    · exact compositional.since start.index _ _
    · exact compositional.noMatch
  | lookaround direction inner negative =>
    exact compositional.bind (compositional.succeeds _ (shown (by simp))) fun _ => compositional.hereIf _ _
  | anchor place negated => exact compositional.bind compositional.stream fun _ => compositional.hereIf _ _
  | boundary opening closing =>
    exact compositional.bounded (shown (by simp)) (shown (by simp)) compositional.tokenStep fuel _
  | filledBoundary opening inner closing =>
    exact compositional.bounded (shown (by simp)) (shown (by simp)) (compositional.bodyStep (shown (by simp))) fuel _
  | named | reference => cases found
  | selfReferring cell =>
    simp only [Rule.body]
    cases filled : world.store.content? cell with
    | none => exact compositional.noMatch
    | some target => exact compositional.delegate (all target (.selfReferring filled)) _
  | lazy cell =>
    simp only [Rule.body]
    cases filled : world.store.content? cell with
    | none => exact compositional.noMatch
    | some target => exact compositional.delegate (all target (.lazy filled)) _
  | group inner => exact compositional.insideGroup (shown (by simp)) _
  | capture key inner => exact absurd rfl (uncaptured key inner)
  | not inner =>
    refine compositional.bind compositional.stream fun stream => ?_
    split
    · exact compositional.bind (compositional.succeeds id (shown (by simp))) fun _ => compositional.hereIf _ _
    · exact compositional.noMatch
  | external number => exact compositional.noMatch

/-- What holds of the body of a rule holds of its step, if it holds of what callers supply. -/
theorem step (callers : ∀ supplied, property _ fun _ => leaveToCaller supplied) (fuel : Nat)
    (body : property _ fun i => rule.body world fuel (each i)) : property _ fun i => rule.step world fuel (each i) := by
  cases rule with
  | external number =>
    simp only [Rule.step]
    cases world.store.external? number with
    | none => exact compositional.noMatch
    | some supplied => exact callers supplied
  | _ => exact compositional.settle _ body

section Passes

variable {bindings : List RuleBinding} {tell : ι → Notice → Attempt Unit}

theorem read? : property (Option Token) fun _ => Attempt.read? := by
  refine compositional.bind compositional.stream fun stream => ?_
  cases stream.read? with
  | none => exact compositional.pure none
  | some next => exact compositional.bind (compositional.goTo next.2) fun _ => compositional.pure _

theorem firstMatch (all : ∀ rule, property _ fun i => each i rule) :
    property _ fun i => Engine.firstMatch (each i) bindings := by
  induction bindings with
  | nil => exact compositional.pure none
  | cons binding rest ih =>
    refine compositional.bind (compositional.apart id (all binding.rule)) fun found => ?_
    cases found with
    | none => exact ih
    | some found => exact compositional.pure _

theorem copyToken (piece : Token → Piece) : property _ fun _ => Engine.copyToken piece :=
  compositional.bind compositional.read? fun _ => compositional.pure _

theorem editMatchTelling {binding : RuleBinding} {found : Match}
    (tells : property Unit fun i =>
      tell i (.ruleMatched (binding.rule.kind world.store) found.start found.finish binding.action.kind)) :
    property _ fun i => Engine.editMatchTelling (tell i) world binding found := by
  refine compositional.bind tells fun _ => compositional.bind compositional.captures fun captures =>
    compositional.bind (compositional.ofResult _) fun edit => ?_
  split
  · exact compositional.copyToken _
  · exact compositional.bind compositional.stream fun stream =>
      compositional.bind (compositional.ofResult _) fun place =>
        compositional.bind (compositional.goTo place) fun _ => compositional.pure _

/-- What holds of the runs of all rules and of telling of matches holds of passes. -/
theorem piecesTelling (tell : ι → Notice → Attempt Unit) (each : ι → Rule → Run)
    (tells : ∀ kind start finish action, property Unit fun i => tell i (.ruleMatched kind start finish action))
    (all : ∀ rule, property _ fun i => each i rule) (fuel : Nat) :
    property _ fun i => Engine.piecesTelling (tell i) world (each i) bindings fuel := by
  induction fuel with
  | zero => exact compositional.exhaust
  | succ fuel ih =>
    refine compositional.bind compositional.stream fun stream => compositional.bind (compositional.goTo _) fun _ => ?_
    split
    · refine compositional.bind (compositional.firstMatch all) fun first => ?_
      cases first with
      | none =>
        exact compositional.bind (compositional.copyToken _) fun _ =>
          compositional.bind ih fun _ => compositional.pure _
      | some first =>
        exact compositional.bind (compositional.editMatchTelling (tells _ _ _ _)) fun _ =>
          compositional.bind ih fun _ => compositional.pure _
    · exact compositional.pure _

end Passes

end Composable

namespace Compositional

open Run

variable {ι : Type} {property : ∀ α : Type, (ι → Attempt α) → Prop} (compositional : Compositional property)
  {each : ι → Rule → Run} {rule : Rule} {world : World}
include compositional

/-- What holds of the rules that a rule refers to holds of its body, unless the rule captures. -/
theorem body (fuel : Nat) (uncaptured : ∀ key inner, rule ≠ .capture key inner)
    (all : ∀ inner, rule.Refers world inner → property _ fun i => each i inner) :
    property _ fun i => rule.body world fuel (each i) := by
  cases rule with
  | named name => exact compositional.followNameTelling (compositional.notice _) all
  | reference key kind => exact compositional.followReferenceTelling (compositional.notice _) all
  | _ => exact compositional.body_of_not_looksUp fuel uncaptured rfl all

/-- What holds of the runs of all rules holds of passes. -/
theorem piecesFrom {bindings : List RuleBinding} (all : ∀ rule, property _ fun i => each i rule) (fuel : Nat) :
    property _ fun i => Engine.piecesFrom world (each i) bindings fuel :=
  compositional.piecesTelling (fun _ => Attempt.notice) each (fun _ _ _ _ => compositional.notice _) all fuel

/-- A compositional property of attempts that may replace captures holds of the runs of rules, if it holds of what
callers supply. -/
theorem runs (sets : ∀ captures : Captures, property _ fun _ => Attempt.setCaptures captures)
    (callers : ∀ supplied, property _ fun _ => leaveToCaller supplied) (rule : Rule) (fuel : Nat) :
    property _ fun _ => rule.run world fuel := by
  induction fuel generalizing rule with
  | zero => exact compositional.exhaust
  | succ fuel ih =>
    cases rule with
    | capture key rule => exact compositional.step callers fuel (compositional.capture sets key fuel (ih rule))
    | _ => exact compositional.step callers fuel (compositional.body fuel nofun fun inner _ => ih inner)

end Compositional

end TokenGrammar
