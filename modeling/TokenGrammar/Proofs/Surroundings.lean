import TokenGrammar.Processor
import TokenGrammar.Proofs.Composition

namespace TokenGrammar

namespace Rule

/-- Only rules that look another one up find anything around them but stored rules. -/
theorem stepIn_of_not_looksUp {rule : Rule} (found : rule.looksUp = false) (around : Surroundings) (fuel : Nat)
    (run : Rule → Run) : rule.stepIn around fuel run = rule.step ⟨around.store, {}⟩ fuel run := by
  cases rule with
  | named | reference => cases found
  | _ => rfl

theorem askFor_ofWorld_apply (world : World) (tell : Notice → Attempt Unit) (kind : ReferenceKind) (key : Text)
    (situation : Situation) : (Surroundings.ofWorld world tell).askFor kind key situation =
      .ok (if kind = .dynamic then world.bindings.resolve? key situation.memory.captures else none) situation := by
  cases kind <;> rfl

theorem followReferenceIn_ofWorld (world : World) (run : Rule → Run) (key : Text) (kind : ReferenceKind) (rule : Rule) :
    followReferenceIn (.ofWorld world Attempt.notice) run key kind rule = followReference world run key kind rule := by
  funext situation
  have bound : (Surroundings.ofWorld world Attempt.notice).rule? key = world.bindings.rule? key := rfl
  rw [followReferenceIn, followReference, followReferenceTelling, bound]
  cases if kind = .tokens then none else world.bindings.rule? key with
  | some target => rfl
  | none =>
    dsimp only
    rw [Stateful.bind_apply, askFor_ofWorld_apply, Attempt.captures_bind_apply]
    rcases (if kind = .dynamic then world.bindings.resolve? key situation.memory.captures else none) with
      _ | _ | _ <;> rfl

/-- A step takes from its world what the rule finds around it. -/
theorem stepIn_ofWorld (world : World) (fuel : Nat) (run : Rule → Run) (rule : Rule) :
    rule.stepIn (.ofWorld world Attempt.notice) fuel run = rule.step world fuel run := by
  cases rule with
  | reference key kind =>
    rw [stepIn, followReferenceIn_ofWorld]
    rfl
  | _ => rfl

/-- In a world a rule runs as it does around what it finds there. -/
theorem runIn_ofWorld (world : World) (fuel : Nat) :
    Rule.runIn (.ofWorld world Attempt.notice) fuel = Rule.run world fuel := by
  induction fuel with
  | zero => rfl
  | succ fuel ih =>
    funext rule
    rw [runIn, ih, stepIn_ofWorld, run]

end Rule

namespace Composable

open Run

variable {ι : Type} {property : ∀ α : Type, (ι → Attempt α) → Prop} (composable : Composable property)
  {each : ι → Rule → Run} {rule : Rule} {store : RuleStore} {rule? : Text → Option Rule}
  {ask : ι → Text → Attempt (Option DynamicBinding)} {tell : ι → Notice → Attempt Unit}
include composable

theorem followNameIn {name : Text} (tells : property Unit fun i => tell i (.recursionNotDefined name))
    (all : ∀ target, property _ fun i => each i target) :
    property _ fun i => Rule.followNameIn ⟨store, rule?, ask i, tell i⟩ (each i) name rule := by
  simp only [Rule.followNameIn]
  cases rule? name with
  | none => exact composable.bind tells fun _ => composable.noMatch
  | some target => exact composable.delegate (all target) rule

/-- What holds of asking, of telling and of the runs of all rules holds of following a reference. -/
theorem followReferenceIn {key : Text} {kind : ReferenceKind} (asks : property _ fun i => ask i key)
    (tells : property Unit fun i => tell i (.referenceNotBound key kind))
    (all : ∀ target, property _ fun i => each i target) :
    property _ fun i => Rule.followReferenceIn ⟨store, rule?, ask i, tell i⟩ (each i) key kind rule := by
  simp only [Rule.followReferenceIn]
  cases if kind = .tokens then none else rule? key with
  | some target => exact composable.delegate (all target) rule
  | none =>
    have asked : property _ fun i => Surroundings.askFor ⟨store, rule?, ask i, tell i⟩ kind key := by
      simp only [Surroundings.askFor]
      split
      · exact asks
      · exact composable.pure none
    refine composable.bind asked fun found => ?_
    match found with
    | some (.rule target) => exact composable.delegate (all target) rule
    | some (.tokens expected) => exact composable.sameValues expected rule
    | none =>
      refine composable.bind composable.captures fun captures => ?_
      cases if kind = .rule then none else captures.find? key with
      | some tokens => exact composable.sameValues tokens rule
      | none => exact composable.bind tells fun _ => composable.noMatch

/-- A property of attempts that may replace captures holds of runs if it holds of asking, of telling and of what callers
supply. -/
theorem runIn (ask : ι → Text → Attempt (Option DynamicBinding)) (tell : ι → Notice → Attempt Unit)
    (asks : ∀ key, property _ fun i => ask i key)
    (tells : ∀ notice : Notice, notice.scope = "rules" → property Unit fun i => tell i notice)
    (sets : ∀ captures : Captures, property _ fun _ => Attempt.setCaptures captures)
    (callers : ∀ supplied, property _ fun _ => leaveToCaller supplied) (rule : Rule) (fuel : Nat) :
    property _ fun i => Rule.runIn ⟨store, rule?, ask i, tell i⟩ fuel rule := by
  induction fuel generalizing rule with
  | zero => exact composable.exhaust
  | succ fuel ih =>
    cases found : rule.looksUp with
    | true =>
      cases rule with
      | named name => exact composable.settle _ (composable.followNameIn (tells _ rfl) ih)
      | reference key kind => exact composable.settle _ (composable.followReferenceIn (asks key) (tells _ rfl) ih)
      | _ => cases found
    | false =>
      simp only [Rule.runIn, Rule.stepIn_of_not_looksUp found]
      refine composable.step callers fuel ?_
      by_cases captures : ∃ key inner, rule = .capture key inner
      · obtain ⟨key, inner, rfl⟩ := captures
        exact composable.capture sets key fuel (ih inner)
      · exact composable.body_of_not_looksUp fuel (fun key inner same => captures ⟨key, inner, same⟩) found
          fun inner _ => ih inner

section Passes

variable {rules : List BoundRule} {act : ι → BoundRule → Match → Attempt Edit}

theorem firstMatchIn (all : ∀ rule, property _ fun i => each i rule) :
    property _ fun i => Pass.firstMatch (each i) rules := by
  induction rules with
  | nil => exact composable.pure none
  | cons bound rest ih =>
    refine composable.bind (composable.apart id (all bound.rule)) fun found => ?_
    cases found with
    | none => exact ih
    | some found => exact composable.pure _

theorem edit {bound : BoundRule} {found : Match} (tells : property Unit fun i => tell i (Pass.matchNotice store bound found))
    (acts : property _ fun i => act i bound found) :
    property _ fun i => Pass.edit (tell i) (act i) store bound found := by
  refine composable.bind tells fun _ => composable.bind acts fun edit => ?_
  split
  · exact composable.copyToken _
  · exact composable.bind composable.stream fun stream =>
      composable.bind (composable.ofResult _) fun place => composable.bind (composable.goTo place) fun _ =>
        composable.pure _

/-- What holds of the runs of all rules, of telling of matches and of acting on them holds of passes. -/
theorem pieces (tell : ι → Notice → Attempt Unit) (act : ι → BoundRule → Match → Attempt Edit) (each : ι → Rule → Run)
    (tells : ∀ bound found, property Unit fun i => tell i (Pass.matchNotice store bound found))
    (acts : ∀ bound found, property _ fun i => act i bound found) (all : ∀ rule, property _ fun i => each i rule)
    (fuel : Nat) : property _ fun i => Pass.pieces (tell i) (act i) store (each i) rules fuel := by
  induction fuel with
  | zero => exact composable.exhaust
  | succ fuel ih =>
    refine composable.bind composable.stream fun stream => composable.bind (composable.goTo _) fun _ => ?_
    split
    · refine composable.bind (composable.firstMatchIn all) fun first => ?_
      cases first with
      | none =>
        exact composable.bind (composable.copyToken _) fun _ => composable.bind ih fun _ => composable.pure _
      | some first =>
        exact composable.bind (composable.edit (tells _ _) (acts _ _)) fun _ =>
          composable.bind ih fun _ => composable.pure _
    · exact composable.pure _

end Passes

end Composable

end TokenGrammar
