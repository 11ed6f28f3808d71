import Mathlib.Data.List.Forall2
import Mathlib.Data.Option.Basic
import TokenGrammar.Proofs.Notices
import TokenGrammar.Proofs.Span

namespace TokenGrammar

/-- Two situations show the same scene when they have the same stream and the same captures. -/
structure Situation.SameScene (situation situation' : Situation) : Prop where
  stream_eq : situation.stream = situation'.stream
  captures_eq : situation.memory.captures = situation'.memory.captures

/-- Two matches agree when they span the same stretch and take the same tokens, whichever rules they are matches of. -/
structure Match.Agrees (found found' : Match) : Prop where
  start_eq : found.start = found'.start
  finish_eq : found.finish = found'.finish
  tokens_eq : found.tokens = found'.tokens

namespace Match.Agrees

variable {found found' first first' second second' : Match}

theorem refl (found : Match) : found.Agrees found := ⟨rfl, rfl, rfl⟩

theorem symm (agrees : found.Agrees found') : found'.Agrees found :=
  ⟨agrees.start_eq.symm, agrees.finish_eq.symm, agrees.tokens_eq.symm⟩

theorem trans (agrees : first.Agrees second) (others : second.Agrees found) : first.Agrees found :=
  ⟨agrees.start_eq.trans others.start_eq, agrees.finish_eq.trans others.finish_eq,
    agrees.tokens_eq.trans others.tokens_eq⟩

/-- A spanning match agrees with the match of any rule over the same stretch. -/
theorem between {start finish : TokenStream} (spans : found.Spans start finish) (rule : Rule) :
    found.Agrees (.between start finish found.tokens rule) := ⟨spans.start_eq, spans.finish_eq, rfl⟩

theorem isZeroWidth_eq (agrees : found.Agrees found') : found.isZeroWidth = found'.isZeroWidth := by
  rw [isZeroWidth, isZeroWidth, agrees.start_eq, agrees.finish_eq]

theorem farther (firsts : first.Agrees first') (seconds : second.Agrees second') :
    (Run.farther first second).Agrees (Run.farther first' second') := by
  rw [Run.farther, Run.farther, firsts.finish_eq, seconds.finish_eq]
  split
  · exact seconds
  · exact firsts

/-- What can be made a match can be made one of any rule. -/
theorem create {start finish : Number} {tokens : List Token} {rule : Rule}
    (made : Match.create start finish tokens rule = .ok found) (rule' : Rule) :
    ∃ found', Match.create start finish tokens rule' = .ok found' ∧ found.Agrees found' := by
  obtain ⟨above, made⟩ := check_bind_eq_ok_iff.mp made
  obtain ⟨ordered, made⟩ := check_bind_eq_ok_iff.mp made
  cases made
  exact ⟨_, check_bind_eq_ok_iff.mpr ⟨above, check_bind_eq_ok_iff.mpr ⟨ordered, rfl⟩⟩, rfl, rfl, rfl⟩

end Match.Agrees

namespace Attempt

variable {α β : Type} {related : α → α → Prop} {related' : β → β → Prop} {attempt attempt' : Attempt α}
  {next next' : α → Attempt β}

/-- An attempt is refined by another one when that answers alike in the same scene wherever it answers itself. -/
def RefinedBy (related : α → α → Prop) (attempt attempt' : Attempt α) : Prop :=
  ∀ ⦃situation situation' answer after⦄, situation.SameScene situation' → attempt situation = .ok answer after →
    ∃ answer' after', attempt' situation' = .ok answer' after' ∧ related answer answer' ∧ after.SameScene after'

namespace RefinedBy

theorem pure {answer answer' : α} (answers : related answer answer') :
    RefinedBy related (pure answer) (pure answer') := by
  intro situation situation' _ _ same given
  cases given
  exact ⟨answer', situation', rfl, answers, same⟩

theorem exhaust (attempt' : Attempt α) : RefinedBy related exhaust attempt' := by
  intro _ _ _ _ _ given
  cases given

theorem stream : RefinedBy Eq Attempt.stream Attempt.stream := by
  intro situation situation' _ _ same given
  cases given
  exact ⟨_, situation', rfl, same.stream_eq, same⟩

theorem captures : RefinedBy Eq Attempt.captures Attempt.captures := by
  intro situation situation' _ _ same given
  cases given
  exact ⟨_, situation', rfl, same.captures_eq, same⟩

theorem goTo (place : TokenStream) : RefinedBy Eq (Attempt.goTo place) (Attempt.goTo place) := by
  intro situation situation' _ _ same given
  cases given
  exact ⟨_, _, rfl, rfl, rfl, same.captures_eq⟩

theorem setCaptures (kept : Captures) : RefinedBy Eq (Attempt.setCaptures kept) (Attempt.setCaptures kept) := by
  intro situation situation' _ _ same given
  cases given
  exact ⟨_, _, rfl, rfl, same.stream_eq, rfl⟩

theorem ofResult {result result' : Except Fault α}
    (answers : ∀ answer, result = .ok answer → ∃ answer', result' = .ok answer' ∧ related answer answer') :
    RefinedBy related (Attempt.ofResult result) (Attempt.ofResult result') := by
  intro situation situation' _ _ same given
  cases result with
  | error fault => cases given
  | ok answer =>
    obtain ⟨answer', rfl, both⟩ := answers answer rfl
    cases given
    exact ⟨answer', situation', rfl, both, same⟩

theorem bind (first : RefinedBy related attempt attempt')
    (second : ∀ answer answer', related answer answer' → RefinedBy related' (next answer) (next' answer')) :
    RefinedBy related' (attempt >>= next) (attempt' >>= next') := by
  intro situation situation' result after same given
  obtain ⟨answer, middle, answers, goesOn⟩ := Stateful.bind_eq_ok_iff.mp given
  obtain ⟨answer', middle', answers', both, sameMiddle⟩ := first same answers
  obtain ⟨result', after', goesOn', results, sameAfter⟩ := second answer answer' both sameMiddle goesOn
  exact ⟨result', after', Stateful.bind_eq_ok_iff.mpr ⟨answer', middle', answers', goesOn'⟩, results, sameAfter⟩

/-- Where the answers are the same, what comes next only has to be compared for one answer. -/
theorem bind_eq (first : RefinedBy Eq attempt attempt')
    (second : ∀ answer, RefinedBy related' (next answer) (next' answer)) :
    RefinedBy related' (attempt >>= next) (attempt' >>= next') :=
  first.bind fun answer _ same => same ▸ second answer

theorem apart (view : TokenStream → TokenStream) (inner : RefinedBy related attempt attempt') :
    RefinedBy related (Attempt.apart view attempt) (Attempt.apart view attempt') := by
  intro situation situation' answer after same given
  rw [apart_apply] at given
  cases outcome : attempt { situation with stream := view situation.stream } with
  | error stop middle =>
    rw [outcome] at given
    cases given
  | ok result middle =>
    rw [outcome] at given
    cases given
    have viewed : Situation.SameScene { situation with stream := view situation.stream }
        { situation' with stream := view situation'.stream } := ⟨congrArg view same.stream_eq, same.captures_eq⟩
    obtain ⟨answer', middle', answers', both, sameMiddle⟩ := inner viewed outcome
    refine ⟨answer', { middle' with stream := situation'.stream }, ?_, both, same.stream_eq, sameMiddle.captures_eq⟩
    rw [apart_apply, answers']

/-- What is noticed first makes no difference. -/
theorem notice_left (notice : Notice) (refines : RefinedBy related attempt attempt') :
    RefinedBy related (do Attempt.notice notice; attempt) attempt' := by
  intro situation situation' answer after same given
  rw [notice_bind_apply] at given
  refine refines ?_ given
  exact ⟨same.stream_eq, same.captures_eq⟩

theorem notice_right (notice : Notice) (refines : RefinedBy related attempt attempt') :
    RefinedBy related attempt (do Attempt.notice notice; attempt') := by
  intro situation situation' answer after same given
  simp only [notice_bind_apply]
  refine refines ?_ given
  exact ⟨same.stream_eq, same.captures_eq⟩

theorem mono {weaker : α → α → Prop} (refines : RefinedBy related attempt attempt')
    (weaken : ∀ answer answer', related answer answer' → weaker answer answer') : RefinedBy weaker attempt attempt' := by
  intro situation situation' answer after same given
  obtain ⟨answer', after', answers', both, sameAfter⟩ := refines same given
  exact ⟨answer', after', answers', weaken _ _ both, sameAfter⟩

end RefinedBy

/-- What ignores notices answers the same in every situation of the same scene. -/
theorem IgnoresNotices.refinedBy (ignores : attempt.IgnoresNotices) : RefinedBy Eq attempt attempt := by
  intro situation situation' answer after same given
  -- Both situations are the one without notices, with notices from before.
  have start : situation = Situation.withEarlier { situation with memory.notices := [] } situation.memory.notices := rfl
  have start' : situation' =
      Situation.withEarlier { situation with memory.notices := [] } situation'.memory.notices :=
    Situation.ext same.stream_eq.symm (Memory.ext same.captures_eq.symm rfl)
  rw [start, ignores] at given
  cases outcome : attempt { situation with memory.notices := [] } with
  | error stop middle =>
    rw [outcome] at given
    cases given
  | ok result middle =>
    rw [outcome] at given
    cases given
    refine ⟨_, middle.withEarlier situation'.memory.notices, ?_, rfl, rfl, rfl⟩
    rw [start', ignores, outcome]
    rfl

end Attempt

/-- A run is refined by another one whose matches agree with its own. -/
def Run.IsRefinedBy (run run' : Run) : Prop := Attempt.RefinedBy (Option.Rel Match.Agrees) run run'

namespace Run.IsRefinedBy

open Run
open Attempt (RefinedBy)

variable {run run' : Run} {rule rule' : Rule} {each each' : Rule → Run} {rules rules' : List Rule}

/-- A run that ignores notices is refined by itself. -/
theorem of_ignoresNotices (ignores : run.IgnoresNotices) : run.IsRefinedBy run := by
  refine ignores.refinedBy.mono fun found _ same => ?_
  subst same
  cases found with
  | none => exact .none
  | some found => exact .some (.refl found)

theorem noMatch : Run.IsRefinedBy noMatch noMatch := .pure .none

theorem create (start finish : Number) (tokens : List Token) (rule rule' : Rule) :
    Run.IsRefinedBy (do return some (← Attempt.ofResult (Match.create start finish tokens rule)))
      (do return some (← Attempt.ofResult (Match.create start finish tokens rule'))) :=
  (RefinedBy.ofResult fun _ made => Match.Agrees.create made rule').bind fun _ _ agrees => .pure (.some agrees)

theorem since (start : Nat) (tokens : List Token) (rule rule' : Rule) :
    Run.IsRefinedBy (since start tokens rule) (since start tokens rule') :=
  RefinedBy.stream.bind_eq fun _ => create _ _ _ _ _

theorem hereIf (condition : Bool) (rule rule' : Rule) :
    Run.IsRefinedBy (hereIf condition rule) (hereIf condition rule') := by
  cases condition with
  | false => exact noMatch
  | true => exact RefinedBy.stream.bind_eq fun stream => create _ _ _ _ _

theorem tokenStep : RefinedBy Eq tokenStep tokenStep :=
  Attempt.IgnoresNotices.refinedBy (Attempt.ignoresNotices_compositional.tokenStep ())

theorem succeeds (view : TokenStream → TokenStream) (refines : run.IsRefinedBy run') :
    RefinedBy Eq (succeeds view run) (succeeds view run') := by
  refine (RefinedBy.apart view refines).bind fun found found' together => .pure ?_
  cases together <;> rfl

theorem arrive {kind kind' : Text} {found found' : Match} (agrees : found.Agrees found') :
    Run.IsRefinedBy (arrive kind found) (arrive kind' found') := by
  refine RefinedBy.stream.bind_eq fun stream => ?_
  rw [agrees.start_eq, agrees.finish_eq]
  split
  · refine (RefinedBy.ofResult fun place moves => ⟨place, moves, rfl⟩).bind_eq fun place => ?_
    exact (RefinedBy.goTo place).bind_eq fun _ => .pure (.some agrees)
  · intro _ _ _ _ _ given
    cases given

theorem settle (kind kind' : Text) (refines : run.IsRefinedBy run') :
    (settle kind run).IsRefinedBy (settle kind' run') := by
  refine (RefinedBy.apart id refines).bind fun found found' together => ?_
  cases together with
  | none => exact noMatch
  | some agrees => exact arrive agrees

theorem delegate (refines : run.IsRefinedBy run') (rule rule' : Rule) :
    (delegate run rule).IsRefinedBy (delegate run' rule') := by
  refine RefinedBy.stream.bind_eq fun stream => RefinedBy.bind refines fun found found' together => ?_
  cases together with
  | none => exact noMatch
  | some agrees =>
    dsimp only
    rw [agrees.finish_eq, agrees.tokens_eq]
    exact create _ _ _ _ _

/-- A run is refined by one that settles on what is passed on from a run refining it. -/
theorem to_settle_delegate (sound : run'.Sound) (refines : run.IsRefinedBy run') (kind : Text) (rule : Rule) :
    run.IsRefinedBy (Run.settle kind (Run.delegate run' rule)) := by
  intro situation situation' found after same answers
  obtain ⟨found', after', answers', together, sameAfter⟩ := refines same answers
  have settles := sound situation'
  rw [answers'] at settles
  refine ⟨_, after', sound.settle_delegate_eq_ok_iff.mpr ⟨found', answers', rfl⟩, ?_, sameAfter⟩
  cases together with
  | none => exact .none
  | some agrees => exact .some (agrees.trans (.between settles rule))

/-- A run that settles on what is passed on is refined by what refines the run that it is passed on from. -/
theorem of_settle_delegate (sound : run.Sound) (refines : run.IsRefinedBy run') (kind : Text) (rule : Rule) :
    (Run.settle kind (Run.delegate run rule)).IsRefinedBy run' := by
  intro situation situation' answer after same given
  obtain ⟨found, answers, rfl⟩ := sound.settle_delegate_eq_ok_iff.mp given
  obtain ⟨found', after', answers', together, sameAfter⟩ := refines same answers
  have settles := sound situation
  rw [answers] at settles
  refine ⟨found', after', answers', ?_, sameAfter⟩
  cases together with
  | none => exact .none
  | some agrees => exact .some ((Match.Agrees.between settles rule).symm.trans agrees)

theorem inTurn (refines : List.Forall₂ (fun inner inner' => (each inner).IsRefinedBy (each' inner')) rules rules') :
    RefinedBy Eq (inTurn each rules) (inTurn each' rules') := by
  induction refines with
  | nil => exact .pure rfl
  | cons first rest ih =>
    refine RefinedBy.bind first fun found found' together => ?_
    cases together with
    | none => exact .pure rfl
    | some agrees =>
      dsimp only
      rw [agrees.tokens_eq]
      exact ih.bind_eq fun tokens => by cases tokens <;> exact .pure rfl

theorem firstOf (refines : List.Forall₂ (fun inner inner' => (each inner).IsRefinedBy (each' inner')) rules rules') :
    (firstOf each rules).IsRefinedBy (firstOf each' rules') := by
  induction refines with
  | nil => exact noMatch
  | cons first rest ih =>
    refine (RefinedBy.apart id first).bind fun found found' together => ?_
    cases together with
    | none => exact ih
    | some agrees => exact .pure (.some agrees)

theorem farthestOf (refines : List.Forall₂ (fun inner inner' => (each inner).IsRefinedBy (each' inner')) rules rules')
    {farthest farthest' : Option Match} (known : Option.Rel Match.Agrees farthest farthest') :
    (farthestOf each farthest rules).IsRefinedBy (farthestOf each' farthest' rules') := by
  induction refines generalizing farthest farthest' with
  | nil => exact .pure known
  | cons first rest ih =>
    refine (RefinedBy.apart id first).bind fun found found' together => ?_
    cases together with
    | none => exact noMatch
    | some agrees =>
      cases known with
      | none => exact ih (.some agrees)
      | some earlier => exact ih (.some (earlier.farther agrees))

/-- More repetitions may be tried with more fuel. -/
theorem repeating (refines : run.IsRefinedBy run') (least : Nat) (limit : Option Nat) {fuel fuel' : Nat}
    (enough : fuel ≤ fuel') (count : Nat) :
    RefinedBy Eq (repeating run least limit fuel count) (repeating run' least limit fuel' count) := by
  induction fuel generalizing fuel' count with
  | zero => exact .exhaust _
  | succ fuel ih =>
    obtain ⟨fuel', rfl⟩ := Nat.exists_eq_add_of_le' (Nat.zero_lt_of_lt enough)
    rw [Run.repeating, Run.repeating]
    split
    · exact .pure rfl
    · refine RefinedBy.bind refines fun found found' together => ?_
      cases together with
      | none => exact .pure rfl
      | some agrees =>
        dsimp only
        rw [agrees.isZeroWidth_eq, agrees.tokens_eq]
        split
        · exact .pure rfl
        · exact (ih (Nat.le_of_succ_le_succ enough) (count + 1)).bind_eq fun _ => .pure rfl

theorem bodyStep (refines : run.IsRefinedBy run') : RefinedBy Eq (bodyStep run) (bodyStep run') := by
  refine RefinedBy.bind refines fun found found' together => ?_
  cases together with
  | none => exact .pure rfl
  | some agrees =>
    dsimp only
    rw [agrees.isZeroWidth_eq, agrees.tokens_eq]
    exact .pure rfl

theorem untilClosed {step step' : Attempt (Option (List Token))} (closing : run.IsRefinedBy run')
    (steps : RefinedBy Eq step step') {fuel fuel' : Nat} (enough : fuel ≤ fuel') :
    RefinedBy Eq (untilClosed run step fuel) (untilClosed run' step' fuel') := by
  induction fuel generalizing fuel' with
  | zero => exact .exhaust _
  | succ fuel ih =>
    obtain ⟨fuel', rfl⟩ := Nat.exists_eq_add_of_le' (Nat.zero_lt_of_lt enough)
    refine RefinedBy.bind closing fun found found' together => ?_
    cases together with
    | some agrees => exact .pure (congrArg some agrees.tokens_eq)
    | none =>
      refine RefinedBy.stream.bind_eq fun stream => ?_
      split
      · refine steps.bind_eq fun tokens => ?_
        cases tokens with
        | none => exact .pure rfl
        | some tokens =>
          exact (ih (Nat.le_of_succ_le_succ enough)).bind_eq fun rest => by cases rest <;> exact .pure rfl
      · exact .pure rfl

theorem bounded {opening opening' : Run} {step step' : Attempt (Option (List Token))}
    (opens : opening.IsRefinedBy opening') (closing : run.IsRefinedBy run') (steps : RefinedBy Eq step step')
    {fuel fuel' : Nat} (enough : fuel ≤ fuel')
    (rule rule' : Rule) : (bounded opening run step fuel rule).IsRefinedBy (bounded opening' run' step' fuel' rule') := by
  refine RefinedBy.stream.bind_eq fun stream => RefinedBy.bind opens fun found found' together => ?_
  cases together with
  | none => exact noMatch
  | some agrees =>
    refine (untilClosed closing steps enough).bind_eq fun tokens => ?_
    cases tokens with
    | none => exact noMatch
    | some tokens =>
      dsimp only
      rw [agrees.tokens_eq]
      exact since _ _ _ _

theorem insideGroup (refines : run.IsRefinedBy run') (rule rule' : Rule) :
    (insideGroup run rule).IsRefinedBy (insideGroup run' rule') := by
  refine RefinedBy.stream.bind_eq fun stream => RefinedBy.stream.bind_eq fun stream' => ?_
  cases stream'.current? with
  | none => exact noMatch
  | some token =>
    dsimp only
    cases token.unwrap.members? with
    | none => exact noMatch
    | some members =>
      refine (refines.succeeds _).bind_eq fun matched => ?_
      cases matched with
      | false => exact noMatch
      | true =>
        refine RefinedBy.stream.bind_eq fun place => ?_
        refine (RefinedBy.ofResult fun behind advances => ⟨behind, advances, rfl⟩).bind_eq fun behind => ?_
        exact (RefinedBy.goTo behind).bind_eq fun _ => since _ _ _ _

end Run.IsRefinedBy

end TokenGrammar
