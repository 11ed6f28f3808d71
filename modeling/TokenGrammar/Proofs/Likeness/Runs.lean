import TokenGrammar.Proofs.Likeness.Attempts
import TokenGrammar.Proofs.Soundness

namespace TokenGrammar.Likeness

open Run

variable {world : World} {likeness : Likeness world} {run : Run} {rule : Rule} {each : Rule → Run}
  {rules : List Rule} {tokens tokens' : List Token}

theorem matches_of_create {start start' finish finish' : Number} {found found' : Match}
    (taken : List.Forall₂ likeness.token tokens tokens') (made : Match.create start finish tokens rule = .ok found)
    (made' : Match.create start' finish' tokens' rule = .ok found') : likeness.Matches found found' := by
  rw [Match.eq_of_create made, Match.eq_of_create made']
  exact ⟨taken, rfl⟩

theorem create_related {start start' finish finish' : Number} (taken : List.Forall₂ likeness.token tokens tokens') :
    likeness.Relates likeness.Matches (Attempt.ofResult (Match.create start finish tokens rule))
      (Attempt.ofResult (Match.create start' finish' tokens' rule)) :=
  .ofResult fun _ _ => matches_of_create taken

theorem noMatch_keeps : likeness.Keeps noMatch := .pure .none

theorem since_related {start start' : Nat} (taken : List.Forall₂ likeness.token tokens tokens') :
    likeness.Relates (Option.Rel likeness.Matches) (since start tokens rule) (since start' tokens' rule) :=
  Relates.stream.bind fun _ _ _ => (create_related taken).bind fun _ _ alike => .pure (.some alike)

theorem here_keeps : likeness.Keeps (here rule) :=
  Relates.stream.bind fun _ _ _ => (create_related .nil).bind fun _ _ alike => .pure (.some alike)

theorem hereIf_keeps (condition : Bool) : likeness.Keeps (hereIf condition rule) := by
  cases condition with
  | false => exact noMatch_keeps
  | true => exact here_keeps

theorem Keeps.succeeds {view view' : TokenStream → TokenStream} (keeps : likeness.Keeps run)
    (alikeViews : ∀ {start start'}, likeness.place start start' → likeness.place (view start) (view' start')) :
    likeness.Relates Eq (succeeds view run) (succeeds view' run) := by
  refine (keeps.apart alikeViews).bind fun found found' together => .pure ?_
  cases together <;> rfl

theorem Keeps.asserts {view view' : TokenStream → TokenStream} {condition : Bool → Bool} (keeps : likeness.Keeps run)
    (alikeViews : ∀ {start start'}, likeness.place start start' → likeness.place (view start) (view' start')) :
    likeness.Relates (Option.Rel likeness.Matches)
      (Run.succeeds view run >>= fun matched => hereIf (condition matched) rule)
      (Run.succeeds view' run >>= fun matched => hereIf (condition matched) rule) := by
  apply (keeps.succeeds alikeViews).bind
  intro matched matched' same
  rw [same]
  exact hereIf_keeps _

theorem Keeps.delegate (keeps : likeness.Keeps run) : likeness.Keeps (delegate run rule) := by
  refine Relates.stream.bind fun _ _ _ => keeps.bind fun found found' together => ?_
  cases together with
  | none => exact noMatch_keeps
  | some alike => exact (create_related alike.1).bind fun _ _ alike => .pure (.some alike)

/-- A body that matches alike from its place on makes a run that does. -/
theorem Keeps.settle {kind : Text} (keeps : likeness.Keeps run)
    (traces : ∀ situation, Meets (run situation) fun found _ => Traces situation.stream found) :
    likeness.Keeps (settle kind run) := by
  intro situation situation' alike
  have apart : likeness.Keeps (Attempt.apart id run) := keeps.apart id
  apply (apart situation situation' alike).bind_meets (apart_traces (traces situation))
    (apart_traces (traces situation'))
  intro found after found' after' together alikeAfter meets meets'
  obtain ⟨stays, traced⟩ := meets
  obtain ⟨stays', traced'⟩ := meets'
  cases together with
  | none => exact .answers .none alikeAfter
  | some alikeMatches =>
    rw [← stays] at traced
    rw [← stays'] at traced'
    obtain ⟨finish, spans⟩ := traced
    obtain ⟨finish', spans'⟩ := traced'
    dsimp only
    rw [arrive_apply spans, arrive_apply spans']
    -- Alike matches need not end at the same index: each stream arrives where its own tokens end.
    have alikeFinish := finish_alike alikeAfter.place spans.reads spans'.reads alikeMatches.1.length_eq
    exact .answers (.some alikeMatches) { alikeAfter with place := alikeFinish }

theorem ofTest_keeps {test : Token → Bool}
    (alikeTests : ∀ {seen seen'}, likeness.token seen seen' → test seen = test seen') :
    likeness.Keeps (ofTest test rule) := by
  apply Relates.stream.bind
  intro start start' alike
  rw [hasMore_eq alike]
  cases start'.hasMore with
  | false => exact noMatch_keeps
  | true =>
    apply Relates.read.bind
    intro seen seen' alike
    rw [alikeTests alike]
    cases test seen' with
    | false => exact noMatch_keeps
    | true => exact since_related (.cons alike .nil)

theorem inTurn_related (keeps : ∀ member ∈ rules, likeness.Keeps (each member)) :
    likeness.Relates (Option.Rel (List.Forall₂ likeness.token)) (inTurn each rules) (inTurn each rules) := by
  induction rules with
  | nil => exact .pure (.some .nil)
  | cons first rest ih =>
    apply (keeps first (by simp)).bind
    intro found found' together
    cases together with
    | none => exact .pure .none
    | some alike =>
      refine (ih fun member inside => keeps member (by simp [inside])).bind fun tokens tokens' together => ?_
      cases together with
      | none => exact .pure .none
      | some taken => exact .pure (.some (List.rel_append alike.1 taken))

theorem firstOf_keeps (keeps : ∀ member ∈ rules, likeness.Keeps (each member)) :
    likeness.Keeps (firstOf each rules) := by
  induction rules with
  | nil => exact noMatch_keeps
  | cons first rest ih =>
    apply ((keeps first (by simp)).apart id).bind
    intro found found' together
    cases together with
    | none => exact ih fun member inside => keeps member (by simp [inside])
    | some alike => exact .pure (.some alike)

theorem farther_alike {place place' : TokenStream} {first second first' second' : Match}
    (traced : Traces place (some first)) (others : Traces place (some second))
    (traced' : Traces place' (some first')) (others' : Traces place' (some second'))
    (firsts : likeness.Matches first first') (seconds : likeness.Matches second second') :
    likeness.Matches (farther first second) (farther first' second') := by
  obtain ⟨_, spans⟩ := traced
  obtain ⟨_, spansOther⟩ := others
  obtain ⟨_, spans'⟩ := traced'
  obtain ⟨_, spansOther'⟩ := others'
  rw [farther, farther, spans.lessThan_eq spansOther, spans'.lessThan_eq spansOther', firsts.1.length_eq,
    seconds.1.length_eq]
  split
  · exact seconds
  · exact firsts

/-- The farthest matches are alike, since of two matches the farther one takes more tokens. -/
theorem farthestOf_agree {farthest farthest' : Option Match} (sound : ∀ member ∈ rules, (each member).Sound)
    (keeps : ∀ member ∈ rules, likeness.Keeps (each member)) (alike : likeness.Alike situation situation')
    (known : Traces situation.stream farthest) (known' : Traces situation'.stream farthest')
    (together : Option.Rel likeness.Matches farthest farthest') :
    likeness.Agree (Option.Rel likeness.Matches) (farthestOf each farthest rules situation)
      (farthestOf each farthest' rules situation') := by
  induction rules generalizing situation situation' farthest farthest' with
  | nil => exact .answers together alike
  | cons first rest ih =>
    have firstSound := sound first (by simp)
    apply ((keeps first (by simp)).apart id situation situation' alike).bind_meets firstSound.apart_traces
      firstSound.apart_traces
    intro found after found' after' both alikeAfter meets meets'
    obtain ⟨stays, traced⟩ := meets
    obtain ⟨stays', traced'⟩ := meets'
    cases both with
    | none => exact .answers .none alikeAfter
    | some alikeMatches =>
      rw [← stays] at known traced
      rw [← stays'] at known' traced'
      apply ih (fun member inside => sound member (by simp [inside]))
        (fun member inside => keeps member (by simp [inside])) alikeAfter
      · cases farthest with
        | none => exact traced
        | some earlier => exact farther_traces known traced
      · cases farthest' with
        | none => exact traced'
        | some earlier => exact farther_traces known' traced'
      · cases together with
        | none => exact .some alikeMatches
        | some alikeEarlier => exact .some (farther_alike known traced known' traced' alikeEarlier alikeMatches)

theorem isZeroWidth_alike {place place' finish finish' : TokenStream} {found found' : Match}
    (spans : found.Spans place finish) (spans' : found'.Spans place' finish') (alike : likeness.Matches found found') :
    found.isZeroWidth = found'.isZeroWidth := by
  rw [spans.isZeroWidth_eq, spans'.isZeroWidth_eq, decide_eq_decide, ← List.length_eq_zero_iff,
    ← List.length_eq_zero_iff, alike.1.length_eq]

theorem repeating_related (sound : run.Sound) (keeps : likeness.Keeps run) {least : Nat} {limit : Option Nat}
    (fuel count : Nat) :
    likeness.Relates (fun counted counted' => counted.1 = counted'.1 ∧ List.Forall₂ likeness.token counted.2 counted'.2)
      (repeating run least limit fuel count) (repeating run least limit fuel count) := by
  induction fuel generalizing count with
  | zero => exact .exhaust
  | succ fuel ih =>
    rw [repeating]
    split
    · exact .pure ⟨rfl, .nil⟩
    · intro situation situation' alike
      apply (keeps situation situation' alike).bind_meets (sound situation) (sound situation')
      intro found after found' after' together alikeAfter settles settles'
      cases together with
      | none => exact .answers ⟨rfl, .nil⟩ alikeAfter
      | @some found found' alikeMatches =>
        dsimp only
        rw [isZeroWidth_alike settles settles' alikeMatches]
        split
        · exact .answers ⟨rfl, .nil⟩ alikeAfter
        · refine (ih (count + 1)).bind ?_ _ _ alikeAfter
          intro counted counted' both
          obtain ⟨same, taken⟩ := both
          exact .pure ⟨same, List.rel_append alikeMatches.1 taken⟩

theorem tokenStep_related : likeness.Relates (Option.Rel (List.Forall₂ likeness.token)) tokenStep tokenStep :=
  Relates.read.bind fun _ _ alike => .pure (.some (.cons alike .nil))

theorem bodyStep_related (sound : run.Sound) (keeps : likeness.Keeps run) :
    likeness.Relates (Option.Rel (List.Forall₂ likeness.token)) (bodyStep run) (bodyStep run) := by
  intro situation situation' alike
  apply (keeps situation situation' alike).bind_meets (sound situation) (sound situation')
  intro found after found' after' together alikeAfter settles settles'
  cases together with
  | none => exact .answers .none alikeAfter
  | @some found found' alikeMatches =>
    dsimp only
    rw [isZeroWidth_alike settles settles' alikeMatches]
    split
    · exact .answers .none alikeAfter
    · exact .answers (.some alikeMatches.1) alikeAfter

/-- Alike steps before alike closing matches take alike tokens. -/
theorem untilClosed_related {closing : Run} {step : Attempt (Option (List Token))} (keeps : likeness.Keeps closing)
    (steps : likeness.Relates (Option.Rel (List.Forall₂ likeness.token)) step step) (fuel : Nat) :
    likeness.Relates (Option.Rel (List.Forall₂ likeness.token)) (untilClosed closing step fuel)
      (untilClosed closing step fuel) := by
  induction fuel with
  | zero => exact .exhaust
  | succ fuel ih =>
    apply keeps.bind
    intro found found' together
    cases together with
    | some alikeMatches => exact .pure (.some alikeMatches.1)
    | none =>
      apply Relates.stream.bind
      intro start start' alike
      rw [hasMore_eq alike]
      split
      · apply steps.bind
        intro tokens tokens' together
        cases together with
        | none => exact .pure .none
        | some taken =>
          apply ih.bind
          intro rest rest' together
          cases together with
          | none => exact .pure .none
          | some others => exact .pure (.some (List.rel_append taken others))
      · exact .pure .none

theorem bounded_keeps {opening closing : Run} {step : Attempt (Option (List Token))} (opens : likeness.Keeps opening)
    (closes : likeness.Keeps closing) (steps : likeness.Relates (Option.Rel (List.Forall₂ likeness.token)) step step)
    (fuel : Nat) : likeness.Keeps (bounded opening closing step fuel rule) := by
  refine Relates.stream.bind fun _ _ _ => opens.bind fun found found' together => ?_
  cases together with
  | none => exact noMatch_keeps
  | some alikeMatches =>
    apply (untilClosed_related closes steps fuel).bind
    intro tokens tokens' together
    cases together with
    | none => exact noMatch_keeps
    | some taken => exact since_related (List.rel_append alikeMatches.1 taken)

/-- Alike captured tokens have the same values, so that alike tokens are read again. -/
theorem readValues_related {expected expected' : List Token}
    (alike : List.Forall₂ likeness.token expected expected') :
    likeness.Relates (Option.Rel (List.Forall₂ likeness.token)) (readValues expected) (readValues expected') := by
  induction alike with
  | nil => exact .pure (.some .nil)
  | cons wanted rest ih =>
    apply Relates.stream.bind
    intro start start' alike
    have together := current?_related alike
    generalize start.current? = next at together ⊢
    generalize start'.current? = next' at together ⊢
    cases together with
    | none => exact .pure .none
    | some seen =>
      dsimp only
      rw [likeness.value seen, likeness.value wanted]
      split
      · refine Relates.read.bind fun token token' taken => ih.bind fun tokens tokens' together => .pure ?_
        cases together with
        | none => exact .none
        | some others => exact .some (.cons taken others)
      · exact .pure .none

theorem sameValues_related {expected expected' : List Token}
    (alike : List.Forall₂ likeness.token expected expected') :
    likeness.Relates (Option.Rel likeness.Matches) (sameValues expected rule) (sameValues expected' rule) := by
  refine Relates.stream.bind fun _ _ _ => (readValues_related alike).bind fun tokens tokens' together => ?_
  cases together with
  | none => exact noMatch_keeps
  | some taken => exact since_related taken

theorem advance_related {start start' : TokenStream} (alike : likeness.place start start') :
    likeness.Relates likeness.place (Attempt.ofResult (start.advance 1)) (Attempt.ofResult (start'.advance 1)) := by
  apply Relates.ofResult
  intro behind behind' advanced advanced'
  obtain ⟨_, read⟩ := TokenStream.advance_one_eq_ok_iff.mp advanced
  obtain ⟨_, read'⟩ := TokenStream.advance_one_eq_ok_iff.mp advanced'
  have together := likeness.reads alike
  rw [read, read'] at together
  cases together with
  | some together => exact together.2

/-- Alike groups have alike members, inside of which alike things happen. -/
theorem Keeps.insideGroup (keeps : likeness.Keeps run) : likeness.Keeps (insideGroup run rule) := by
  refine Relates.stream.bind fun _ _ _ => Relates.stream.bind fun start start' alike => ?_
  have together := current?_related alike
  generalize start.current? = token at together ⊢
  generalize start'.current? = token' at together ⊢
  cases together with
  | none => exact noMatch_keeps
  | @some token token' seen =>
    have together := likeness.members seen
    dsimp only
    generalize token.unwrap.members? = members at together ⊢
    generalize token'.unwrap.members? = members' at together ⊢
    cases together with
    | none => exact noMatch_keeps
    | some inside =>
      refine (keeps.succeeds fun _ => inside).bind fun matched matched' same => ?_
      subst same
      cases matched with
      | false => exact noMatch_keeps
      | true =>
        apply Relates.stream.bind
        intro start start' alike
        exact (advance_related alike).bind fun _ _ behind => (Relates.goTo behind).bind fun _ _ _ =>
          since_related (.cons seen .nil)

end TokenGrammar.Likeness
