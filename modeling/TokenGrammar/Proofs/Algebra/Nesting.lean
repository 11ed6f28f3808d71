import TokenGrammar.Proofs.Algebra.Going

namespace TokenGrammar.Rule

variable {world : World} {first second third : Rule} {front inner back : List Rule} {captures : Captures}
  {place : TokenStream} {result : Option TokenStream}

section Nesting

variable (sound : ∀ member ∈ front ++ (inner ++ back), member.IsSound world)
include sound

private theorem sound_back : ∀ member ∈ inner ++ back, member.IsSound world := fun member inside =>
  sound member (List.mem_append_right front inside)

/-- With a sound rule in the place of some sound rules of a list, the rules of the list are sound. -/
private theorem sound_nested {nested : Rule} (soundNested : nested.IsSound world) :
    ∀ member ∈ front ++ nested :: back, member.IsSound world := by
  intro member inside
  simp only [List.mem_append, List.mem_cons] at inside
  rcases inside with inside | rfl | inside
  · exact sound member (List.mem_append_left _ inside)
  · exact soundNested
  · exact sound_back sound member (List.mem_append_right inner inside)

/-- The rules of a sequence inside of a sequence may stand in its place. -/
theorem sequence_nested_actsAs :
    (sequence (front ++ sequence inner :: back)).ActsAs world (sequence (front ++ inner ++ back)) := by
  have soundInner : (sequence inner).IsSound world :=
    (sequence_traced fun member inside => sound_back sound member (List.mem_append_left back inside)).isSound
  have soundNested := sound_nested sound soundInner
  have soundRest : ∀ member ∈ sequence inner :: back, member.IsSound world := fun member inside =>
    soundNested member (List.mem_append_right front inside)
  rw [List.append_assoc]
  refine actsAs_of_takes_iff (sequence_traced soundNested).isSound (sequence_traced sound).isSound ?_
  intro situation taken after
  calc
    (sequence (front ++ sequence inner :: back)).Takes world situation taken after
      ↔ TakesInTurn world (sequence front) (sequence (sequence inner :: back)) situation taken after :=
        takes_sequence_append_iff soundNested
    _ ↔ TakesInTurn world (sequence front) (sequence (inner ++ back)) situation taken after :=
        takesInTurn_congr ((takes_sequence_cons_iff soundRest).trans
          (takes_sequence_append_iff (sound_back sound)).symm)
    _ ↔ (sequence (front ++ (inner ++ back))).Takes world situation taken after :=
        (takes_sequence_append_iff sound).symm

/-- The alternatives of a choice inside of a choice may stand in its place. -/
theorem anyOf_nested_actsAs :
    (anyOf (front ++ anyOf inner :: back)).ActsAs world (anyOf (front ++ inner ++ back)) := by
  have soundInner : (anyOf inner).IsSound world :=
    (anyOf_traced fun member inside => sound_back sound member (List.mem_append_left back inside)).isSound
  have soundNested := sound_nested sound soundInner
  have soundRest : ∀ member ∈ anyOf inner :: back, member.IsSound world := fun member inside =>
    soundNested member (List.mem_append_right front inside)
  rw [List.append_assoc]
  refine actsAs_of_takes_iff (anyOf_traced soundNested).isSound (anyOf_traced sound).isSound ?_
  intro situation taken after
  calc
    (anyOf (front ++ anyOf inner :: back)).Takes world situation taken after
      ↔ TakesEither world (anyOf front) (anyOf (anyOf inner :: back)) situation taken after :=
        takes_anyOf_append_iff soundNested
    _ ↔ TakesEither world (anyOf front) (anyOf (inner ++ back)) situation taken after :=
        takesEither_congr ((takes_anyOf_cons_iff soundRest).trans
          (takes_anyOf_append_iff (sound_back sound)).symm)
    _ ↔ (anyOf (front ++ (inner ++ back))).Takes world situation taken after :=
        (takes_anyOf_append_iff sound).symm

end Nesting

/-- A steady rule in front of a choice goes through the same places in front of each alternative. -/
theorem goesTo_distributed_iff (steadyFirst : first.IsSteady world) (steadySecond : second.IsSteady world)
    (steadyThird : third.IsSteady world) :
    (sequence [first, anyOf [second, third]]).GoesTo world captures place result ↔
      (anyOf [sequence [first, second], sequence [first, third]]).GoesTo world captures place result := by
  have steadyPair {last : Rule} (steady : last.IsSteady world) : (sequence [first, last]).IsSteady world :=
    .sequence (steady_pair steadyFirst steady)
  have steadyChoice : (anyOf [second, third]).IsSteady world := .anyOf (steady_pair steadySecond steadyThird)
  rw [goesTo_sequence_pair_iff steadyFirst steadyChoice,
    goesTo_anyOf_pair_iff (steadyPair steadySecond) (steadyPair steadyThird)]
  simp only [goesTo_sequence_pair_iff steadyFirst steadySecond, goesTo_sequence_pair_iff steadyFirst steadyThird,
    goesTo_anyOf_pair_iff steadySecond steadyThird]
  constructor
  · intro goes
    rcases goes with ⟨fails, rfl⟩ | ⟨middle, begins, ⟨next, takes, rfl⟩ | ⟨fails, goesOn⟩⟩
    · exact .inr ⟨.inl ⟨fails, trivial⟩, .inl ⟨fails, rfl⟩⟩
    · exact .inl ⟨next, .inr ⟨middle, begins, takes⟩, rfl⟩
    · exact .inr ⟨.inr ⟨middle, begins, fails⟩, .inr ⟨middle, begins, goesOn⟩⟩
  · intro goes
    rcases goes with ⟨next, ⟨-, none_eq⟩ | ⟨middle, begins, takes⟩, rfl⟩ | ⟨⟨fails, -⟩ | ⟨middle, begins, fails⟩, last⟩
    · cases none_eq
    · exact .inr ⟨middle, begins, .inl ⟨next, takes, rfl⟩⟩
    · rcases last with ⟨-, rfl⟩ | ⟨middle, begins, -⟩
      · exact .inl ⟨fails, rfl⟩
      · cases fails.unique begins
    · rcases last with ⟨failsFirst, -⟩ | ⟨other, beginsAgain, goesOn⟩
      · cases failsFirst.unique begins
      · -- The first rule goes to the same place again, so that the third one is tried where the second one was.
        cases begins.unique beginsAgain
        exact .inr ⟨middle, begins, .inr ⟨fails, goesOn⟩⟩

/-- A sequence inside of a sequence and a choice inside of a choice act like the flat list, at any position, with
whatever captures. A choice behind a rule that captures nothing acts like the choice of the rule in front of each
alternative. -/
theorem nesting_actsAs_flat (world : World) :
    (∀ front inner back, (∀ member ∈ front ++ (inner ++ back), member.IsSound world) →
      (sequence (front ++ sequence inner :: back)).ActsAs world (sequence (front ++ inner ++ back)) ∧
        (anyOf (front ++ anyOf inner :: back)).ActsAs world (anyOf (front ++ inner ++ back))) ∧
    ∀ first second third, first.IsSteady world → second.IsSteady world → third.IsSteady world →
      (sequence [first, anyOf [second, third]]).ActsAs world
        (anyOf [sequence [first, second], sequence [first, third]]) := by
  refine ⟨fun front inner back sound => ⟨sequence_nested_actsAs sound, anyOf_nested_actsAs sound⟩, ?_⟩
  intro first second third steadyFirst steadySecond steadyThird
  have steadyChoice : (anyOf [second, third]).IsSteady world := .anyOf (steady_pair steadySecond steadyThird)
  have steadyPair {last : Rule} (steady : last.IsSteady world) : (sequence [first, last]).IsSteady world :=
    .sequence (steady_pair steadyFirst steady)
  refine actsAs_of_goesTo_iff (.sequence (steady_pair steadyFirst steadyChoice))
    (.anyOf (steady_pair (steadyPair steadySecond) (steadyPair steadyThird))) ?_
  exact goesTo_distributed_iff steadyFirst steadySecond steadyThird

open Brackets in
/-- With the rest of a pair of brackets in a sequence of its own, and with a choice of what may follow the opening
bracket, the same nested brackets are matched. -/
theorem nested_sequences_agree_with_flat :
    (∃ (found found' : Match) (after after' : Situation), found.tokens.length = 4 ∧
      pair.Yields Brackets.world ⟨Brackets.stream, {}⟩ (some found) after ∧
      (sequence [taking opening, sequence [.optional nested false, taking closing]]).Yields Brackets.world
        ⟨Brackets.stream, {}⟩ (some found') after' ∧ found.Agrees found') ∧
    ∃ (found found' : Match) (after after' : Situation), found.tokens.length = 3 ∧
      (sequence [taking opening, anyOf [taking closing, nested]]).Yields Brackets.world ⟨Brackets.stream, {}⟩
        (some found) after ∧
      (anyOf [sequence [taking opening, taking closing], sequence [taking opening, nested]]).Yields Brackets.world
        ⟨Brackets.stream, {}⟩ (some found') after' ∧ found.Agrees found' := by
  have steadyOpening := pair_steady_parts (taking opening) (by simp)
  have steadyClosing := pair_steady_parts (taking closing) (by simp)
  obtain ⟨nests, distributes⟩ := nesting_actsAs_flat Brackets.world
  obtain ⟨flat, -⟩ := nests [taking opening] [.optional nested false, taking closing] []
    (isSound_of_isSteady pair_steady_parts)
  have choice := distributes (taking opening) (taking closing) nested steadyOpening steadyClosing nested_steady
  exact ⟨flat.refines.exists_agrees 12 4 (by decide +kernel), choice.refinedBy.exists_agrees 12 3 (by decide +kernel)⟩

end TokenGrammar.Rule
