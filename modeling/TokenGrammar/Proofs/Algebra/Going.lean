import TokenGrammar.Proofs.Algebra.Steadiness
import TokenGrammar.Proofs.Derivation.Completeness
import TokenGrammar.Proofs.DoubleNegation

namespace TokenGrammar.Rule

open Run
open Attempt (Gives)

variable {world : World} {rule first second both : Rule} {rules : List Rule} {captures : Captures}
  {place next : TokenStream} {result : Option TokenStream} {situation after : Situation} {taken : Option (List Token)}

theorem Takes.goesTo (takes : rule.Takes world situation taken after) :
    rule.GoesTo world situation.memory.captures situation.stream (taken.map fun _ => after.stream) := by
  obtain ⟨found, yields, rfl⟩ := takes
  rw [Option.map_map]
  exact yields.goesTo

theorem GoesTo.exists_takes (goes : rule.GoesTo world captures place result) (notices : List Notice) :
    ∃ taken after, rule.Takes world ⟨place, captures, notices⟩ taken after ∧
      result = taken.map fun _ => after.stream := by
  obtain ⟨found, after, yields, rfl⟩ := goes.exists_yields notices
  refine ⟨_, after, ⟨found, yields, rfl⟩, ?_⟩
  rw [Option.map_map]
  rfl

theorem IsSteady.captures_of_takes (steady : rule.IsSteady world) (takes : rule.Takes world situation taken after) :
    after.memory.captures = situation.memory.captures := by
  obtain ⟨found, yields, -⟩ := takes
  exact steady.captures_eq yields

/-- What takes in turn goes on from the place behind the first rule, or fails with it. -/
theorem goesTo_iff_of_takesInTurn (steady : first.IsSteady world)
    (inTurn : ∀ {situation taken after}, both.Takes world situation taken after ↔
      TakesInTurn world first second situation taken after) :
    both.GoesTo world captures place result ↔
      (first.GoesTo world captures place none ∧ result = none) ∨
        ∃ next, first.GoesTo world captures place (some next) ∧ second.GoesTo world captures next result := by
  constructor
  · intro goes
    obtain ⟨taken, after, takes, rfl⟩ := goes.exists_takes []
    rcases inTurn.mp takes with ⟨fails, rfl⟩ | ⟨tokens, middle, begins, rest, later, goesOn, rfl, rfl⟩
    · exact .inl ⟨fails.goesTo, rfl⟩
    · have goesRest := goesOn.goesTo
      rw [steady.captures_of_takes begins] at goesRest
      refine .inr ⟨middle.stream, begins.goesTo, ?_⟩
      cases rest <;> exact goesRest
  · intro goes
    rcases goes with ⟨fails, rfl⟩ | ⟨next, begins, goesOn⟩
    · obtain ⟨taken, after, takes, none_eq⟩ := fails.exists_takes []
      obtain rfl := Option.map_eq_none_iff.mp none_eq.symm
      exact (inTurn.mpr (.inl ⟨takes, rfl⟩)).goesTo
    · obtain ⟨taken, ⟨stream, kept, notices⟩, takes, some_eq⟩ := begins.exists_takes []
      obtain ⟨tokens, rfl, rfl⟩ := Option.map_eq_some_iff.mp some_eq.symm
      obtain rfl : kept = captures := steady.captures_of_takes takes
      obtain ⟨rest, later, remaining, rfl⟩ := goesOn.exists_takes notices
      have goes := (inTurn.mpr (.inr ⟨tokens, _, takes, rest, later, remaining, rfl, rfl⟩)).goesTo
      cases rest <;> exact goes

/-- What takes the first or else the second goes where the first rule goes, or the second one from the same place. -/
theorem goesTo_iff_of_takesEither (steady : first.IsSteady world)
    (either : ∀ {situation taken after}, both.Takes world situation taken after ↔
      TakesEither world first second situation taken after) :
    both.GoesTo world captures place result ↔
      (∃ next, first.GoesTo world captures place (some next) ∧ result = some next) ∨
        (first.GoesTo world captures place none ∧ second.GoesTo world captures place result) := by
  constructor
  · intro goes
    obtain ⟨taken, after, takes, rfl⟩ := goes.exists_takes []
    rcases either.mp takes with ⟨tokens, begins, rfl⟩ | ⟨middle, fails, goesOn⟩
    · exact .inl ⟨after.stream, begins.goesTo, rfl⟩
    · have goesOn := goesOn.goesTo
      rw [steady.captures_of_takes fails, steady.sound.stays fails] at goesOn
      exact .inr ⟨fails.goesTo, goesOn⟩
  · intro goes
    rcases goes with ⟨next, begins, rfl⟩ | ⟨fails, goesOn⟩
    · obtain ⟨taken, after, takes, some_eq⟩ := begins.exists_takes []
      obtain ⟨tokens, rfl, rfl⟩ := Option.map_eq_some_iff.mp some_eq.symm
      exact (either.mpr (.inl ⟨tokens, takes, rfl⟩)).goesTo
    · obtain ⟨taken, ⟨stream, kept, notices⟩, takes, none_eq⟩ := fails.exists_takes []
      obtain rfl := Option.map_eq_none_iff.mp none_eq.symm
      obtain rfl : stream = place := steady.sound.stays takes
      obtain rfl : kept = captures := steady.captures_of_takes takes
      obtain ⟨taken, later, remaining, rfl⟩ := goesOn.exists_takes notices
      exact (either.mpr (.inr ⟨_, takes, remaining⟩)).goesTo

theorem steady_singleton (steady : rule.IsSteady world) : ∀ member ∈ [rule], member.IsSteady world := by
  simpa using steady

theorem steady_pair (steadyFirst : first.IsSteady world) (steadySecond : second.IsSteady world) :
    ∀ member ∈ [first, second], member.IsSteady world := by
  simpa using ⟨steadyFirst, steadySecond⟩

theorem IsSteady.sequence (steady : ∀ member ∈ rules, member.IsSteady world) :
    (Rule.sequence rules).IsSteady world where
  sound := (sequence_traced (isSound_of_isSteady steady)).isSound
  capturesNothing := capturesNothing_of_children rfl trivial fun part child =>
    (steady part (by simpa using child)).capturesNothing

theorem goesTo_sequence_nil_iff : (sequence []).GoesTo world captures place result ↔ result = some place := by
  constructor
  · intro goes
    obtain ⟨taken, after, takes, rfl⟩ := goes.exists_takes []
    obtain ⟨rfl, rfl⟩ := takes_sequence_nil_iff.mp takes
    rfl
  · intro same
    obtain rfl := same
    exact (takes_sequence_nil_iff.mpr ⟨rfl, rfl⟩ : (sequence []).Takes world ⟨place, captures, []⟩ _ _).goesTo

theorem goesTo_sequence_cons_iff (steady : ∀ member ∈ rule :: rules, member.IsSteady world) :
    (sequence (rule :: rules)).GoesTo world captures place result ↔
      (rule.GoesTo world captures place none ∧ result = none) ∨
        ∃ next, rule.GoesTo world captures place (some next) ∧ (sequence rules).GoesTo world captures next result :=
  goesTo_iff_of_takesInTurn (steady rule (List.mem_cons_self ..))
    (takes_sequence_cons_iff (isSound_of_isSteady steady))

theorem goesTo_sequence_singleton_iff (steady : rule.IsSteady world) :
    (sequence [rule]).GoesTo world captures place result ↔ rule.GoesTo world captures place result := by
  rw [goesTo_sequence_cons_iff (steady_singleton steady)]
  simp only [goesTo_sequence_nil_iff]
  constructor
  · intro goes
    rcases goes with ⟨fails, rfl⟩ | ⟨next, begins, rfl⟩
    · exact fails
    · exact begins
  · intro goes
    cases result with
    | none => exact .inl ⟨goes, rfl⟩
    | some next => exact .inr ⟨next, goes, rfl⟩

theorem goesTo_sequence_pair_iff (steadyFirst : first.IsSteady world) (steadySecond : second.IsSteady world) :
    (sequence [first, second]).GoesTo world captures place result ↔
      (first.GoesTo world captures place none ∧ result = none) ∨
        ∃ next, first.GoesTo world captures place (some next) ∧ second.GoesTo world captures next result := by
  rw [goesTo_sequence_cons_iff (steady_pair steadyFirst steadySecond)]
  simp only [goesTo_sequence_singleton_iff steadySecond]

theorem IsSteady.anyOf (steady : ∀ member ∈ rules, member.IsSteady world) : (Rule.anyOf rules).IsSteady world where
  sound := (anyOf_traced (isSound_of_isSteady steady)).isSound
  capturesNothing := capturesNothing_of_children rfl trivial fun part child =>
    (steady part (by simpa using child)).capturesNothing

theorem goesTo_anyOf_nil_iff : (anyOf []).GoesTo world captures place result ↔ result = none := by
  constructor
  · intro goes
    obtain ⟨taken, after, takes, rfl⟩ := goes.exists_takes []
    obtain ⟨rfl, rfl⟩ := takes_anyOf_nil_iff.mp takes
    rfl
  · intro same
    obtain rfl := same
    exact (takes_anyOf_nil_iff.mpr ⟨rfl, rfl⟩ : (anyOf []).Takes world ⟨place, captures, []⟩ _ _).goesTo

theorem goesTo_anyOf_cons_iff (steady : ∀ member ∈ rule :: rules, member.IsSteady world) :
    (anyOf (rule :: rules)).GoesTo world captures place result ↔
      (∃ next, rule.GoesTo world captures place (some next) ∧ result = some next) ∨
        (rule.GoesTo world captures place none ∧ (anyOf rules).GoesTo world captures place result) :=
  goesTo_iff_of_takesEither (steady rule (List.mem_cons_self ..)) (takes_anyOf_cons_iff (isSound_of_isSteady steady))

theorem goesTo_anyOf_pair_iff (steadyFirst : first.IsSteady world) (steadySecond : second.IsSteady world) :
    (anyOf [first, second]).GoesTo world captures place result ↔
      (∃ next, first.GoesTo world captures place (some next) ∧ result = some next) ∨
        (first.GoesTo world captures place none ∧ second.GoesTo world captures place result) := by
  rw [goesTo_anyOf_cons_iff (steady_pair steadyFirst steadySecond),
    goesTo_anyOf_cons_iff (steady_singleton steadySecond)]
  simp only [goesTo_anyOf_nil_iff]
  refine or_congr_right (and_congr_right fun _ => ?_)
  constructor
  · intro goes
    rcases goes with ⟨next, begins, rfl⟩ | ⟨fails, rfl⟩
    · exact begins
    · exact fails
  · intro goes
    cases result with
    | none => exact .inr ⟨goes, rfl⟩
    | some next => exact .inl ⟨next, goes, rfl⟩

theorem always_steady : Rule.always.IsSteady world where
  sound := BuiltIn.isSound (builtIn_of_runsNone trivial rfl)
  capturesNothing := capturesNothing_of_children rfl trivial fun _ child => by cases child

theorem goesTo_always_iff : Rule.always.GoesTo world captures place result ↔ result = some place := by
  have goes : Rule.always.GoesTo world captures place (some place) :=
    (always_yields : Rule.always.Yields world ⟨place, captures, []⟩ _ _).goesTo
  exact ⟨fun other => other.unique goes, fun same => same ▸ goes⟩

theorem IsSteady.optional (steady : rule.IsSteady world) : (Rule.optional rule false).IsSteady world where
  sound := (optional_traced steady.sound).isSound
  capturesNothing := capturesNothing_of_children rfl trivial fun part child => by
    rw [children_optional, List.mem_singleton] at child
    exact child ▸ steady.capturesNothing

/-- An optional rule goes where its rule goes, and stays where that fails. -/
theorem goesTo_optional_iff (steady : rule.IsSteady world) :
    (optional rule false).GoesTo world captures place result ↔
      ∃ tried, rule.GoesTo world captures place tried ∧ result = some (tried.getD place) := by
  have attempted_sound : (rule.attempted false).IsSound world := steady.sound
  constructor
  · intro goes
    obtain ⟨notices, answer, after, yields, rfl⟩ := goes
    rcases (yields_optional_iff attempted_sound).mp yields with ⟨fails, rfl⟩ | ⟨found, begins, rfl⟩
    · have stays : after.stream = place := attempted_sound.settles fails
      exact ⟨none, fails.goesTo, congrArg some stays⟩
    · exact ⟨some after.stream, begins.goesTo, rfl⟩
  · intro holds
    obtain ⟨tried, goes, rfl⟩ := holds
    obtain ⟨found, after, yields, rfl⟩ := goes.exists_yields []
    cases found with
    | none =>
      have stays : after.stream = place := attempted_sound.settles yields
      have goes := ((yields_optional_iff attempted_sound).mpr (.inl ⟨yields, rfl⟩)).goesTo
      rw [stays] at goes
      exact goes
    | some found => exact ((yields_optional_iff attempted_sound).mpr (.inr ⟨found, yields, rfl⟩)).goesTo

theorem IsSteady.lookaround {direction : Direction} {negative : Bool} (steady : rule.IsSteady world) :
    (Rule.lookaround direction rule negative).IsSteady world where
  sound := (lookaround_traced steady.sound).isSound
  capturesNothing := capturesNothing_of_children rfl trivial fun part child => by
    rw [children_lookaround, List.mem_singleton] at child
    exact child ▸ steady.capturesNothing

/-- A lookaround stays where its rule goes somewhere on the view, or nowhere, as its polarity asks. -/
theorem goesTo_lookaround_iff {direction : Direction} {negative : Bool} (steady : rule.IsSteady world) :
    (lookaround direction rule negative).GoesTo world captures place result ↔
      ∃ looked, rule.GoesTo world captures (viewOf direction place) looked ∧
        result = if looked.isSome != negative then some place else none := by
  constructor
  · intro goes
    obtain ⟨notices, answer, after, yields, rfl⟩ := goes
    obtain ⟨inner, middle, looks, rfl, rfl⟩ := (yields_lookaround_iff steady.sound).mp yields
    refine ⟨_, looks.goesTo, ?_⟩
    rw [Option.isSome_map]
    split <;> rfl
  · intro holds
    obtain ⟨looked, goes, rfl⟩ := holds
    obtain ⟨inner, middle, looks, rfl⟩ := goes.exists_yields []
    have yields : (Rule.lookaround direction rule negative).Yields world ⟨place, captures, []⟩ _ _ :=
      (yields_lookaround_iff steady.sound).mpr ⟨inner, middle, looks, rfl, rfl⟩
    have goes := yields.goesTo
    rw [Option.isSome_map]
    split
    · rwa [if_pos ‹_›] at goes
    · rwa [if_neg ‹_›] at goes

theorem IsSteady.repeated {range : Range} {negated : Bool} (steady : rule.IsSteady world) :
    (Rule.repeated rule range negated).IsSteady world where
  sound := (repeated_traced steady.sound).isSound
  capturesNothing := capturesNothing_of_children rfl trivial fun part child => by
    rw [children_repeated, List.mem_singleton] at child
    exact child ▸ steady.capturesNothing

theorem goesTo_repeated_full {range : Range} (steady : rule.IsSteady world) (full : range.most = some 0) :
    (repeated rule range false).GoesTo world captures place result ↔ result = some place := by
  have contained : range.contains 0 = true :=
    (contains_zero_iff range).mpr (Nat.le_zero.mp (range.ordered 0 full))
  have nothing {situation : Situation} {counted : Nat × List Token} {after : Situation} :
      Gives (repetitions world rule range.least range.most) situation counted after ↔
        counted = (0, []) ∧ after = situation := by
    rw [full]
    exact gives_repetitions_of_limit_zero
  constructor
  · intro goes
    obtain ⟨notices, ends⟩ := goes
    obtain ⟨counted, middle, given, rfl⟩ := (ends_repeated_iff steady.sound).mp ends
    obtain ⟨rfl, rfl⟩ := nothing.mp given
    exact if_pos contained
  · intro same
    subst same
    exact ⟨[], (ends_repeated_iff steady.sound).mpr ⟨(0, []), _, nothing.mpr ⟨rfl, rfl⟩, (if_pos contained).symm⟩⟩

/-- A repetition ends where its rule fails or stays, and otherwise goes on behind it with what is left of the range. -/
theorem goesTo_repeated_iff {range : Range} (steady : rule.IsSteady world) (room : range.most ≠ some 0) :
    (repeated rule range false).GoesTo world captures place result ↔
      (rule.GoesTo world captures place none ∧ result = if range.least = 0 then some place else none) ∨
      (rule.GoesTo world captures place (some place) ∧ result = some place) ∨
      ∃ next, rule.GoesTo world captures place (some next) ∧ place.index < next.index ∧
        (repeated rule (range.after 1) false).GoesTo world captures next result := by
  constructor
  · intro goes
    obtain ⟨notices, ends⟩ := goes
    obtain ⟨counted, last, given, rfl⟩ := (ends_repeated_iff steady.sound).mp ends
    rcases (gives_repetitions_iff room).mp given with ⟨fails, rfl⟩ | ⟨found, middle, begins, counts⟩
    · have stays : last.stream = place := steady.sound.settles fails
      refine .inl ⟨fails.goesTo, ?_⟩
      simp only [contains_zero_iff, stays]
    · have spans : found.Spans place middle.stream := steady.sound.settles begins
      have kept : middle.memory.captures = captures := steady.captures_eq begins
      have goes := begins.goesTo
      rcases counts with ⟨zeroWidth, rfl, rfl⟩ | ⟨filled, others, remaining, rfl⟩
      · have stays : last.stream = place := spans.isZeroWidth_iff.mp zeroWidth
        rw [stays] at goes ⊢
        exact .inr (.inl ⟨goes, if_pos (contains_max_one room)⟩)
      · refine .inr (.inr ⟨middle.stream, goes, spans.isZeroWidth_eq_false_iff.mp filled, ?_⟩)
        rw [← contains_after_one room, ← kept]
        exact ⟨middle.memory.notices, (ends_repeated_iff steady.sound).mpr ⟨others, last, remaining, rfl⟩⟩
  · intro goes
    rcases goes with ⟨fails, rfl⟩ | ⟨stays, rfl⟩ | ⟨next, begins, moves, goesOn⟩
    · obtain ⟨notices, yields⟩ := steady.goesTo_none_iff.mp fails []
      refine ⟨[], (ends_repeated_iff steady.sound).mpr
        ⟨_, _, (gives_repetitions_iff room).mpr (.inl ⟨yields, rfl⟩), ?_⟩⟩
      simp only [contains_zero_iff]
    · obtain ⟨found, notices, yields⟩ := steady.goesTo_some_iff.mp stays []
      have spans : found.Spans place place := steady.sound.settles yields
      have zeroWidth : found.isZeroWidth = true := spans.isZeroWidth_iff.mpr rfl
      refine ⟨[], (ends_repeated_iff steady.sound).mpr ⟨_, _, (gives_repetitions_iff room).mpr
        (.inr ⟨found, _, yields, .inl ⟨zeroWidth, rfl, rfl⟩⟩), ?_⟩⟩
      exact (if_pos (contains_max_one room)).symm
    · obtain ⟨found, notices, yields⟩ := steady.goesTo_some_iff.mp begins []
      have spans : found.Spans place next := steady.sound.settles yields
      obtain ⟨answer, after, remaining, rfl⟩ := goesOn.exists_yields notices
      obtain ⟨others, last, given, result_eq⟩ := (ends_repeated_iff steady.sound).mp ⟨answer, after, remaining, rfl⟩
      rw [contains_after_one room] at result_eq
      refine ⟨[], (ends_repeated_iff steady.sound).mpr ⟨_, last, (gives_repetitions_iff room).mpr
        (.inr ⟨found, _, yields, .inr ⟨spans.isZeroWidth_eq_false_iff.mpr moves, others, given, rfl⟩⟩), result_eq⟩⟩

/-- A repetition that requires nothing does not fail. -/
theorem not_goesTo_none_of_least_eq_zero {range : Range} (steady : rule.IsSteady world) (unrequired : range.least = 0) :
    ¬(repeated rule range false).GoesTo world captures place none := by
  induction place using steady.onward captures generalizing range with
  | step place ih =>
    intro goes
    by_cases full : range.most = some 0
    · cases (goesTo_repeated_full steady full).mp goes
    · rcases (goesTo_repeated_iff steady full).mp goes with ⟨-, fails⟩ | ⟨-, fails⟩ | ⟨next, begins, moves, goesOn⟩
      · rw [if_pos unrequired] at fails
        cases fails
      · cases fails
      · have unrequiredRest : (range.after 1).least = 0 := by simp [Range.after, unrequired]
        exact ih next begins moves unrequiredRest goesOn

end TokenGrammar.Rule
