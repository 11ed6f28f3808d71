import TokenGrammar.Proofs.Laws.Bodies

namespace TokenGrammar.Rule

open Run
open Attempt (Grows Gives gives_bind_iff gives_bind_const_iff gives_const_iff gives_pure_iff)

variable {world : World} {rule : Rule} {situation after : Situation} {found : Match}

/-- A repetition that has begun goes on like one of what is still required and still allowed. -/
theorem repeating_succ (run : Run) (least : Nat) (limit : Option Nat) (fuel count : Nat) :
    repeating run least limit fuel (count + 1) =
      (do
        let (total, tokens) ← repeating run (least - 1) (limit.map (· - 1)) fuel count
        return (total + 1, tokens)) := by
  induction fuel generalizing count with
  | zero => rfl
  | succ fuel ih =>
    have reached : (limit.any fun limit => limit ≤ count + 1) = (limit.map (· - 1)).any fun limit => limit ≤ count := by
      cases limit <;> simp
    rw [repeating, repeating, reached]
    split
    · rfl
    · rw [bind_assoc]
      apply bind_congr
      intro found
      cases found with
      | none => rfl
      | some found =>
        dsimp only
        split
        · have required : max (count + 1 + 1) least = max (count + 1) (least - 1) + 1 := by omega
          rw [required]
          rfl
        · rw [ih, bind_assoc, bind_assoc]
          rfl

/-- The repetitions of a rule with so much fuel. -/
def repetitions (world : World) (rule : Rule) (least : Nat) (limit : Option Nat) (fuel : Nat) :
    Attempt (Nat × List Token) :=
  repeating (rule.run world fuel) least limit fuel 0

theorem repetitions_grows (rule : Rule) (least : Nat) (limit : Option Nat) :
    Grows (repetitions world rule least limit) := fun _ _ enough =>
  repeating_approximates (run_approximates enough) enough 0

/-- The loop may have one unit of fuel less than the rule. -/
theorem gives_repetitions_iff_lagging {least : Nat} {limit : Option Nat} {counted : Nat × List Token} :
    Gives (fun fuel => repeating (rule.run world (fuel + 1)) least limit fuel 0) situation counted after ↔
      Gives (repetitions world rule least limit) situation counted after := by
  constructor
  · intro given
    obtain ⟨fuel, answers⟩ := given
    exact ⟨fuel + 1, (repeating_approximates (.refl _) (Nat.le_succ fuel) 0).eq_ok answers⟩
  · intro given
    obtain ⟨fuel, answers⟩ := given
    exact ⟨fuel, (repeating_approximates (run_approximates (Nat.le_succ fuel)) (Nat.le_refl fuel) 0).eq_ok answers⟩

theorem gives_repetitions_of_limit_zero {least : Nat} {counted : Nat × List Token} :
    Gives (repetitions world rule least (some 0)) situation counted after ↔ counted = (0, []) ∧ after = situation := by
  rw [← (repetitions_grows rule least (some 0)).gives_succ_iff]
  constructor
  · intro given
    obtain ⟨fuel, answers⟩ := given
    cases answers
    exact ⟨rfl, rfl⟩
  · intro given
    obtain ⟨rfl, rfl⟩ := given
    exact ⟨0, rfl⟩

/-- What comes behind the first match of repetitions. -/
def goOn (run : Run) (least : Nat) (limit : Option Nat) (fuel : Nat) : Option Match → Attempt (Nat × List Token)
  | none => return (0, [])
  | some found =>
    if found.isZeroWidth then return (max 1 least, [])
    else do
      let others ← repeating run (least - 1) (limit.map (· - 1)) fuel 0
      return (others.1 + 1, found.tokens ++ others.2)

/-- Repetitions run the rule once and then go on as its match allows. -/
theorem repetitions_succ {least : Nat} {limit : Option Nat} (room : limit ≠ some 0) (fuel : Nat) :
    repetitions world rule least limit (fuel + 1) =
      rule.run world (fuel + 1) >>= goOn (rule.run world (fuel + 1)) least limit fuel := by
  have below : (limit.any fun limit => limit ≤ 0) = false := by
    cases limit with
    | none => rfl
    | some limit => simpa using room
  rw [repetitions, repeating, below, if_neg Bool.false_ne_true]
  apply bind_congr
  intro found
  cases found with
  | none => rfl
  | some found =>
    dsimp only [goOn]
    split
    · rfl
    · rw [repeating_succ, bind_assoc]
      rfl

theorem laterRepetitions_grow (least : Nat) (limit : Option Nat) :
    Grows fun fuel => repeating (rule.run world (fuel + 1)) least limit fuel 0 := fun _ _ enough =>
  repeating_approximates (run_approximates (Nat.succ_le_succ enough)) enough 0

theorem goOn_grows (least : Nat) (limit : Option Nat) (found : Option Match) :
    Grows fun fuel => goOn (rule.run world (fuel + 1)) least limit fuel found := by
  cases found with
  | none => exact Grows.const _
  | some found =>
    simp only [goOn]
    split
    · exact Grows.const _
    · exact (laterRepetitions_grow ..).bind fun _ => Grows.const _

/-- Repetitions end when the rule fails or takes nothing, and otherwise go on behind the match. -/
theorem gives_repetitions_iff {least : Nat} {limit : Option Nat} {counted : Nat × List Token} (room : limit ≠ some 0) :
    Gives (repetitions world rule least limit) situation counted after ↔
      (rule.Yields world situation none after ∧ counted = (0, [])) ∨
        ∃ found middle, rule.Yields world situation (some found) middle ∧
          ((found.isZeroWidth = true ∧ counted = (max 1 least, []) ∧ after = middle) ∨
            (found.isZeroWidth = false ∧ ∃ others,
              Gives (repetitions world rule (least - 1) (limit.map (· - 1))) middle others after ∧
                counted = (others.1 + 1, found.tokens ++ others.2))) := by
  -- The loop unfolds only with fuel to spare, and from then on has one unit less than the rule that it runs.
  rw [← (repetitions_grows rule least limit).gives_succ_iff]
  simp only [repetitions_succ room]
  rw [gives_bind_iff run_grows.succ (goOn_grows least limit)]
  simp only [run_grows.gives_succ_iff]
  constructor
  · intro holds
    obtain ⟨found, middle, yields, given⟩ := holds
    cases found with
    | none =>
      obtain ⟨fuel, answers⟩ := given
      cases answers
      exact .inl ⟨yields, rfl⟩
    | some found =>
      refine .inr ⟨found, middle, yields, ?_⟩
      cases zeroWidth : found.isZeroWidth with
      | true =>
        simp only [goOn, zeroWidth, if_true, gives_const_iff] at given
        cases given
        exact .inl ⟨rfl, rfl, rfl⟩
      | false =>
        simp only [goOn, zeroWidth, if_false, Bool.false_eq_true] at given
        obtain ⟨others, later, remaining, joins⟩ := (gives_bind_const_iff (laterRepetitions_grow ..)).mp given
        cases joins
        exact .inr ⟨rfl, others, gives_repetitions_iff_lagging.mp remaining, rfl⟩
  · intro given
    rcases given with ⟨yields, rfl⟩ | ⟨found, middle, yields, ⟨zeroWidth, rfl, rfl⟩ | ⟨filled, others, remaining, rfl⟩⟩
    · exact ⟨none, after, yields, gives_const_iff.mpr rfl⟩
    · refine ⟨some found, after, yields, ?_⟩
      simp only [goOn, zeroWidth, if_true, gives_const_iff]
      rfl
    · refine ⟨some found, middle, yields, ?_⟩
      simp only [goOn, filled, if_false, Bool.false_eq_true]
      exact (gives_bind_const_iff (laterRepetitions_grow ..)).mpr
        ⟨others, after, gives_repetitions_iff_lagging.mpr remaining, rfl⟩

section Repetitions

variable {range : Range} {negated : Bool} (sound : rule.IsSound world)
include sound

theorem repeated_traced : (Rule.repeated rule range negated).Traced world where
  inside := nofun
  traces fuel _ := repeated_traces (sound fuel)

theorem reads_of_repetitions {least : Nat} {limit : Option Nat} {counted : Nat × List Token}
    (given : Gives (repetitions world rule least limit) situation counted after) :
    situation.stream.Reads counted.2 after.stream :=
  given.meets fun fuel => (sound fuel).repeating_reads fuel 0

/-- A repeated rule matches what its repetitions take if there are as many as its polarity asks for. -/
theorem yields_repeated_iff {answer : Option Match} :
    (Rule.repeated rule range negated).Yields world situation answer after ↔
      ∃ counted middle,
        Gives (repetitions world rule range.least (if negated then range.most.map (· + 1) else range.most)) situation
          counted middle ∧
        ((range.contains counted.1 = negated ∧ answer = none ∧ after = { middle with stream := situation.stream }) ∨
          (range.contains counted.1 ≠ negated ∧ after = middle ∧
            answer = some (.between situation.stream middle.stream counted.2 (.repeated rule range negated)))) := by
  rw [yields_iff (repeated_traced sound)]
  constructor
  · intro holds
    obtain ⟨later, given, settles, memory_eq⟩ := holds
    obtain ⟨counted, middle, inner, answers⟩ := (gives_bind_const_iff (repetitions_grows ..)).mp given
    have reads := reads_of_repetitions sound inner
    refine ⟨counted, middle, inner, ?_⟩
    by_cases asked : range.contains counted.1 = negated
    · simp only [asked, bne_self_eq_false, Bool.false_eq_true, if_false] at answers
      cases answers
      exact .inl ⟨asked, rfl, Situation.ext settles memory_eq⟩
    · simp only [bne_iff_ne, ne_eq, asked, not_false_eq_true, if_true, since_apply reads] at answers
      cases answers
      have spans : Match.Spans _ situation.stream after.stream := settles
      exact .inr ⟨asked, Situation.ext (spans.reads.unique reads) memory_eq, rfl⟩
  · intro given
    obtain ⟨counted, middle, inner, ⟨asked, rfl, rfl⟩ | ⟨asked, rfl, rfl⟩⟩ := given
    · refine ⟨middle, (gives_bind_const_iff (repetitions_grows ..)).mpr ⟨counted, middle, inner, ?_⟩, rfl, rfl⟩
      simp only [asked, bne_self_eq_false, Bool.false_eq_true, if_false]
      rfl
    · have reads := reads_of_repetitions sound inner
      refine ⟨after, (gives_bind_const_iff (repetitions_grows ..)).mpr ⟨counted, after, inner, ?_⟩,
        Match.spans_between reads _, rfl⟩
      simp only [bne_iff_ne, ne_eq, asked, not_false_eq_true, if_true, since_apply reads]

/-- Where a repeated rule ends is decided by what its repetitions come to. -/
theorem ends_repeated_iff {result : Option TokenStream} :
    (∃ answer after, (Rule.repeated rule range false).Yields world situation answer after ∧
        result = answer.map fun _ => after.stream) ↔
      ∃ counted middle, Gives (repetitions world rule range.least range.most) situation counted middle ∧
        result = if range.contains counted.1 then some middle.stream else none := by
  constructor
  · intro ends
    obtain ⟨answer, after, yields, rfl⟩ := ends
    obtain ⟨counted, middle, given, counts⟩ := (yields_repeated_iff sound).mp yields
    refine ⟨counted, middle, given, ?_⟩
    rcases counts with ⟨outside, rfl, rfl⟩ | ⟨inside, rfl, rfl⟩
    · rw [outside]
      rfl
    · rw [if_pos (eq_true_of_ne_false inside)]
      rfl
  · intro holds
    obtain ⟨counted, middle, given, rfl⟩ := holds
    cases contained : range.contains counted.1 with
    | false =>
      refine ⟨none, _, (yields_repeated_iff sound).mpr ⟨counted, middle, given, .inl ⟨contained, rfl, rfl⟩⟩, ?_⟩
      simp
    | true =>
      refine ⟨some _, _, (yields_repeated_iff sound).mpr ⟨counted, middle, given, .inr ⟨?_, rfl, rfl⟩⟩, ?_⟩
      · simp [contained]
      · simp

end Repetitions

end TokenGrammar.Rule
