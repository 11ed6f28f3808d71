/-
This file counts what a repeated rule matches.
The negated loop looks one repetition farther and counts a match of nothing there as one of its own.
-/

import TokenGrammar.Proofs.Laws.Repetitions

namespace TokenGrammar

/-- The range of the counts up to a limit. -/
def Range.upTo (limit : Nat) : Range := ⟨0, some limit, fun _ _ => Nat.zero_le _⟩

namespace Rule

open Run
open Attempt (Gives gives_bind_const_iff)

/-- A rule is settled when whatever it yields settles: the stream moves to the end of a match that begins where it
stood, and stays without one. -/
def IsSettled (world : World) (rule : Rule) : Prop :=
  ∀ situation found after, rule.Yields world situation found after → Settles situation.stream found after

/-- Consecutive matches of a rule that take something each, from a situation to the one behind the last of them. -/
inductive Repeats (world : World) (rule : Rule) : Situation → List Match → Situation → Prop
  | done (situation : Situation) : Repeats world rule situation [] situation
  | next {situation middle behind : Situation} {found : Match} {others : List Match}
      (yields : rule.Yields world situation (some found) middle) (filled : found.isZeroWidth = false)
      (rest : Repeats world rule middle others behind) : Repeats world rule situation (found :: others) behind

/-- The consecutive matches of a rule that take something each, up to the first attempt that does not, and whether
that one matches nothing instead of failing. -/
inductive Counts (world : World) (rule : Rule) : Situation → List Match → Bool → Prop
  | fails {situation after : Situation} (yields : rule.Yields world situation none after) :
      Counts world rule situation [] false
  | emptily {situation after : Situation} {found : Match} (yields : rule.Yields world situation (some found) after)
      (zeroWidth : found.isZeroWidth = true) : Counts world rule situation [] true
  | next {situation middle : Situation} {found : Match} {others : List Match} {emptily : Bool}
      (yields : rule.Yields world situation (some found) middle) (filled : found.isZeroWidth = false)
      (rest : Counts world rule middle others emptily) : Counts world rule situation (found :: others) emptily

/-- How many repetitions consecutive matches make: a match of nothing behind them makes those still required. -/
def repetitionsMade (least matched : Nat) (emptily : Bool) : Nat := if emptily then max matched least else matched

variable {world : World} {rule : Rule} {situation middle behind : Situation} {taken : List Match} {emptily : Bool}

theorem BuiltIn.isSettled (builtIn : rule.BuiltIn world) : rule.IsSettled world := fun _ _ _ yields =>
  builtIn.settles yields

/-- Consecutive matches take what is read on the way. -/
theorem Repeats.reads (settled : rule.IsSettled world) (repeats : rule.Repeats world situation taken behind) :
    situation.stream.Reads (taken.flatMap Match.tokens) behind.stream := by
  induction repeats with
  | done => exact .nil _
  | next yields filled rest ih =>
    have spans : Match.Spans _ _ _ := settled _ _ _ yields
    rw [List.flatMap_cons]
    exact spans.reads.append ih

/-- As many of the consecutive matches as are wanted follow each other. -/
theorem Counts.exists_repeats (counts : rule.Counts world situation taken emptily) (wanted : Nat) :
    ∃ middle, rule.Repeats world situation (taken.take wanted) middle := by
  induction counts generalizing wanted with
  | fails | emptily =>
    rw [List.take_nil]
    exact ⟨_, .done _⟩
  | next yields filled rest ih =>
    cases wanted with
    | zero => exact ⟨_, .done _⟩
    | succ wanted =>
      obtain ⟨middle, repeats⟩ := ih wanted
      exact ⟨middle, .next yields filled repeats⟩

/-- The loop stops behind the last match that its limit allows. -/
theorem Repeats.gives (repeats : rule.Repeats world situation taken behind) (least : Nat) :
    Gives (repetitions world rule least (some taken.length)) situation
      (taken.length, taken.flatMap Match.tokens) behind := by
  induction repeats generalizing least with
  | done => exact gives_repetitions_of_limit_zero.mpr ⟨rfl, rfl⟩
  | @next situation middle behind found others yields filled rest ih =>
    have room : some (found :: others).length ≠ some 0 := by simp
    refine (gives_repetitions_iff room).mpr (.inr ⟨found, middle, yields, .inr ⟨filled, _, ih (least - 1), ?_⟩⟩)
    rfl

/-- Where its limit is not reached, the loop goes on to the attempt that fails or takes nothing. -/
theorem Counts.gives (settled : rule.IsSettled world) (counts : rule.Counts world situation taken emptily) (least : Nat)
    {limit : Option Nat} (room : ∀ most, limit = some most → taken.length < most) :
    ∃ middle after, rule.Repeats world situation taken middle ∧ after.stream = middle.stream ∧
      Gives (repetitions world rule least limit) situation
        (if emptily then max (taken.length + 1) least else taken.length, taken.flatMap Match.tokens) after := by
  have notReached : limit ≠ some 0 := fun reached => absurd (room 0 reached) (Nat.not_lt_zero _)
  induction counts generalizing least limit with
  | fails yields =>
    exact ⟨_, _, .done _, settled _ _ _ yields, (gives_repetitions_iff notReached).mpr (.inl ⟨yields, rfl⟩)⟩
  | @emptily situation after found yields zeroWidth =>
    have spans : found.Spans situation.stream after.stream := settled _ _ _ yields
    have nothing : found.tokens = [] := by simpa [spans.isZeroWidth_eq] using zeroWidth
    have stays := spans.reads
    rw [nothing] at stays
    refine ⟨_, _, .done _, stays.eq_of_nil, (gives_repetitions_iff notReached).mpr (.inr ⟨_, _, yields, ?_⟩)⟩
    exact .inl ⟨zeroWidth, rfl, rfl⟩
  | @next situation middle found others emptily yields filled rest ih =>
    have later : ∀ most, limit.map (· - 1) = some most → others.length < most := by
      intro most same
      obtain ⟨limit, rfl, rfl⟩ := Option.map_eq_some_iff.mp same
      have := room limit rfl
      simp only [List.length_cons] at this
      omega
    obtain ⟨last, after, repeats, stays, given⟩ :=
      ih (least - 1) later fun reached => absurd (later 0 reached) (Nat.not_lt_zero _)
    refine ⟨last, after, .next yields filled repeats, stays, (gives_repetitions_iff notReached).mpr ?_⟩
    refine .inr ⟨found, middle, yields, .inr ⟨filled, _, given, ?_⟩⟩
    have shifts : max (others.length + 1 + 1) least = max (others.length + 1) (least - 1) + 1 := by omega
    cases emptily with
    | false => rfl
    | true => simp only [if_true, List.length_cons, List.flatMap_cons, shifts]

/-- A repeated rule matches if its loop counted what its polarity asks for, and takes the matches that its loop went
through. -/
theorem repeated_answers {range : Range} {negated : Bool} {counted : Nat}
    (settled : rule.IsSettled world) (repeats : rule.Repeats world situation taken middle)
    (stays : behind.stream = middle.stream)
    (given : Gives (repetitions world rule range.least (if negated then range.most.map (· + 1) else range.most)) situation
      (counted, taken.flatMap Match.tokens) behind) :
    ∃ answer after, (Rule.repeated rule range negated).Yields world situation answer after ∧
      (answer.isSome = true ↔ range.contains counted ≠ negated) ∧
      ∀ found, answer = some found → after.stream = middle.stream ∧
        found = .between situation.stream middle.stream (taken.flatMap Match.tokens) (.repeated rule range negated) := by
  have reads := repeats.reads settled
  rw [← stays] at reads ⊢
  obtain ⟨fuel, counts⟩ := given
  rw [repetitions] at counts
  have body : (Rule.repeated rule range negated).bodyRun world fuel situation =
      (if range.contains counted != negated then since situation.stream.index (taken.flatMap Match.tokens)
        (.repeated rule range negated) else noMatch) behind := by
    rw [bodyRun, Rule.body, Attempt.stream_bind_apply, Stateful.bind_apply]
    simp only [counts]
  by_cases asked : range.contains counted = negated
  · simp only [asked, bne_self_eq_false, Bool.false_eq_true, if_false] at body
    refine ⟨none, _, ⟨fuel + 1, settle_none body⟩, by simp [asked], ?_⟩
    intro found same
    cases same
  · simp only [bne_iff_ne, ne_eq, asked, not_false_eq_true, if_true, since_apply reads] at body
    refine ⟨some _, _, ⟨fuel + 1, settle_some body (Match.spans_between reads _)⟩, by simp [asked], ?_⟩
    rintro found ⟨⟩
    exact ⟨rfl, rfl⟩

theorem contains_eq_false_iff {range : Range} {count : Nat} :
    range.contains count = false ↔ count < range.least ∨ ∃ most, range.most = some most ∧ most < count := by
  cases limited : range.most with
  | none => simp [Range.contains, Range.admits, limited]
  | some most =>
    simp only [Range.contains, Range.admits, limited, Option.all_some, Bool.and_eq_false_iff, decide_eq_false_iff_not,
      Nat.not_le, Option.some.injEq, exists_eq_left']

/-- How many of the consecutive matches the negation of a repeated rule goes through: one more than are allowed, if there
are as many. -/
def triedRepetitions (range : Range) (matched : Nat) : Nat := range.most.elim matched (· + 1)

/-- What the loop of the negation of a repeated rule counts: no more than one repetition too many, and a match of nothing
as a repetition of its own besides those still required. -/
def repetitionsCounted (range : Range) (matched : Nat) (emptily : Bool) : Nat :=
  if range.most.any (· < matched) then triedRepetitions range matched
  else if emptily then max (matched + 1) range.least else matched

section Tried

variable {range : Range} {matched most : Nat}

theorem triedRepetitions_of_most (limited : range.most = some most) : triedRepetitions range matched = most + 1 := by
  rw [triedRepetitions, limited, Option.elim_some]

theorem repetitionsCounted_of_lt (limited : range.most = some most) (more : most < matched) :
    repetitionsCounted range matched emptily = most + 1 := by
  simp [repetitionsCounted, limited, more, triedRepetitions_of_most limited]

variable (within : ∀ most, range.most = some most → matched ≤ most)
include within

theorem le_triedRepetitions : matched ≤ triedRepetitions range matched := by
  cases limited : range.most with
  | none => exact Nat.le_of_eq (by simp [triedRepetitions, limited])
  | some most =>
    rw [triedRepetitions_of_most limited]
    exact Nat.le_succ_of_le (within most limited)

theorem repetitionsCounted_of_le :
    repetitionsCounted range matched emptily = if emptily then max (matched + 1) range.least else matched := by
  have below : range.most.any (· < matched) = false := by
    cases limited : range.most with
    | none => rfl
    | some most => simpa using within most limited
  simp only [repetitionsCounted, below, Bool.false_eq_true, if_false]

end Tried

/-- The loop of the negation counts what is out of range when the repetitions made are, or when a match of nothing comes
behind as many matches as are allowed. -/
theorem contains_repetitionsCounted {range : Range} {matched : Nat} {emptily : Bool} :
    range.contains (repetitionsCounted range matched emptily) = false ↔
      repetitionsMade range.least matched emptily < range.least ∨
        (∃ most, range.most = some most ∧ most < repetitionsMade range.least matched emptily) ∨
        (emptily = true ∧ range.most = some matched) := by
  rw [contains_eq_false_iff]
  cases limited : range.most with
  | none =>
    rw [repetitionsCounted_of_le (by simp [limited])]
    cases emptily with
    | false => simp [repetitionsMade]
    | true =>
      have required : ¬ max matched range.least < range.least := by omega
      have counted : ¬ max (matched + 1) range.least < range.least := by omega
      simp [repetitionsMade, required, counted]
  | some most =>
    have ordered := range.ordered most limited
    by_cases more : most < matched
    · rw [repetitionsCounted_of_lt limited more]
      simp only [repetitionsMade, Option.some.injEq, exists_eq_left']
      split <;> omega
    · have within (other : Nat) (same : range.most = some other) : matched ≤ other := by
        rw [limited] at same
        cases same
        exact Nat.le_of_not_lt more
      rw [repetitionsCounted_of_le within]
      simp only [repetitionsMade, Option.some.injEq, exists_eq_left']
      cases emptily with
      | false => simp
      | true =>
        simp only [if_true, true_and]
        omega

/-- The loop of the negation of a repeated rule goes through one match more than are allowed, if there are as many, and
otherwise through all of them. -/
theorem Counts.gives_tried (settled : rule.IsSettled world) (counts : rule.Counts world situation taken emptily)
    (range : Range) :
    ∃ middle after, rule.Repeats world situation (taken.take (triedRepetitions range taken.length)) middle ∧
      after.stream = middle.stream ∧
      Gives (repetitions world rule range.least (range.most.map (· + 1))) situation
        (repetitionsCounted range taken.length emptily,
          (taken.take (triedRepetitions range taken.length)).flatMap Match.tokens) after := by
  by_cases reached : ∃ most, range.most = some most ∧ most < taken.length
  · obtain ⟨most, limited, more⟩ := reached
    obtain ⟨middle, repeats⟩ := counts.exists_repeats (most + 1)
    have given := repeats.gives range.least
    rw [List.length_take_of_le more] at given
    rw [triedRepetitions_of_most limited, repetitionsCounted_of_lt limited more, limited]
    exact ⟨middle, middle, repeats, rfl, given⟩
  · have within : ∀ most, range.most = some most → taken.length ≤ most := fun most limited =>
      Nat.le_of_not_lt fun more => reached ⟨most, limited, more⟩
    have room : ∀ limit, range.most.map (· + 1) = some limit → taken.length < limit := by
      intro limit same
      obtain ⟨most, limited, rfl⟩ := Option.map_eq_some_iff.mp same
      exact Nat.lt_succ_of_le (within most limited)
    obtain ⟨middle, after, repeats, stays, given⟩ := counts.gives settled range.least room
    rw [List.take_of_length_le (le_triedRepetitions within), repetitionsCounted_of_le within]
    exact ⟨middle, after, repeats, stays, given⟩

/-- What the negation of a repeated rule comes to where its inner rule is counted: it matches when the repetitions made
are too few or too many, and also when exactly as many as are allowed come before a match of nothing, which the loop
counts once more. It takes the matches that it went through. -/
theorem negate_repeated_yields (settled : rule.IsSettled world) (counts : rule.Counts world situation taken emptily)
    (range : Range) :
    ∃ answer after, (Rule.repeated rule range false).negate.Yields world situation answer after ∧
      (answer.isSome = true ↔
        repetitionsMade range.least taken.length emptily < range.least ∨
          (∃ most, range.most = some most ∧ most < repetitionsMade range.least taken.length emptily) ∨
          (emptily = true ∧ range.most = some taken.length)) ∧
      ∀ found, answer = some found → ∃ middle,
        rule.Repeats world situation (taken.take (triedRepetitions range taken.length)) middle ∧
          after.stream = middle.stream ∧
          found = .between situation.stream middle.stream
            ((taken.take (triedRepetitions range taken.length)).flatMap Match.tokens) (.repeated rule range true) := by
  obtain ⟨middle, behind, repeats, stays, given⟩ := counts.gives_tried settled range
  obtain ⟨answer, after, yields, matches_iff, takes⟩ :=
    @repeated_answers _ _ _ _ _ _ range true _ settled repeats stays given
  refine ⟨answer, after, yields, ?_, ?_⟩
  · rw [matches_iff, ← contains_repetitionsCounted, ne_eq, Bool.not_eq_true]
  · intro found same
    exact ⟨middle, repeats, takes found same⟩

/-- An optional opening bracket takes two brackets of a row and then nothing. -/
theorem optional_counts : ∃ taken,
    (Rule.optional (Brackets.taking Brackets.opening) false).Counts {}
      ⟨.ofTokens [Brackets.opening, Brackets.opening, Brackets.closing], {}⟩ taken true ∧ taken.length = 2 :=
  ⟨[_, _], .next ⟨3, rfl⟩ rfl (.next ⟨3, rfl⟩ rfl (.emptily ⟨3, rfl⟩ rfl)), rfl⟩

theorem optional_builtIn : (Rule.optional (Brackets.taking Brackets.opening) false).BuiltIn {} := by
  refine @Throughout.of_parts {} IsMade (.optional (Brackets.taking Brackets.opening) false) trivial fun part refers => ?_
  cases refers with
  | shown child =>
    rw [List.mem_singleton.mp child]
    exact builtIn_of_runsNone rfl rfl

/-- Two brackets are more than one, and the negation of up to one of them takes both. -/
theorem negate_upTo_one_takes_two : ∃ taken answer after,
    (Rule.optional (Brackets.taking Brackets.opening) false).IsSettled {} ∧
      (Rule.optional (Brackets.taking Brackets.opening) false).Counts {}
        ⟨.ofTokens [Brackets.opening, Brackets.opening, Brackets.closing], {}⟩ taken true ∧
      (Rule.repeated (.optional (Brackets.taking Brackets.opening) false) (.upTo 1) false).negate.Yields {}
        ⟨.ofTokens [Brackets.opening, Brackets.opening, Brackets.closing], {}⟩ answer after ∧
      answer.map Match.tokens = some (taken.flatMap Match.tokens) := by
  obtain ⟨taken, counts, size⟩ := optional_counts
  obtain ⟨answer, after, yields, matches_iff, takes⟩ :=
    negate_repeated_yields optional_builtIn.isSettled counts (.upTo 1)
  refine ⟨taken, answer, after, optional_builtIn.isSettled, counts, yields, ?_⟩
  have exceeds : 1 < repetitionsMade 0 taken.length true := by
    rw [size]
    decide
  obtain ⟨found, rfl⟩ := Option.isSome_iff_exists.mp (matches_iff.mpr (.inr (.inl ⟨1, rfl, exceeds⟩)))
  obtain ⟨middle, -, -, rfl⟩ := takes found rfl
  have all : taken.take 2 = taken := List.take_of_length_le (Nat.le_of_eq size)
  exact congrArg (fun taken => some (taken.flatMap Match.tokens)) all

/-- Two brackets are no more than two, and yet the negation of up to two of them matches. -/
theorem not_negate_repeated_yields : ∃ taken found after,
    (Rule.optional (Brackets.taking Brackets.opening) false).Counts {}
        ⟨.ofTokens [Brackets.opening, Brackets.opening, Brackets.closing], {}⟩ taken true ∧
      (Range.upTo 2).contains (repetitionsMade 0 taken.length true) = true ∧
      (Rule.repeated (.optional (Brackets.taking Brackets.opening) false) (.upTo 2) false).negate.Yields {}
        ⟨.ofTokens [Brackets.opening, Brackets.opening, Brackets.closing], {}⟩ (some found) after := by
  obtain ⟨taken, counts, size⟩ := optional_counts
  refine ⟨taken, _, _, counts, ?_, ⟨5, rfl⟩⟩
  rw [size]
  rfl

end Rule

end TokenGrammar
