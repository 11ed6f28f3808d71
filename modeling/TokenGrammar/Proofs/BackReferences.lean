import TokenGrammar.Proofs.Algebra.Acting
import TokenGrammar.Proofs.Captured
import TokenGrammar.Proofs.ExcludedMiddle
import TokenGrammar.Proofs.Shortening.Attempts

namespace TokenGrammar

variable {world : World} {rule : Rule} {key : Text} {situation after : Situation} {expected again : List Token}
  {next : TokenStream} {taken : Option (List Token)} {fuel : Nat}

/-- The same situation with tokens kept under a key. -/
def Situation.keeping (situation : Situation) (key : Text) (tokens : List Token) : Situation :=
  { situation with memory.captures := situation.memory.captures.keep key tokens }

/-- Values come next when they are those of the next visible tokens, in their order. -/
def TokenStream.Repeats (place : TokenStream) (expected : List Token) : Prop :=
  expected.map Token.value <+: place.ahead.map Token.value

/-- Where values come next there are tokens that have them. -/
theorem TokenStream.Repeats.exists_reads {place : TokenStream} (repeats : place.Repeats expected) :
    ∃ again next, place.Reads again next ∧ again.map Token.value = expected.map Token.value := by
  obtain ⟨next, reads⟩ := exists_reads_iff.mpr (List.take_prefix expected.length place.ahead)
  refine ⟨_, next, reads, ?_⟩
  rw [List.map_take, List.prefix_iff_eq_take.mp repeats, List.length_map]

theorem TokenStream.repeats_of_reads {place : TokenStream} (reads : place.Reads again next)
    (same : again.map Token.value = expected.map Token.value) : place.Repeats expected := by
  rw [Repeats, ← same, ahead_of_reads reads, List.map_append]
  exact List.prefix_append ..

namespace Run

theorem readValues_of_reads (reads : situation.stream.Reads again next)
    (same : again.map Token.value = expected.map Token.value) :
    readValues expected situation = .ok (some again) { situation with stream := next } := by
  induction expected generalizing situation again with
  | nil =>
    obtain rfl := List.map_eq_nil_iff.mp same
    rw [reads.eq_of_nil]
    rfl
  | cons wanted rest ih =>
    cases reads with
    | nil => cases same
    | @cons _ behind _ token others read reads =>
      obtain ⟨value_eq, same⟩ := List.cons.inj same
      have current : situation.stream.current? = some token := by rw [TokenStream.current?_eq, read, Option.map_some]
      have remaining := @ih { situation with stream := behind } others reads same
      rw [readValues, Attempt.stream_bind_apply, current]
      simp only [value_eq, if_true, Attempt.read_bind_apply _ read, Stateful.bind_apply, remaining]
      rfl

/-- Where the values do not come next, reading them stops on the way. -/
theorem exists_readValues_of_not_repeats (differs : ¬situation.stream.Repeats expected) :
    ∃ behind, readValues expected situation = .ok none { situation with stream := behind } := by
  induction expected generalizing situation with
  | nil => exact absurd List.nil_prefix differs
  | cons wanted rest ih =>
    rw [readValues, Attempt.stream_bind_apply, TokenStream.current?_eq]
    cases read : situation.stream.read? with
    | none => exact ⟨_, rfl⟩
    | some next =>
      obtain ⟨token, behind⟩ := next
      by_cases same : token.value = wanted.value
      · have differsBehind : ¬behind.Repeats rest := by
          intro repeats
          refine differs ?_
          rw [TokenStream.Repeats, TokenStream.ahead_of_read? read, List.map_cons, List.map_cons, same]
          exact List.cons_prefix_cons.mpr ⟨rfl, repeats⟩
        obtain ⟨stopped, remaining⟩ := @ih { situation with stream := behind } differsBehind
        refine ⟨stopped, ?_⟩
        simp only [Option.map_some, same, if_true, Attempt.read_bind_apply _ read, Stateful.bind_apply, remaining]
        rfl
      · refine ⟨situation.stream, ?_⟩
        simp only [Option.map_some, same, if_false]
        rfl

end Run

namespace Rule

open Run
open Attempt (Gives)

theorem reference_traced : (Rule.reference key .tokens).Traced world where
  inside := nofun
  traces fuel situation := by
    have sound (target : Rule) (refers : (Rule.reference key .tokens).Refers world target) :
        (target.run world fuel).Sound := by
      cases refers with
      | shown child => cases child
      | reference looks => exact absurd rfl looks
    exact followReference_traces sound

/-- A reference to tokens that are kept reads their values. -/
theorem bodyRun_reference_apply (kept : situation.memory.captures.find? key = some expected) :
    (Rule.reference key .tokens).bodyRun world fuel situation =
      sameValues expected (.reference key .tokens) situation := by
  simp [bodyRun, body, followReference, followReferenceTelling, kept]

/-- A reference to tokens that are kept takes the next ones if these have the same values. -/
theorem takes_reference_iff (kept : situation.memory.captures.find? key = some expected) :
    (Rule.reference key .tokens).Takes world situation taken after ↔
      (¬situation.stream.Repeats expected ∧ taken = none ∧ after = situation) ∨
        ∃ again next, situation.stream.Reads again next ∧ again.map Token.value = expected.map Token.value ∧
          taken = some again ∧ after = { situation with stream := next } := by
  have fails (differs : ¬situation.stream.Repeats expected) :
      (Rule.reference key .tokens).Takes world situation none situation := by
    obtain ⟨behind, stops⟩ := exists_readValues_of_not_repeats differs
    have given : Gives ((Rule.reference key .tokens).bodyRun world) situation none { situation with stream := behind } := by
      refine ⟨0, ?_⟩
      rw [bodyRun_reference_apply kept, sameValues, Attempt.stream_bind_apply, Stateful.bind_apply, stops]
      rfl
    exact takes_none_iff.mpr ((yields_none_iff reference_traced).mpr ⟨_, given, rfl⟩)
  have takes {again : List Token} {next : TokenStream} (reads : situation.stream.Reads again next)
      (same : again.map Token.value = expected.map Token.value) :
      (Rule.reference key .tokens).Takes world situation (some again) { situation with stream := next } := by
    have given : Gives ((Rule.reference key .tokens).bodyRun world) situation
        (some (.between situation.stream next again (.reference key .tokens))) { situation with stream := next } := by
      refine ⟨0, ?_⟩
      rw [bodyRun_reference_apply kept, sameValues, Attempt.stream_bind_apply, Stateful.bind_apply,
        readValues_of_reads reads same]
      exact since_apply reads
    have spans := Match.spans_between reads (.reference key .tokens)
    exact takes_some_iff.mpr ⟨_, (yields_some_iff reference_traced).mpr ⟨_, given, spans, rfl⟩, rfl⟩
  constructor
  · intro takesThis
    by_cases repeats : situation.stream.Repeats expected
    · obtain ⟨again, next, reads, same⟩ := repeats.exists_reads
      obtain ⟨rfl, rfl⟩ := takesThis.unique (takes reads same)
      exact .inr ⟨again, next, reads, same, rfl, rfl⟩
    · obtain ⟨rfl, rfl⟩ := takesThis.unique (fails repeats)
      exact .inl ⟨repeats, rfl, rfl⟩
  · intro holds
    rcases holds with ⟨differs, rfl, rfl⟩ | ⟨again, next, reads, same, rfl, rfl⟩
    · exact fails differs
    · exact takes reads same

theorem capture_traced (filled : key ≠ "") (sound : rule.IsSound world) : (Rule.capture key rule).Traced world where
  inside := nofun
  traces fuel _ := capture_traces filled (sound fuel)

/-- A capture rule passes on the match of the rule inside of it and keeps its tokens. -/
theorem bodyRun_capture_apply (filled : key ≠ "") (sound : rule.IsSound world) :
    (Rule.capture key rule).bodyRun world fuel situation =
      match rule.run world fuel situation with
      | .ok none after => .ok none after
      | .ok (some found) after =>
        .ok (some (.between situation.stream after.stream found.tokens (.capture key rule)))
          (after.keeping key found.tokens)
      | .error stop after => .error stop after := by
  rw [bodyRun, Captured.body_capture_apply filled, (sound fuel).delegate_apply]
  cases rule.run world fuel situation with
  | error stop after => rfl
  | ok answer after => cases answer <;> rfl

/-- A capture rule takes what the rule inside of it takes and keeps that. -/
theorem takes_capture_iff (filled : key ≠ "") (sound : rule.IsSound world) :
    (Rule.capture key rule).Takes world situation taken after ↔
      (rule.Takes world situation none after ∧ taken = none) ∨
        ∃ tokens middle, rule.Takes world situation (some tokens) middle ∧ taken = some tokens ∧
          after = middle.keeping key tokens := by
  have traced : (Rule.capture key rule).Traced world := capture_traced filled sound
  constructor
  · intro takes
    obtain ⟨answer, yields, rfl⟩ := takes
    obtain ⟨later, ⟨fuel, given⟩, settles, memory_eq⟩ := (yields_iff traced).mp yields
    rw [bodyRun_capture_apply filled sound] at given
    cases outcome : rule.run world fuel situation with
    | error stop middle =>
      rw [outcome] at given
      cases given
    | ok found middle =>
      rw [outcome] at given
      have tried : rule.Yields world situation found middle := ⟨fuel, outcome⟩
      cases found with
      | none =>
        cases given
        have stays : later.stream = situation.stream := sound.settles tried
        have after_eq : after = later := Situation.ext (settles.trans stays.symm) memory_eq
        exact .inl ⟨takes_none_iff.mpr (after_eq ▸ tried), rfl⟩
      | some matched =>
        cases given
        have spans : matched.Spans situation.stream middle.stream := sound.settles tried
        have arrives : Match.Spans _ situation.stream after.stream := settles
        refine .inr ⟨matched.tokens, middle, takes_some_iff.mpr ⟨matched, tried, rfl⟩, rfl, ?_⟩
        exact Situation.ext (arrives.reads.unique spans.reads) memory_eq
  · intro holds
    rcases holds with ⟨fails, rfl⟩ | ⟨_, middle, takes, rfl, rfl⟩
    · obtain ⟨fuel, answers⟩ := takes_none_iff.mp fails
      have stays : after.stream = situation.stream := sound.settles ⟨fuel, answers⟩
      refine takes_none_iff.mpr ((yields_iff traced).mpr ⟨after, ⟨fuel, ?_⟩, stays, rfl⟩)
      rw [bodyRun_capture_apply filled sound, answers]
    · obtain ⟨found, ⟨fuel, answers⟩, rfl⟩ := takes_some_iff.mp takes
      have spans : found.Spans situation.stream middle.stream := sound.settles ⟨fuel, answers⟩
      have spansAlike := Match.spans_between spans.reads (.capture key rule)
      refine takes_some_iff.mpr ⟨_, (yields_iff traced).mpr ⟨_, ⟨fuel, ?_⟩, spansAlike, rfl⟩, rfl⟩
      rw [bodyRun_capture_apply filled sound, answers]

/-- A rule that is captured, and a reference to what it captured. -/
def echoing (key : Text) (rule : Rule) : Rule := sequence [capture key rule, reference key .tokens]

/-- What a rule takes and what follows with the same values are taken, or nothing is. -/
theorem takes_echoing_iff (filled : key ≠ "") (sound : rule.IsSound world) :
    (echoing key rule).Takes world situation taken after ↔
      (rule.Takes world situation none after ∧ taken = none) ∨
        ∃ tokens middle, rule.Takes world situation (some tokens) middle ∧
          ((¬middle.stream.Repeats tokens ∧ taken = none ∧
              after = { middle.keeping key tokens with stream := situation.stream }) ∨
            ∃ again next, middle.stream.Reads again next ∧ again.map Token.value = tokens.map Token.value ∧
              taken = some (tokens ++ again) ∧
              after = { middle.keeping key tokens with stream := next }) := by
  rw [echoing, takes_sequence_pair_iff (capture_traced filled sound).isSound reference_traced.isSound]
  constructor
  · intro takes
    rcases takes with ⟨fails, rfl⟩ | ⟨tokens, behind, begins, rest, later, goesOn, rfl, rfl⟩
    · rcases (takes_capture_iff filled sound).mp fails with ⟨fails, -⟩ | ⟨_, _, -, impossible, -⟩
      · exact .inl ⟨fails, rfl⟩
      · cases impossible
    · rcases (takes_capture_iff filled sound).mp begins with ⟨-, impossible⟩ | ⟨_, middle, takes, same, rfl⟩
      · cases impossible
      · cases same
        refine .inr ⟨tokens, middle, takes, ?_⟩
        rcases (takes_reference_iff (Captures.find?_keep_self ..)).mp goesOn with
          ⟨differs, rfl, rfl⟩ | ⟨again, next, reads, same, rfl, rfl⟩
        · exact .inl ⟨differs, rfl, rfl⟩
        · exact .inr ⟨again, next, reads, same, rfl, rfl⟩
  · intro holds
    rcases holds with ⟨fails, rfl⟩ | ⟨tokens, middle, takes, holds⟩
    · exact .inl ⟨(takes_capture_iff filled sound).mpr (.inl ⟨fails, rfl⟩), rfl⟩
    · have begins := (takes_capture_iff filled sound).mpr (.inr ⟨tokens, middle, takes, rfl, rfl⟩)
      rcases holds with ⟨differs, rfl, rfl⟩ | ⟨again, next, reads, same, rfl, rfl⟩
      · exact .inr ⟨tokens, _, begins, none, _,
          (takes_reference_iff (Captures.find?_keep_self ..)).mpr (.inl ⟨differs, rfl, rfl⟩), rfl, rfl⟩
      · exact .inr ⟨tokens, _, begins, some again, _,
          (takes_reference_iff (Captures.find?_keep_self ..)).mpr (.inr ⟨again, next, reads, same, rfl, rfl⟩), rfl, rfl⟩

/-- How a match of a captured rule and a reference to it comes about: the rule matches first, as many tokens with the same
values come next, and both are taken. -/
structure Echoes (world : World) (key : Text) (rule : Rule) (situation : Situation) (found : Match)
    (after : Situation) (matched : Match) (middle : Situation) : Prop where
  yields : rule.Yields world situation (some matched) middle
  spans_first : matched.Spans situation.stream middle.stream
  spans : found.Spans situation.stream after.stream
  again : ∃ again, middle.stream.Reads again after.stream ∧
    again.map Token.value = matched.tokens.map Token.value ∧ found.tokens = matched.tokens ++ again
  stays : matched.tokens = [] → after.stream = middle.stream
  captured : after.memory.captures.find? key = some matched.tokens
  others : ∀ other, other ≠ key → after.memory.captures.find? other = middle.memory.captures.find? other

theorem echoing_sound (filled : key ≠ "") (sound : rule.IsSound world) : (echoing key rule).IsSound world := by
  have soundParts : ∀ part ∈ [capture key rule, reference key .tokens], part.IsSound world := by
    simpa using ⟨(capture_traced filled sound).isSound, reference_traced.isSound⟩
  exact (sequence_traced soundParts).isSound

/-- Each match of a captured rule and a reference to it comes about so. -/
theorem echoes_of_yields (filled : key ≠ "") (sound : rule.IsSound world) {found : Match}
    (yields : (echoing key rule).Yields world situation (some found) after) :
    ∃ matched middle, Echoes world key rule situation found after matched middle := by
  rcases (takes_echoing_iff filled sound).mp (takes_some_iff.mpr ⟨found, yields, rfl⟩) with
    ⟨-, impossible⟩ | ⟨_, middle, takes, ⟨-, impossible, -⟩ | ⟨again, next, reads, same, some_eq, rfl⟩⟩
  · cases impossible
  · cases impossible
  · obtain ⟨matched, begins, rfl⟩ := takes_some_iff.mp takes
    refine ⟨matched, middle, begins, sound.settles begins, (echoing_sound filled sound).settles yields,
      ⟨again, reads, same, Option.some.inj some_eq⟩, ?_, Captures.find?_keep_self .., ?_⟩
    · intro nothing
      rw [nothing] at same
      rw [List.map_eq_nil_iff.mp same] at reads
      exact reads.eq_of_nil
    · intro other different
      exact Captures.find?_keep_other _ _ different

/-- A rule and its repetition match where the rule matches and the values of what it matched come next. -/
theorem matches_echoing_iff (filled : key ≠ "") (sound : rule.IsSound world) :
    (echoing key rule).Matches world situation ↔
      ∃ matched middle, rule.Yields world situation (some matched) middle ∧ middle.stream.Repeats matched.tokens := by
  constructor
  · intro holds
    obtain ⟨found, after, yields⟩ := holds
    obtain ⟨matched, middle, echoes⟩ := echoes_of_yields filled sound yields
    obtain ⟨again, reads, same, -⟩ := echoes.again
    exact ⟨matched, middle, echoes.yields, TokenStream.repeats_of_reads reads same⟩
  · intro holds
    obtain ⟨matched, middle, yields, repeats⟩ := holds
    obtain ⟨again, next, reads, same⟩ := repeats.exists_reads
    have begins : rule.Takes world situation (some matched.tokens) middle := takes_some_iff.mpr ⟨matched, yields, rfl⟩
    have takes := (takes_echoing_iff filled sound).mpr
      (.inr ⟨_, middle, begins, .inr ⟨again, next, reads, same, rfl, rfl⟩⟩)
    obtain ⟨found, yields, -⟩ := takes_some_iff.mp takes
    exact ⟨found, _, yields⟩

/-- A rule and its repetition fail where the rule fails or other values come next than those of what it matched. -/
theorem fails_echoing_iff (filled : key ≠ "") (sound : rule.IsSound world) :
    (echoing key rule).Fails world situation ↔
      rule.Fails world situation ∨
        ∃ matched middle, rule.Yields world situation (some matched) middle ∧
          ¬middle.stream.Repeats matched.tokens := by
  constructor
  · intro holds
    obtain ⟨after, yields⟩ := holds
    rcases (takes_echoing_iff filled sound).mp (takes_none_iff.mpr yields) with
      ⟨fails, -⟩ | ⟨_, middle, takes, ⟨differs, -, -⟩ | ⟨_, _, -, -, impossible, -⟩⟩
    · exact .inl ⟨after, takes_none_iff.mp fails⟩
    · obtain ⟨matched, yields, rfl⟩ := takes_some_iff.mp takes
      exact .inr ⟨matched, middle, yields, differs⟩
    · cases impossible
  · intro holds
    rcases holds with ⟨after, fails⟩ | ⟨matched, middle, yields, differs⟩
    · have takes := (takes_echoing_iff filled sound).mpr (.inl ⟨takes_none_iff.mpr fails, rfl⟩)
      exact ⟨after, takes_none_iff.mp takes⟩
    · have begins : rule.Takes world situation (some matched.tokens) middle := takes_some_iff.mpr ⟨matched, yields, rfl⟩
      have takes := (takes_echoing_iff filled sound).mpr (.inr ⟨_, middle, begins, .inl ⟨differs, rfl, rfl⟩⟩)
      exact ⟨_, takes_none_iff.mp takes⟩

/-- A rule that is captured and a reference to what it captured match exactly where the rule matches and the values of
what it matched come next. They take both, and what the rule matched is captured behind them, whatever the rule itself
captured on its way. -/
theorem echoing_matches_iff (filled : key ≠ "") (builtIn : rule.BuiltIn world) (situation : Situation) :
    ((echoing key rule).Matches world situation ↔
      ∃ matched middle, rule.Yields world situation (some matched) middle ∧ middle.stream.Repeats matched.tokens) ∧
    ((echoing key rule).Fails world situation ↔
      rule.Fails world situation ∨
        ∃ matched middle, rule.Yields world situation (some matched) middle ∧ ¬middle.stream.Repeats matched.tokens) ∧
    ∀ found after, (echoing key rule).Yields world situation (some found) after →
      ∃ matched middle, Echoes world key rule situation found after matched middle := by
  have sound : rule.IsSound world := builtIn.isSound
  exact ⟨matches_echoing_iff filled sound, fails_echoing_iff filled sound,
    fun _ _ yields => echoes_of_yields filled sound yields⟩

end Rule

namespace Brackets

/-- Four opening brackets with a comment in their midst, and nothing behind them. -/
def fourfold : Situation := ⟨.ofTokens [opening, opening, comment, opening, opening], {}⟩

end Brackets

namespace Rule

open Brackets in
/-- Two opening brackets come twice, though the rule for them captures the first one of them under the same key. -/
theorem echoing_doubled_matches :
    ("first" : Text) ≠ "" ∧ doubled.BuiltIn {} ∧ (echoing "first" doubled).Matches {} fourfold ∧
      ∃ found after matched middle, found.tokens.length = 4 ∧
        Echoes {} "first" doubled fourfold found after matched middle := by
  have filled : ("first" : Text) ≠ "" := by decide
  obtain ⟨-, -, accounts⟩ := echoing_matches_iff filled doubled_builtIn fourfold
  obtain ⟨found, after, yields, length_eq⟩ := exists_yields_of_count {} (echoing "first" doubled) 12 4 fourfold.stream
    (by decide +kernel)
  obtain ⟨matched, middle, echoes⟩ := accounts found after yields
  exact ⟨filled, doubled_builtIn, ⟨found, after, yields⟩, found, after, matched, middle, length_eq, echoes⟩

end Rule

end TokenGrammar
