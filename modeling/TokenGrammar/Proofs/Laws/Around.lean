import TokenGrammar.Proofs.Laws.Bodies

namespace TokenGrammar.Rule

open Run
open Attempt (Grows Gives gives_bind_const_iff gives_apart_iff)

variable {world : World} {rule : Rule} {situation after : Situation} {found : Match}

section Around

variable {answer : Option Match}

theorem optional_traced {negated : Bool} (inner : (rule.attempted negated).IsSound world) :
    (Rule.optional rule negated).Traced world where
  inside := nofun
  traces fuel _ := optional_traces (inner fuel)

/-- An optional rule passes on a match of what it tries and matches nothing at its place without one. -/
theorem yields_optional_iff {negated : Bool} (inner : (rule.attempted negated).IsSound world) :
    (Rule.optional rule negated).Yields world situation answer after ↔
      ((rule.attempted negated).Yields world situation none after ∧
        answer = some (.between situation.stream situation.stream [] (.optional rule negated))) ∨
      ∃ found, (rule.attempted negated).Yields world situation (some found) after ∧
        answer = some (.between situation.stream after.stream found.tokens (.optional rule negated)) := by
  rw [yields_iff (optional_traced inner)]
  constructor
  · intro holds
    obtain ⟨later, given, settles, memory_eq⟩ := holds
    obtain ⟨found, middle, tried, answers⟩ := (gives_bind_const_iff run_grows).mp given
    cases found with
    | none =>
      have stays : middle.stream = situation.stream := inner.settles tried
      simp only [Match.empty_ofNat, Attempt.ofResult_ok, pure_bind, Attempt.pure_apply] at answers
      cases answers
      have spans : Match.Spans _ situation.stream after.stream := settles
      have after_eq : after = later := Situation.ext (spans.reads.eq_of_nil.trans stays.symm) memory_eq
      exact .inl ⟨after_eq ▸ tried, rfl⟩
    | some found =>
      have spans : found.Spans situation.stream middle.stream := inner.settles tried
      simp only [spans.create_eq, Attempt.ofResult_ok, pure_bind, Attempt.pure_apply] at answers
      cases answers
      have arrives : Match.Spans _ situation.stream after.stream := settles
      have after_eq : after = later := Situation.ext (arrives.reads.unique spans.reads) memory_eq
      exact .inr ⟨found, after_eq ▸ tried, by rw [after_eq]⟩
  · intro given
    rcases given with ⟨tried, rfl⟩ | ⟨found, tried, rfl⟩
    · have stays : after.stream = situation.stream := inner.settles tried
      refine ⟨after, (gives_bind_const_iff run_grows).mpr ⟨none, after, tried, ?_⟩, ?_, rfl⟩
      · simp only [Match.empty_ofNat, Attempt.ofResult_ok, pure_bind, Attempt.pure_apply]
      · rw [Settles, stays]
        exact Match.spans_between (.nil _) _
    · have spans : found.Spans situation.stream after.stream := inner.settles tried
      refine ⟨after, (gives_bind_const_iff run_grows).mpr ⟨some found, after, tried, ?_⟩, ?_, rfl⟩
      · simp only [spans.create_eq, Attempt.ofResult_ok, pure_bind, Attempt.pure_apply]
      · exact Match.spans_between spans.reads _

/-- A rule that stands for another one passes its match on. -/
theorem yields_iff_of_delegate {target : Rule} (builtIn : rule.BuiltIn world) (inner : target.BuiltIn world)
    (delegates : rule.bodyRun world = fun fuel => delegate (target.run world fuel) rule) :
    rule.Yields world situation answer after ↔
      ∃ found, target.Yields world situation found after ∧
        answer = found.map fun found => .between situation.stream after.stream found.tokens rule := by
  have runs (fuel : Nat) : rule.run world (fuel + 1) situation = .ok answer after ↔
      ∃ found, target.run world fuel situation = .ok found after ∧
        answer = found.map fun found => .between situation.stream after.stream found.tokens rule := by
    rw [builtIn.traced.run_succ, delegates]
    exact Sound.settle_delegate_eq_ok_iff (run_sound inner fuel)
  calc
    rule.Yields world situation answer after
      ↔ Gives (fun fuel => rule.run world (fuel + 1)) situation answer after := run_grows.gives_succ_iff.symm
    _ ↔ ∃ fuel found, target.run world fuel situation = .ok found after ∧ answer = found.map _ := exists_congr runs
    _ ↔ ∃ found, target.Yields world situation found after ∧ answer = found.map _ := by
      rw [exists_comm]
      exact exists_congr fun _ => exists_and_right

theorem succeeds_grows (view : TokenStream → TokenStream) (rule : Rule) :
    Grows fun fuel => succeeds view (rule.run world fuel) := (run_grows.apart view).bind fun _ => Grows.const _

/-- A rule succeeds on another view of the stream when it yields a match there; the stream stays. -/
theorem gives_succeeds_iff {view : TokenStream → TokenStream} {matched : Bool} :
    Gives (fun fuel => succeeds view (rule.run world fuel)) situation matched after ↔
      ∃ inner middle, rule.Yields world { situation with stream := view situation.stream } inner middle ∧
        matched = inner.isSome ∧ after = { middle with stream := situation.stream } := by
  refine (gives_bind_const_iff (run_grows.apart view)).trans ?_
  constructor
  · intro given
    obtain ⟨inner, later, apart, answers⟩ := given
    obtain ⟨middle, yields, rfl⟩ := gives_apart_iff.mp apart
    cases answers
    exact ⟨inner, middle, yields, rfl, rfl⟩
  · intro given
    obtain ⟨inner, middle, yields, rfl, rfl⟩ := given
    exact ⟨inner, _, gives_apart_iff.mpr ⟨middle, yields, rfl⟩, rfl⟩

/-- An assertion answers a match of nothing where its condition holds. -/
theorem hereIf_apply (condition : Bool) (rule : Rule) :
    hereIf condition rule situation =
      .ok (if condition then some (.between situation.stream situation.stream [] rule) else none) situation := by
  cases condition with
  | false => rfl
  | true => exact here_apply

theorem settles_hereIf {condition : Bool} (stays : after.stream = situation.stream)
    (asserted : answer = if condition then some (.between situation.stream situation.stream [] rule) else none) :
    Settles situation.stream answer after := by
  subst asserted
  cases condition with
  | false => exact stays
  | true =>
    rw [if_pos rfl, Settles, stays]
    exact Match.spans_between (.nil _) rule

/-- An assertion that settles leaves the stream where it is. -/
theorem stays_of_settles {condition : Bool}
    (settles : Settles situation.stream
      (if condition then some (.between situation.stream situation.stream [] rule) else none) after) :
    after.stream = situation.stream := by
  cases condition with
  | false => exact settles
  | true =>
    have spans : Match.Spans _ situation.stream after.stream := settles
    exact spans.reads.eq_of_nil

/-- A rule that asserts whether another one matches on a view of the stream matches nothing and stays. -/
theorem yields_iff_of_asserts {asserting : Rule} {view : TokenStream → TokenStream} {condition : Bool → Bool}
    (traced : asserting.Traced world)
    (asserts : ∀ fuel, asserting.bodyRun world fuel situation =
      (succeeds view (rule.run world fuel) >>= fun matched => hereIf (condition matched) asserting) situation) :
    asserting.Yields world situation answer after ↔
      ∃ inner middle, rule.Yields world { situation with stream := view situation.stream } inner middle ∧
        after = { middle with stream := situation.stream } ∧
        answer = if condition inner.isSome then some (.between situation.stream situation.stream [] asserting)
          else none := by
  have body_iff {answer : Option Match} {after : Situation} :
      Gives (asserting.bodyRun world) situation answer after ↔
        Gives (fun fuel => succeeds view (rule.run world fuel) >>= fun matched => hereIf (condition matched) asserting)
          situation answer after :=
    exists_congr fun fuel => by rw [asserts]
  rw [yields_iff traced]
  constructor
  · intro holds
    obtain ⟨later, given, settles, memory_eq⟩ := holds
    obtain ⟨matched, middle, succeeded, answers⟩ :=
      (gives_bind_const_iff (succeeds_grows _ _)).mp (body_iff.mp given)
    obtain ⟨inner, middle, yields, rfl, rfl⟩ := gives_succeeds_iff.mp succeeded
    rw [hereIf_apply] at answers
    cases answers
    exact ⟨inner, middle, yields, Situation.ext (stays_of_settles settles) memory_eq, rfl⟩
  · intro given
    obtain ⟨inner, middle, yields, rfl, rfl⟩ := given
    refine ⟨{ middle with stream := situation.stream }, body_iff.mpr ?_, settles_hereIf rfl rfl, rfl⟩
    have succeeded := gives_succeeds_iff.mpr ⟨inner, middle, yields, rfl, rfl⟩
    exact (gives_bind_const_iff (succeeds_grows _ _)).mpr ⟨inner.isSome, _, succeeded, hereIf_apply ..⟩

theorem lookaround_traced {direction : Direction} {negative : Bool} (sound : rule.IsSound world) :
    (Rule.lookaround direction rule negative).Traced world where
  inside := nofun
  traces fuel _ := (sound fuel).asserts_traces

/-- A lookaround asserts that its rule matches, or does not, in its direction. -/
theorem yields_lookaround_iff {direction : Direction} {negative : Bool} (sound : rule.IsSound world) :
    (Rule.lookaround direction rule negative).Yields world situation answer after ↔
      ∃ inner middle, rule.Yields world { situation with stream := viewOf direction situation.stream } inner middle ∧
        after = { middle with stream := situation.stream } ∧
        answer = if inner.isSome != negative then
          some (.between situation.stream situation.stream [] (.lookaround direction rule negative)) else none :=
  yields_iff_of_asserts (lookaround_traced sound) fun _ => rfl

/-- A rule of this form needs a visible token ahead. -/
theorem yields_not_iff (builtIn : (Rule.not rule).BuiltIn world) (more : situation.stream.hasMore = true) :
    (Rule.not rule).Yields world situation answer after ↔
      ∃ inner middle, rule.Yields world situation inner middle ∧
        after = { middle with stream := situation.stream } ∧
        answer = if !inner.isSome then some (.between situation.stream situation.stream [] (.not rule)) else none := by
  have asserts (fuel : Nat) : (Rule.not rule).bodyRun world fuel situation =
      (succeeds id (rule.run world fuel) >>= fun matched => hereIf (!matched) (.not rule)) situation := by
    rw [bodyRun, body, Attempt.stream_bind_apply, if_pos more]
  exact yields_iff_of_asserts builtIn.traced asserts

/-- Takes the token ahead as a whole if its members match. -/
def takeWhole (start : Nat) (token : Token) (rule : Rule) (matched : Bool) : Run :=
  if matched then do
    Attempt.goTo (← Attempt.ofResult ((← Attempt.stream).advance 1))
    since start [token] rule
  else noMatch

theorem takeWhole_apply {token : Token} {next : TokenStream} (read : situation.stream.read? = some (token, next)) :
    takeWhole situation.stream.index token rule true situation =
      .ok (some (.between situation.stream next [token] rule)) { situation with stream := next } := by
  have advanced := TokenStream.advance_one_eq_ok_iff.mpr ⟨token, read⟩
  simp only [takeWhole, if_true, Attempt.stream_bind_apply, advanced, Attempt.ofResult_ok, pure_bind,
    Attempt.goTo_bind_apply]
  exact since_apply (.single read)

/-- A group rule runs on the members of the token ahead and takes the token as a whole. -/
theorem yields_group_iff {token : Token} {next : TokenStream} {members : List Token}
    (builtIn : (Rule.group rule).BuiltIn world) (read : situation.stream.read? = some (token, next))
    (grouped : token.unwrap.members? = some members) :
    (Rule.group rule).Yields world situation answer after ↔
      ∃ inner middle, rule.Yields world { situation with stream := .ofTokens members } inner middle ∧
        ((inner = none ∧ answer = none ∧ after = { middle with stream := situation.stream }) ∨
          (inner.isSome = true ∧ answer = some (.between situation.stream next [token] (.group rule)) ∧
            after = { middle with stream := next })) := by
  have current : situation.stream.current? = some token := by rw [TokenStream.current?_eq, read, Option.map_some]
  have body_eq (fuel : Nat) : (Rule.group rule).bodyRun world fuel situation =
      (succeeds (fun _ => .ofTokens members) (rule.run world fuel) >>=
        takeWhole situation.stream.index token (.group rule)) situation := by
    simp only [bodyRun, body, insideGroup, Attempt.stream_bind_apply, current, grouped]
    rfl
  have body_iff {answer : Option Match} {after : Situation} :
      Gives ((Rule.group rule).bodyRun world) situation answer after ↔
        Gives (fun fuel => succeeds (fun _ => .ofTokens members) (rule.run world fuel) >>=
          takeWhole situation.stream.index token (.group rule)) situation answer after :=
    exists_congr fun fuel => by rw [body_eq]
  have takes (middle : Situation) : takeWhole situation.stream.index token (.group rule) true
      { middle with stream := situation.stream } =
        .ok (some (.between situation.stream next [token] (.group rule))) { middle with stream := next } := by
    have there : ({ middle with stream := situation.stream } : Situation).stream.read? = some (token, next) := read
    exact takeWhole_apply there
  rw [yields_iff builtIn.traced]
  constructor
  · intro holds
    obtain ⟨later, given, settles, memory_eq⟩ := holds
    obtain ⟨matched, middle, succeeded, answers⟩ :=
      (gives_bind_const_iff (succeeds_grows _ _)).mp (body_iff.mp given)
    obtain ⟨inner, middle, yields, rfl, rfl⟩ := gives_succeeds_iff.mp succeeded
    refine ⟨inner, middle, yields, ?_⟩
    cases inner with
    | none =>
      cases answers
      exact .inl ⟨rfl, rfl, Situation.ext settles memory_eq⟩
    | some found =>
      rw [Option.isSome_some, takes] at answers
      cases answers
      have spans : Match.Spans _ situation.stream after.stream := settles
      exact .inr ⟨rfl, rfl, Situation.ext (spans.reads.unique (.single read)) memory_eq⟩
  · intro given
    obtain ⟨inner, middle, yields, ⟨rfl, rfl, rfl⟩ | ⟨matched, rfl, rfl⟩⟩ := given
    · refine ⟨{ middle with stream := situation.stream }, body_iff.mpr ?_, rfl, rfl⟩
      have fails : Gives (fun fuel => succeeds (fun _ => .ofTokens members) (rule.run world fuel)) situation false
          { middle with stream := situation.stream } := gives_succeeds_iff.mpr ⟨none, middle, yields, rfl, rfl⟩
      exact (gives_bind_const_iff (succeeds_grows _ _)).mpr ⟨false, _, fails, rfl⟩
    · refine ⟨{ middle with stream := next }, body_iff.mpr ?_, Match.spans_between (.single read) _, rfl⟩
      have succeeded : Gives (fun fuel => succeeds (fun _ => .ofTokens members) (rule.run world fuel)) situation true
          { middle with stream := situation.stream } :=
        gives_succeeds_iff.mpr ⟨inner, middle, yields, matched.symm, rfl⟩
      exact (gives_bind_const_iff (succeeds_grows _ _)).mpr ⟨true, _, succeeded, takes middle⟩

end Around

end TokenGrammar.Rule
