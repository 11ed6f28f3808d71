import TokenGrammar.Proofs.Algebra.Going
import TokenGrammar.Proofs.ExcludedMiddle
import TokenGrammar.Proofs.Laws.Boundaries

namespace TokenGrammar

def Range.unbounded : Range := ⟨0, none, nofun⟩

theorem Range.unbounded_after (count : Nat) : Range.unbounded.after count = .unbounded := by
  simp [Range.after, Range.unbounded]

namespace Rule

open Run
open Attempt (Grows Gives)

variable {world : World} {opening body closing self : Rule} {captures : Captures} {place next : TokenStream}
  {result : Option TokenStream} {situation after : Situation} {taken : Option (List Token)}
  {test : TokenTest}

/-- A body where the closing rule does not match. -/
def guarded (body closing : Rule) : Rule := sequence [lookaround .ahead closing true, body]

/-- A body as often as the closing rule does not match before it, then the closing rule. -/
def upToClosing (body closing : Rule) : Rule := sequence [repeated (guarded body closing) .unbounded false, closing]

/-- The opening rule, then the body as often as the closing rule does not match before it, then the closing rule. -/
def delimited (opening body closing : Rule) : Rule :=
  sequence [opening, repeated (guarded body closing) .unbounded false, closing]

/-- Up to its closing rule a body goes from a place to the place behind that rule, or to none where it comes to an end
before. -/
inductive Delimits (world : World) (body closing : Rule) (captures : Captures) :
    TokenStream → Option TokenStream → Prop
  | closed {place next : TokenStream} (closes : closing.GoesTo world captures place (some next)) :
      Delimits world body closing captures place (some next)
  | ended {place : TokenStream} (unclosed : closing.GoesTo world captures place none) (ends : place.hasMore = false) :
      Delimits world body closing captures place none
  | stuck {place : TokenStream} (unclosed : closing.GoesTo world captures place none)
      (stays : body.GoesTo world captures place none ∨ body.GoesTo world captures place (some place)) :
      Delimits world body closing captures place none
  | next {place next : TokenStream} {result : Option TokenStream} (unclosed : closing.GoesTo world captures place none)
      (takes : body.GoesTo world captures place (some next)) (moves : place.index < next.index)
      (rest : Delimits world body closing captures next result) : Delimits world body closing captures place result

/-- A step of a body cannot go on where the body fails or stays. -/
theorem exists_gives_bodyStep_none (steadyBody : body.IsSteady world)
    (stays : body.GoesTo world captures place none ∨ body.GoesTo world captures place (some place))
    (notices : List Notice) :
    ∃ after, Gives (fun fuel => bodyStep (body.run world fuel)) ⟨place, captures, notices⟩ none after := by
  rcases stays with failsBody | staysBody
  · obtain ⟨later, yields⟩ := steadyBody.goesTo_none_iff.mp failsBody notices
    exact ⟨_, gives_bodyStep_none_iff.mpr (.inl yields)⟩
  · obtain ⟨found, later, yields⟩ := steadyBody.goesTo_some_iff.mp staysBody notices
    have spans : found.Spans place place := steadyBody.sound.settles yields
    exact ⟨_, gives_bodyStep_none_iff.mpr (.inr ⟨found, yields, spans.isZeroWidth_iff.mpr rfl⟩)⟩

section Steady

variable (steadyBody : body.IsSteady world) (steadyClosing : closing.IsSteady world)
include steadyBody steadyClosing

section Loop

variable {step : Nat → Attempt (Option (List Token))} (grows : Grows step)
  (like : ∀ {situation taken after}, situation.stream.hasMore = true → (Gives step situation taken after ↔
    Gives (fun fuel => bodyStep (body.run world fuel)) situation taken after))
include grows like

/-- The loop of a boundary delimits. -/
theorem delimits_of_gives {notices : List Notice}
    (given : Gives (fun fuel => untilClosed (closing.run world fuel) (step fuel) fuel) ⟨place, captures, notices⟩ taken
      after) :
    Delimits world body closing captures place (taken.map fun _ => after.stream) := by
  induction place using steadyBody.onward captures generalizing notices taken with
  | step place ih =>
    rcases (gives_untilClosed_iff grows).mp given with ⟨found, closes, rfl⟩ | ⟨⟨stream, kept, notices'⟩, fails, goesOn⟩
    · exact .closed closes.goesTo
    · obtain rfl : stream = place := steadyClosing.sound.settles fails
      obtain rfl : kept = captures := steadyClosing.captures_eq fails
      rcases goesOn with
        ⟨ended, rfl, rfl⟩ | ⟨more, ⟨stuck, rfl⟩ | ⟨first, ⟨next, later, notices''⟩, rest, steps, remaining, rfl⟩⟩
      · exact .ended fails.goesTo ended
      · rcases gives_bodyStep_none_iff.mp ((like more).mp stuck) with failsBody | ⟨found, takes, zeroWidth⟩
        · exact .stuck fails.goesTo (.inl failsBody.goesTo)
        · have spans : found.Spans stream after.stream := steadyBody.sound.settles takes
          have goes := takes.goesTo
          rw [spans.isZeroWidth_iff.mp zeroWidth] at goes
          exact .stuck fails.goesTo (.inr goes)
      · obtain ⟨found, takes, filled, rfl⟩ := gives_bodyStep_some_iff.mp ((like more).mp steps)
        obtain rfl : later = kept := steadyBody.captures_eq takes
        have spans : found.Spans stream next := steadyBody.sound.settles takes
        have moves := spans.isZeroWidth_eq_false_iff.mp filled
        have delimits := ih next takes.goesTo moves remaining
        refine .next fails.goesTo takes.goesTo moves ?_
        cases rest <;> exact delimits

/-- Where a body delimits, the loop of a boundary comes to an answer. -/
theorem exists_gives_of_delimits (delimits : Delimits world body closing captures place result)
    (notices : List Notice) :
    ∃ taken after, Gives (fun fuel => untilClosed (closing.run world fuel) (step fuel) fuel)
      ⟨place, captures, notices⟩ taken after ∧ result = taken.map fun _ => after.stream := by
  induction delimits generalizing notices with
  | closed closes =>
    obtain ⟨found, notices', yields⟩ := steadyClosing.goesTo_some_iff.mp closes notices
    exact ⟨_, _, (gives_untilClosed_iff grows).mpr (.inl ⟨found, yields, rfl⟩), rfl⟩
  | ended unclosed ends =>
    obtain ⟨notices', fails⟩ := steadyClosing.goesTo_none_iff.mp unclosed notices
    exact ⟨none, _, (gives_untilClosed_iff grows).mpr (.inr ⟨_, fails, .inl ⟨ends, rfl, rfl⟩⟩), rfl⟩
  | @stuck place unclosed stays =>
    obtain ⟨notices', fails⟩ := steadyClosing.goesTo_none_iff.mp unclosed notices
    cases more : place.hasMore with
    | false => exact ⟨none, _, (gives_untilClosed_iff grows).mpr (.inr ⟨_, fails, .inl ⟨more, rfl, rfl⟩⟩), rfl⟩
    | true =>
      obtain ⟨after, steps⟩ := exists_gives_bodyStep_none steadyBody stays notices'
      refine ⟨none, after, (gives_untilClosed_iff grows).mpr (.inr ⟨_, fails, .inr ⟨more, .inl ⟨?_, rfl⟩⟩⟩), rfl⟩
      exact (like more).mpr steps
  | @next place next result unclosed takes moves rest ih =>
    obtain ⟨notices', fails⟩ := steadyClosing.goesTo_none_iff.mp unclosed notices
    obtain ⟨found, later, yields⟩ := steadyBody.goesTo_some_iff.mp takes notices'
    have spans : found.Spans place next := steadyBody.sound.settles yields
    have more : place.hasMore = true := steadyBody.hasMore_of_moves takes moves
    obtain ⟨taken, after, remaining, rfl⟩ := ih later
    have steps := (like more).mpr
      (gives_bodyStep_some_iff.mpr ⟨found, yields, spans.isZeroWidth_eq_false_iff.mpr moves, rfl⟩)
    refine ⟨taken.map (found.tokens ++ ·), after, (gives_untilClosed_iff grows).mpr
      (.inr ⟨_, fails, .inr ⟨more, .inr ⟨_, _, taken, steps, remaining, rfl⟩⟩⟩), ?_⟩
    cases taken <;> rfl

end Loop

theorem guarded_steady : (guarded body closing).IsSteady world :=
  .sequence (steady_pair steadyClosing.lookaround steadyBody)

theorem goesTo_guarded_iff :
    (guarded body closing).GoesTo world captures place result ↔
      (∃ next, closing.GoesTo world captures place (some next) ∧ result = none) ∨
        (closing.GoesTo world captures place none ∧ body.GoesTo world captures place result) := by
  rw [guarded, goesTo_sequence_pair_iff steadyClosing.lookaround steadyBody]
  simp only [goesTo_lookaround_iff steadyClosing]
  constructor
  · intro goes
    rcases goes with ⟨⟨looked, closes, none_eq⟩, rfl⟩ | ⟨next, ⟨looked, closes, some_eq⟩, takes⟩
    · cases looked with
      | none => cases none_eq
      | some next => exact .inl ⟨next, closes, rfl⟩
    · cases looked with
      | none =>
        cases some_eq
        exact .inr ⟨closes, takes⟩
      | some next => cases some_eq
  · intro goes
    rcases goes with ⟨next, closes, rfl⟩ | ⟨unclosed, takes⟩
    · exact .inl ⟨⟨some next, closes, rfl⟩, rfl⟩
    · exact .inr ⟨place, ⟨none, unclosed, rfl⟩, takes⟩

/-- The expression ends where the closing rule matches or where the body cannot go on before it, and goes on behind a
body that can. -/
theorem goesTo_upToClosing_iff :
    (upToClosing body closing).GoesTo world captures place result ↔
      (∃ next, closing.GoesTo world captures place (some next) ∧ result = some next) ∨
      (closing.GoesTo world captures place none ∧
        (((body.GoesTo world captures place none ∨ body.GoesTo world captures place (some place)) ∧ result = none) ∨
          ∃ next, body.GoesTo world captures place (some next) ∧ place.index < next.index ∧
            (upToClosing body closing).GoesTo world captures next result)) := by
  have steadyGuarded := guarded_steady steadyBody steadyClosing
  have sequence_iff {place : TokenStream} :
      (upToClosing body closing).GoesTo world captures place result ↔
        ∃ finish, (repeated (guarded body closing) .unbounded false).GoesTo world captures place (some finish) ∧
          closing.GoesTo world captures finish result := by
    rw [upToClosing, goesTo_sequence_pair_iff steadyGuarded.repeated steadyClosing]
    exact or_iff_right fun fails => not_goesTo_none_of_least_eq_zero steadyGuarded rfl fails.1
  have repeated_iff {finish : TokenStream} :=
    @goesTo_repeated_iff world (guarded body closing) captures place (some finish) .unbounded steadyGuarded nofun
  rw [sequence_iff]
  simp only [repeated_iff, goesTo_guarded_iff steadyBody steadyClosing, Range.unbounded_after, sequence_iff]
  constructor
  · intro goes
    obtain ⟨finish, ends, closes⟩ := goes
    rcases ends with ⟨⟨next, closed, -⟩ | ⟨unclosed, failsBody⟩, finish_eq⟩ |
      ⟨⟨_, -, none_eq⟩ | ⟨unclosed, staysBody⟩, finish_eq⟩ |
      ⟨next, ⟨_, -, none_eq⟩ | ⟨unclosed, takes⟩, moves, repeats⟩
    · obtain rfl : finish = place := Option.some.inj finish_eq
      exact .inl ⟨next, closed, closes.unique closed⟩
    · obtain rfl : finish = place := Option.some.inj finish_eq
      exact .inr ⟨unclosed, .inl ⟨.inl failsBody, closes.unique unclosed⟩⟩
    · cases none_eq
    · obtain rfl : finish = place := Option.some.inj finish_eq
      exact .inr ⟨unclosed, .inl ⟨.inr staysBody, closes.unique unclosed⟩⟩
    · cases none_eq
    · exact .inr ⟨unclosed, .inr ⟨next, takes, moves, finish, repeats, closes⟩⟩
  · intro goes
    rcases goes with ⟨next, closes, rfl⟩ | ⟨unclosed, ⟨failsBody | staysBody, rfl⟩ | ⟨next, takes, moves, goesOn⟩⟩
    · exact ⟨place, .inl ⟨.inl ⟨next, closes, trivial⟩, rfl⟩, closes⟩
    · exact ⟨place, .inl ⟨.inr ⟨unclosed, failsBody⟩, rfl⟩, unclosed⟩
    · exact ⟨place, .inr (.inl ⟨.inr ⟨unclosed, staysBody⟩, rfl⟩), unclosed⟩
    · obtain ⟨finish, repeats, closes⟩ := goesOn
      exact ⟨finish, .inr (.inr ⟨next, .inr ⟨unclosed, takes⟩, moves, repeats⟩), closes⟩

/-- What the expression goes through behind the opening rule delimits. -/
theorem delimits_of_goesTo (goes : (upToClosing body closing).GoesTo world captures place result) :
    Delimits world body closing captures place result := by
  induction place using steadyBody.onward captures with
  | step place ih =>
    rcases (goesTo_upToClosing_iff steadyBody steadyClosing).mp goes with
      ⟨next, closes, rfl⟩ | ⟨unclosed, ⟨stays, rfl⟩ | ⟨next, takes, moves, goesOn⟩⟩
    · exact .closed closes
    · exact .stuck unclosed stays
    · exact .next unclosed takes moves (ih next takes moves goesOn)

/-- What delimits the expression goes through, if the body comes to an answer where the input has ended: the expression
tries it there, and the boundary does not. -/
theorem goesTo_of_delimits
    (bodyGoes : ∀ other : TokenStream, other.tokens = place.tokens → other.hasMore = false →
      ∃ result, body.GoesTo world captures other result)
    (delimits : Delimits world body closing captures place result) :
    (upToClosing body closing).GoesTo world captures place result := by
  induction delimits with
  | closed closes => exact (goesTo_upToClosing_iff steadyBody steadyClosing).mpr (.inl ⟨_, closes, rfl⟩)
  | @ended place unclosed ends =>
    obtain ⟨taken, takes⟩ := bodyGoes place rfl ends
    have stays : body.GoesTo world captures place none ∨ body.GoesTo world captures place (some place) := by
      cases taken with
      | none => exact .inl takes
      | some next =>
        rcases steadyBody.stays_or_moves takes with rfl | moves
        · exact .inr takes
        · rw [steadyBody.hasMore_of_moves takes moves] at ends
          cases ends
    exact (goesTo_upToClosing_iff steadyBody steadyClosing).mpr (.inr ⟨unclosed, .inl ⟨stays, rfl⟩⟩)
  | stuck unclosed stays =>
    exact (goesTo_upToClosing_iff steadyBody steadyClosing).mpr (.inr ⟨unclosed, .inl ⟨stays, rfl⟩⟩)
  | next unclosed takes moves rest ih =>
    have tokens_eq := steadyBody.tokens_eq takes
    have goesOn := ih fun other same => bodyGoes other (same.trans tokens_eq)
    exact (goesTo_upToClosing_iff steadyBody steadyClosing).mpr (.inr ⟨unclosed, .inr ⟨_, takes, moves, goesOn⟩⟩)

end Steady

/-- A body delimits where it and the closing rule go somewhere from every place of the stream. -/
theorem exists_delimits (steadyBody : body.IsSteady world)
    (bodyGoes : ∀ other : TokenStream, other.tokens = place.tokens → ∃ result, body.GoesTo world captures other result)
    (closingGoes : ∀ other : TokenStream, other.tokens = place.tokens →
      ∃ result, closing.GoesTo world captures other result) :
    ∃ result, Delimits world body closing captures place result := by
  induction place using steadyBody.onward captures with
  | step place ih =>
    obtain ⟨closed, closes⟩ := closingGoes place rfl
    cases closed with
    | some next => exact ⟨some next, .closed closes⟩
    | none =>
      obtain ⟨taken, takes⟩ := bodyGoes place rfl
      cases taken with
      | none => exact ⟨none, .stuck closes (.inl takes)⟩
      | some next =>
        rcases steadyBody.stays_or_moves takes with rfl | moves
        · exact ⟨none, .stuck closes (.inr takes)⟩
        · have tokens_eq := steadyBody.tokens_eq takes
          obtain ⟨result, delimits⟩ := ih next takes moves
            (fun other same => bodyGoes other (same.trans tokens_eq))
            (fun other same => closingGoes other (same.trans tokens_eq))
          exact ⟨result, .next closes takes moves delimits⟩

theorem matcher_steady {negated : Bool} : (Rule.matcher test negated).IsSteady world where
  sound := Traced.isSound ⟨nofun, fun _ _ => ofTest_traces⟩
  capturesNothing := capturesNothing_of_children rfl trivial fun _ child => by cases test <;> cases child

theorem matcher_terminates {negated : Bool} : (Rule.matcher test negated).Terminates world situation :=
  matcher_steady.sound.terminates_iff.mpr (exists_matcher_yields world test negated situation)

/-- A step without a body is a step of a body that takes any token. -/
theorem gives_tokenStep_iff_bodyStep (acceptsAll : ∀ token, test.accepts token = true)
    (more : situation.stream.hasMore = true) :
    Gives (fun _ => tokenStep) situation taken after ↔
      Gives (fun fuel => bodyStep ((Rule.matcher test false).run world fuel)) situation taken after := by
  obtain ⟨token, next, read⟩ := TokenStream.exists_read_of_hasMore more
  have reads : situation.stream.Reads [token] next := .single read
  have spans := Match.spans_between reads (.matcher test false)
  have answers : (Rule.matcher test false).bodyRun world 0 situation =
      .ok (if test.accepts token != false then some (.between situation.stream next [token] (.matcher test false))
        else none) ⟨next, situation.memory⟩ := ofTest_of_read read
  rw [if_pos (by simp [acceptsAll])] at answers
  have yields : (Rule.matcher test false).Yields world situation _ _ := ⟨1, settle_some answers spans⟩
  have steps : Gives (fun fuel => bodyStep ((Rule.matcher test false).run world fuel)) situation (some [token])
      { situation with stream := next } :=
    gives_bodyStep_some_iff.mpr ⟨_, yields, spans.isZeroWidth_eq_false_iff.mpr reads.index_lt, rfl⟩
  rw [gives_tokenStep_iff read]
  constructor
  · intro same
    obtain ⟨rfl, rfl⟩ := same
    exact steps
  · intro given
    exact (bodyStep_grows _).unique given steps

/-- Behind its opening rule a boundary delimits. -/
theorem goesTo_bounded_iff {step : Nat → Attempt (Option (List Token))} (steadyOpening : opening.IsSteady world)
    (steadyBody : body.IsSteady world) (steadyClosing : closing.IsSteady world) (grows : Grows step)
    (collects : ∀ fuel situation, situation.stream.hasMore = true →
      Meets (step fuel situation) (Collects situation.stream))
    (like : ∀ {situation taken after}, situation.stream.hasMore = true → (Gives step situation taken after ↔
      Gives (fun fuel => bodyStep (body.run world fuel)) situation taken after))
    (traced : self.Traced world) (runs : self.bodyRun world = fun fuel =>
      bounded (opening.run world fuel) (closing.run world fuel) (step fuel) fuel self) :
    self.GoesTo world captures place result ↔
      (opening.GoesTo world captures place none ∧ result = none) ∨
        ∃ next, opening.GoesTo world captures place (some next) ∧ Delimits world body closing captures next result := by
  have ends_iff {situation : Situation} :=
    @ends_bounded_iff world opening closing self situation step steadyOpening.sound steadyClosing.sound collects grows
      result traced runs
  constructor
  · intro goes
    obtain ⟨notices, ends⟩ := goes
    rcases ends_iff.mp ends with ⟨after, fails, rfl⟩ | ⟨found, middle, begins, taken, after, loops, rfl⟩
    · exact .inl ⟨fails.goesTo, rfl⟩
    · have delimits := delimits_of_gives steadyBody steadyClosing grows like loops
      rw [steadyOpening.captures_eq begins] at delimits
      exact .inr ⟨middle.stream, begins.goesTo, delimits⟩
  · intro goes
    rcases goes with ⟨fails, rfl⟩ | ⟨next, begins, delimits⟩
    · obtain ⟨notices, yields⟩ := steadyOpening.goesTo_none_iff.mp fails []
      exact ⟨[], ends_iff.mpr (.inl ⟨_, yields, rfl⟩)⟩
    · obtain ⟨found, notices, yields⟩ := steadyOpening.goesTo_some_iff.mp begins []
      obtain ⟨taken, after, loops, rfl⟩ := exists_gives_of_delimits steadyBody steadyClosing grows like delimits notices
      exact ⟨[], ends_iff.mpr (.inr ⟨found, _, yields, taken, after, loops, rfl⟩)⟩

section Boundaries

variable (steadyOpening : opening.IsSteady world) (steadyClosing : closing.IsSteady world)
include steadyOpening steadyClosing

theorem IsSteady.filledBoundary (steadyBody : body.IsSteady world) :
    (Rule.filledBoundary opening body closing).IsSteady world where
  sound := (filledBoundary_traced steadyOpening.sound steadyBody.sound steadyClosing.sound).isSound
  capturesNothing := capturesNothing_of_children rfl trivial fun part child => by
    simp only [children_filledBoundary, List.mem_cons, List.not_mem_nil, or_false] at child
    rcases child with rfl | rfl | rfl
    exacts [steadyOpening.capturesNothing, steadyBody.capturesNothing, steadyClosing.capturesNothing]

theorem goesTo_filledBoundary_iff (steadyBody : body.IsSteady world) :
    (filledBoundary opening body closing).GoesTo world captures place result ↔
      (opening.GoesTo world captures place none ∧ result = none) ∨
        ∃ next, opening.GoesTo world captures place (some next) ∧ Delimits world body closing captures next result :=
  goesTo_bounded_iff steadyOpening steadyBody steadyClosing (bodyStep_grows body)
    (fun fuel _ _ => (steadyBody.sound fuel).bodyStep_collects) (fun _ => Iff.rfl)
    (filledBoundary_traced steadyOpening.sound steadyBody.sound steadyClosing.sound) rfl

theorem IsSteady.boundary : (Rule.boundary opening closing).IsSteady world where
  sound := (boundary_traced steadyOpening.sound steadyClosing.sound).isSound
  capturesNothing := capturesNothing_of_children rfl trivial fun part child => by
    simp only [children_boundary, List.mem_cons, List.not_mem_nil, or_false] at child
    rcases child with rfl | rfl | rfl
    exacts [steadyOpening.capturesNothing, always_steady.capturesNothing, steadyClosing.capturesNothing]

/-- The steps of a boundary without a body are those of a body that takes any token. -/
theorem goesTo_boundary_iff (acceptsAll : ∀ token, test.accepts token = true) :
    (boundary opening closing).GoesTo world captures place result ↔
      (opening.GoesTo world captures place none ∧ result = none) ∨
        ∃ next, opening.GoesTo world captures place (some next) ∧
          Delimits world (.matcher test false) closing captures next result :=
  goesTo_bounded_iff steadyOpening matcher_steady steadyClosing (Grows.const _) (fun _ _ => tokenStep_collects)
    (gives_tokenStep_iff_bodyStep acceptsAll) (boundary_traced steadyOpening.sound steadyClosing.sound) rfl

/-- The rules of the expression are steady. -/
theorem delimited_steady_members (steadyBody : body.IsSteady world) :
    ∀ member ∈ [opening, repeated (guarded body closing) .unbounded false, closing], member.IsSteady world := by
  simpa using ⟨steadyOpening, (guarded_steady steadyBody steadyClosing).repeated, steadyClosing⟩

theorem IsSteady.delimited (steadyBody : body.IsSteady world) :
    (Rule.delimited opening body closing).IsSteady world :=
  .sequence (delimited_steady_members steadyOpening steadyClosing steadyBody)

theorem goesTo_delimited_iff (steadyBody : body.IsSteady world) :
    (delimited opening body closing).GoesTo world captures place result ↔
      (opening.GoesTo world captures place none ∧ result = none) ∨
        ∃ next, opening.GoesTo world captures place (some next) ∧
          (upToClosing body closing).GoesTo world captures next result :=
  goesTo_sequence_cons_iff (delimited_steady_members steadyOpening steadyClosing steadyBody)

/-- Wherever the expression goes, what the boundary does behind its opening rule leads there as well. -/
theorem goesTo_filledBoundary_of_delimited (steadyBody : body.IsSteady world)
    (goes : (delimited opening body closing).GoesTo world captures place result) :
    (filledBoundary opening body closing).GoesTo world captures place result := by
  rw [goesTo_filledBoundary_iff steadyOpening steadyClosing steadyBody]
  rcases (goesTo_delimited_iff steadyOpening steadyClosing steadyBody).mp goes with fails | ⟨next, begins, goesOn⟩
  · exact .inl fails
  · exact .inr ⟨next, begins, delimits_of_goesTo steadyBody steadyClosing goesOn⟩

theorem goesTo_delimited_of_delimits (steadyBody : body.IsSteady world)
    (bodyGoes : ∀ other : TokenStream, other.tokens = place.tokens → other.hasMore = false →
      ∃ result, body.GoesTo world captures other result)
    (goes : (opening.GoesTo world captures place none ∧ result = none) ∨
      ∃ next, opening.GoesTo world captures place (some next) ∧ Delimits world body closing captures next result) :
    (delimited opening body closing).GoesTo world captures place result := by
  rw [goesTo_delimited_iff steadyOpening steadyClosing steadyBody]
  rcases goes with fails | ⟨next, begins, delimits⟩
  · exact .inl fails
  · have tokens_eq := steadyOpening.tokens_eq begins
    have goesOn := goesTo_of_delimits steadyBody steadyClosing
      (fun other same => bodyGoes other (same.trans tokens_eq)) delimits
    exact .inr ⟨next, begins, goesOn⟩

/-- A body that takes any token comes to an answer everywhere. -/
theorem goesTo_boundary_iff_delimited (acceptsAll : ∀ token, test.accepts token = true) :
    (boundary opening closing).GoesTo world captures place result ↔
      (delimited opening (.matcher test false) closing).GoesTo world captures place result := by
  have filled_iff := @goesTo_filledBoundary_iff world opening (.matcher test false) closing captures place result
    steadyOpening steadyClosing matcher_steady
  rw [goesTo_boundary_iff steadyOpening steadyClosing acceptsAll, ← filled_iff]
  constructor
  · intro goes
    refine goesTo_delimited_of_delimits steadyOpening steadyClosing matcher_steady ?_ (filled_iff.mp goes)
    intro other _ _
    have terminates : (matcher test false).Terminates world ⟨other, captures, []⟩ := matcher_terminates
    exact matcher_steady.exists_goesTo terminates
  · exact goesTo_filledBoundary_of_delimited steadyOpening steadyClosing matcher_steady

end Boundaries

/-- A rule terminates along a stream when it terminates from each place of the stream, with the same captures. -/
def TerminatesAlong (world : World) (rule : Rule) (situation : Situation) : Prop :=
  ∀ place : TokenStream, place.tokens = situation.stream.tokens →
    rule.Terminates world { situation with stream := place }

section Terminating

variable (steadyOpening : opening.IsSteady world) (steadyBody : body.IsSteady world)
  (steadyClosing : closing.IsSteady world)
include steadyOpening steadyBody steadyClosing

/-- Where its rules terminate along the stream, the expression goes somewhere. -/
theorem exists_goesTo_delimited (opens : opening.TerminatesAlong world situation)
    (fills : body.TerminatesAlong world situation) (closes : closing.TerminatesAlong world situation) :
    ∃ result, (delimited opening body closing).GoesTo world situation.memory.captures situation.stream result := by
  have bodyGoes (other : TokenStream) (same : other.tokens = situation.stream.tokens) :
      ∃ result, body.GoesTo world situation.memory.captures other result :=
    steadyBody.exists_goesTo (fills other same)
  have closingGoes (other : TokenStream) (same : other.tokens = situation.stream.tokens) :
      ∃ result, closing.GoesTo world situation.memory.captures other result :=
    steadyClosing.exists_goesTo (closes other same)
  obtain ⟨opened, begins⟩ := steadyOpening.exists_goesTo (opens situation.stream rfl)
  cases opened with
  | none => exact ⟨none, (goesTo_delimited_iff steadyOpening steadyClosing steadyBody).mpr (.inl ⟨begins, rfl⟩)⟩
  | some next =>
    have tokens_eq := steadyOpening.tokens_eq begins
    obtain ⟨result, delimits⟩ := exists_delimits steadyBody
      (fun other same => bodyGoes other (same.trans tokens_eq))
      (fun other same => closingGoes other (same.trans tokens_eq))
    exact ⟨result, goesTo_delimited_of_delimits steadyOpening steadyClosing steadyBody
      (fun other same _ => bodyGoes other same) (.inr ⟨next, begins, delimits⟩)⟩

theorem delimited_refinedBy :
    (delimited opening body closing).RefinedBy world (filledBoundary opening body closing) :=
  refinedBy_of_goesTo (.delimited steadyOpening steadyClosing steadyBody)
    (.filledBoundary steadyOpening steadyClosing steadyBody)
    (goesTo_filledBoundary_of_delimited steadyOpening steadyClosing steadyBody)

/-- A boundary acts like the expression if its body terminates where the input has ended. -/
theorem filledBoundary_actsAs
    (terminates : ∀ situation : Situation, situation.stream.hasMore = false → body.Terminates world situation) :
    (filledBoundary opening body closing).ActsAs world (delimited opening body closing) where
  refines := delimited_refinedBy steadyOpening steadyBody steadyClosing
  refinedBy := by
    refine refinedBy_of_goesTo (.filledBoundary steadyOpening steadyClosing steadyBody)
      (.delimited steadyOpening steadyClosing steadyBody) ?_
    intro captures place result goes
    refine goesTo_delimited_of_delimits steadyOpening steadyClosing steadyBody ?_
      ((goesTo_filledBoundary_iff steadyOpening steadyClosing steadyBody).mp goes)
    exact fun other _ ends => steadyBody.exists_goesTo (terminates ⟨other, captures, []⟩ ends)

/-- A boundary answers like the expression where its rules terminate along the stream. -/
theorem filledBoundary_answersLike (opens : opening.TerminatesAlong world situation)
    (fills : body.TerminatesAlong world situation) (closes : closing.TerminatesAlong world situation) :
    (filledBoundary opening body closing).AnswersLike world (delimited opening body closing) situation := by
  obtain ⟨result, goes⟩ := exists_goesTo_delimited steadyOpening steadyBody steadyClosing opens fills closes
  exact answersLike_of_goesTo (.filledBoundary steadyOpening steadyClosing steadyBody)
    (.delimited steadyOpening steadyClosing steadyBody)
    (goesTo_filledBoundary_of_delimited steadyOpening steadyClosing steadyBody goes) goes

end Terminating

/-- A boundary answers like the expression of its opening rule, its body as often as the closing rule does not match,
and its closing rule, wherever these rules terminate along the stream. The expression tries the body also where the
input has ended, and as far as the body terminates there the two act alike. A boundary without a body acts like the
expression with a body that takes any token. -/
theorem boundary_actsAs_delimited (steadyOpening : opening.IsSteady world) (steadyClosing : closing.IsSteady world) :
    (∀ body : Rule, body.IsSteady world →
      (delimited opening body closing).RefinedBy world (filledBoundary opening body closing) ∧
      ((∀ situation : Situation, situation.stream.hasMore = false → body.Terminates world situation) →
        (filledBoundary opening body closing).ActsAs world (delimited opening body closing)) ∧
      ∀ situation, opening.TerminatesAlong world situation → body.TerminatesAlong world situation →
        closing.TerminatesAlong world situation →
        (filledBoundary opening body closing).AnswersLike world (delimited opening body closing) situation) ∧
    ∀ test : TokenTest, (∀ token, test.accepts token = true) →
      (boundary opening closing).ActsAs world (delimited opening (.matcher test false) closing) ∧
      ∀ situation, opening.TerminatesAlong world situation → closing.TerminatesAlong world situation →
        (boundary opening closing).AnswersLike world (delimited opening (.matcher test false) closing) situation := by
  constructor
  · intro body steadyBody
    refine ⟨delimited_refinedBy steadyOpening steadyBody steadyClosing,
      filledBoundary_actsAs steadyOpening steadyBody steadyClosing, ?_⟩
    intro situation opens fills closes
    exact filledBoundary_answersLike steadyOpening steadyBody steadyClosing opens fills closes
  · intro test acceptsAll
    have steadyBoundary : (boundary opening closing).IsSteady world := .boundary steadyOpening steadyClosing
    have steadyExpression : (delimited opening (.matcher test false) closing).IsSteady world :=
      .delimited steadyOpening steadyClosing matcher_steady
    refine ⟨actsAs_of_goesTo_iff steadyBoundary steadyExpression
      (goesTo_boundary_iff_delimited steadyOpening steadyClosing acceptsAll), ?_⟩
    intro situation opens closes
    obtain ⟨result, goes⟩ := exists_goesTo_delimited steadyOpening matcher_steady steadyClosing opens
      (fun _ _ => matcher_terminates) closes
    exact answersLike_of_goesTo steadyBoundary steadyExpression
      ((goesTo_boundary_iff_delimited steadyOpening steadyClosing acceptsAll).mpr goes) goes

end Rule

namespace Brackets

theorem taking_steady (token : Token) : (taking token).IsSteady world := Rule.matcher_steady

theorem taking_terminatesAlong (token : Token) (situation : Situation) :
    (taking token).TerminatesAlong world situation := fun _ _ => Rule.matcher_terminates

end Brackets

namespace Rule

open Brackets in
/-- Between brackets, the boundary and the expression take the same nested pair of brackets, the same opening bracket,
and the same tokens whatever they are. -/
theorem boundary_agrees_with_delimited :
    (∃ (found found' : Match) (after after' : Situation), found.tokens.length = 4 ∧
      (delimited (taking opening) nested (taking closing)).Yields Brackets.world ⟨Brackets.stream, {}⟩
        (some found) after ∧
      (filledBoundary (taking opening) nested (taking closing)).Yields Brackets.world ⟨Brackets.stream, {}⟩
        (some found') after' ∧ found.Agrees found') ∧
    (filledBoundary (taking opening) (taking opening) (taking closing)).AnswersLike Brackets.world
      (delimited (taking opening) (taking opening) (taking closing)) ⟨Brackets.stream, {}⟩ ∧
    ∃ (found found' : Match) (after after' : Situation), found.tokens.length = 3 ∧
      (boundary (taking opening) (taking closing)).Yields Brackets.world ⟨Brackets.stream, {}⟩ (some found) after ∧
      (delimited (taking opening) (.matcher (.custom "any" fun _ => true) false) (taking closing)).Yields Brackets.world
        ⟨Brackets.stream, {}⟩ (some found') after' ∧ found.Agrees found' := by
  obtain ⟨filled, bare⟩ := boundary_actsAs_delimited (taking_steady opening) (taking_steady closing)
  obtain ⟨refined, -, -⟩ := filled nested nested_steady
  obtain ⟨-, -, alike⟩ := filled (taking opening) (taking_steady opening)
  obtain ⟨acts, -⟩ := bare (.custom "any" fun _ => true) fun _ => rfl
  have terminates (token : Token) := taking_terminatesAlong token ⟨Brackets.stream, {}⟩
  refine ⟨refined.exists_agrees 14 4 (by decide +kernel), ?_, acts.refinedBy.exists_agrees 14 3 (by decide +kernel)⟩
  exact alike _ (terminates opening) (terminates opening) (terminates closing)

end Rule

end TokenGrammar
