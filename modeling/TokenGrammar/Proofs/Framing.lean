import TokenGrammar.Proofs.Captured
import TokenGrammar.Proofs.Provenance.Rules

namespace TokenGrammar

namespace Captures

variable {keys : Text → Prop} {tokens other : List Token} {before after : Captures}

/-- Under one of some keys, captures take in the visible tokens of a stretch of what can be seen from some tokens. -/
inductive TakesIn (keys : Text → Prop) (tokens : List Token) : Captures → Captures → Prop
  | keep {captures : Captures} {key : Text} {seen stretch : List Token} (allowed : keys key)
      (sees : SeenFrom tokens seen) (within : stretch <:+: seen) :
      TakesIn keys tokens captures (captures.keep key (stretch.filter Token.isVisible))

/-- Captures grow when they take in one thing after the other. -/
def Grows (keys : Text → Prop) (tokens : List Token) : Captures → Captures → Prop :=
  Relation.ReflTransGen (TakesIn keys tokens)

theorem TakesIn.of_seen (takes : TakesIn keys other before after) (sees : SeenFrom tokens other) :
    TakesIn keys tokens before after := by
  cases takes with
  | keep allowed further within => exact .keep allowed (sees.trans further) within

/-- What is taken in of something seen is taken in of what it is seen from. -/
theorem Grows.of_seen (grows : Grows keys other before after) (sees : SeenFrom tokens other) :
    Grows keys tokens before after := by
  induction grows with
  | refl => exact .refl
  | tail _ takes ih => exact ih.tail (takes.of_seen sees)

/-- Where captures grow, a key keeps what it had, or it is allowed and has the visible tokens of a stretch of what is
seen. -/
theorem Grows.find?_eq (grows : Grows keys tokens before after) (key : Text) :
    after.find? key = before.find? key ∨
      keys key ∧ ∃ seen stretch, SeenFrom tokens seen ∧ stretch <:+: seen ∧
        after.find? key = some (stretch.filter Token.isVisible) := by
  induction grows with
  | refl => exact .inl rfl
  | tail _ takes ih =>
    cases takes with
    | @keep other seen stretch allowed sees within =>
      by_cases same : key = other
      · subst same
        exact .inr ⟨allowed, seen, stretch, sees, within, Captures.find?_keep_self _ key _⟩
      · rwa [Captures.find?_keep_other _ _ same]

theorem Grows.eq_of_none (grows : Grows keys tokens before after) (none : ∀ key, ¬keys key) : after = before := by
  induction grows with
  | refl => rfl
  | tail _ takes ih =>
    cases takes with
    | keep allowed => exact absurd allowed (none _)

end Captures

/-- An attempt frames captures when it draws on tokens, and lets captures grow from there at most, however it ends. -/
structure Frames (keys : Text → Prop) {α : Type} (tokens : List Token) (allowed : α → Prop) (attempt : Attempt α) :
    Prop where
  draws : Draws tokens allowed attempt
  grows : ∀ situation : Situation, situation.stream.tokens = tokens →
    situation.memory.captures.Grows keys tokens (Outcome.left (attempt situation)).memory.captures

namespace Frames

variable {keys : Text → Prop} {α β : Type} {tokens : List Token} {allowed : α → Prop} {allowed' : β → Prop}
  {attempt : Attempt α} {next : α → Attempt β}

theorem bind (first : Frames keys tokens allowed attempt)
    (second : ∀ answer, allowed answer → Frames keys tokens allowed' (next answer)) :
    Frames keys tokens allowed' (attempt >>= next) where
  draws := first.draws.bind fun answer allows => (second answer allows).draws
  grows situation among := by
    have begins := first.grows situation among
    rw [Stateful.bind_apply]
    cases outcome : attempt situation with
    | error stop middle =>
      rw [outcome] at begins
      exact begins
    | ok answer middle =>
      rw [outcome] at begins
      obtain ⟨still, allows⟩ := first.draws situation answer middle among outcome
      exact begins.trans ((second answer allows).grows middle still)

theorem apart {view : TokenStream → TokenStream}
    (inner : ∀ start : TokenStream, start.tokens = tokens → SeenFrom tokens (view start).tokens ∧
      Frames keys (view start).tokens allowed attempt) : Frames keys tokens allowed (Attempt.apart view attempt) where
  draws := .apart fun start among => (inner start among).2.draws
  grows situation among := by
    obtain ⟨sees, frames⟩ := inner situation.stream among
    have within := (frames.grows { situation with stream := view situation.stream } rfl).of_seen sees
    rw [Attempt.apart_apply]
    cases outcome : attempt { situation with stream := view situation.stream } <;> rw [outcome] at within <;> exact within

end Frames

/-- What frames captures is confined to tokens. -/
theorem frames_confining (keys : Text → Prop) : Confining (Frames keys) where
  pure allows := ⟨.pure allows, fun _ _ => .refl⟩
  fail := ⟨.fail, fun _ _ => .refl⟩
  exhaust := ⟨.exhaust, fun _ _ => .refl⟩
  stream := ⟨.stream, fun _ _ => .refl⟩
  goTo among := ⟨.goTo among, fun _ _ => .refl⟩
  captures := ⟨.captures, fun _ _ => .refl⟩
  notice := ⟨.notice, fun _ _ => .refl⟩
  bind := .bind
  apart := .apart

namespace Rule

variable {world : World} {rule inner : Rule} {keys : Text → Prop} {key : Text} {tokens : List Token} {fuel : Nat}

/-- A rule may capture under a key when it reaches a capture rule of the key. -/
def MayCapture (world : World) (rule : Rule) (key : Text) : Prop :=
  ∃ inner, rule.Reaches world (.capture key inner)

theorem MayCapture.of_refers (captures : inner.MayCapture world key) (refers : rule.Refers world inner) :
    rule.MayCapture world key := by
  obtain ⟨target, reaches⟩ := captures
  exact ⟨target, .head refers reaches⟩

/-- A capture rule keeps the visible tokens that the rule inside of it has read. -/
theorem capture_frames (builtIn : (Rule.capture key inner).BuiltIn world) (allowed : keys key)
    (inside : ∀ tokens, Frames keys tokens (TakenFrom tokens) (inner.run world fuel)) :
    Frames keys tokens (TakenFrom tokens) ((Rule.capture key inner).body world fuel (run world fuel)) where
  draws := by
    refine body_draws fun target refers => ?_
    cases refers with
    | shown child =>
      obtain rfl : target = inner := by simpa using child
      exact fun tokens => (inside tokens).draws
  grows situation among := by
    have delegates : Frames keys tokens (TakenFrom tokens) (Run.delegate (inner.run world fuel) (.capture key inner)) :=
      (frames_confining keys).delegate (inside tokens)
    have grows := delegates.grows situation among
    have sound : (inner.run world fuel).Sound := run_sound (builtIn.of_refers (.shown (by simp))) fuel
    have traces : Meets (Run.delegate (inner.run world fuel) (.capture key inner) situation) fun found _ =>
        Run.Traces situation.stream found := sound.delegate_traces
    rw [Captured.body_capture_apply builtIn.here]
    cases outcome : Run.delegate (inner.run world fuel) (.capture key inner) situation with
    | error stop after =>
      rw [outcome] at grows
      exact grows
    | ok answer after =>
      rw [outcome] at grows traces
      cases answer with
      | none => exact grows
      | some found =>
        obtain ⟨finish, spans⟩ := traces
        obtain ⟨stretch, remaining, -, taken, -⟩ := spans.reads.exists_piece
        have within : stretch <:+: tokens := by
          rw [← among, TokenStream.tokens, remaining, ← List.append_assoc]
          exact List.infix_append ..
        have keeps : Captures.TakesIn keys tokens after.memory.captures
            (after.memory.captures.keep key (stretch.filter Token.isVisible)) := .keep allowed .refl within
        rw [← taken] at keeps
        exact grows.tail keeps

/-- Every run of a built-in rule frames captures, where the keys are allowed under which the rule may capture. -/
theorem run_frames (builtIn : rule.BuiltIn world) (allowed : ∀ key, rule.MayCapture world key → keys key) (fuel : Nat)
    (tokens : List Token) : Frames keys tokens (TakenFrom tokens) (rule.run world fuel) := by
  have confining := frames_confining keys
  -- Rules may refer to each other in circles, so the induction is on the fuel and not on the rule.
  induction fuel generalizing rule tokens with
  | zero => exact confining.exhaust
  | succ fuel ih =>
    have inside {target : Rule} (refers : rule.Refers world target) (tokens : List Token) :
        Frames keys tokens (TakenFrom tokens) (target.run world fuel) :=
      ih (builtIn.of_refers refers) (fun key captures => allowed key (captures.of_refers refers)) tokens
    cases rule with
    | external number => exact builtIn.here.elim
    | capture key inner =>
      exact confining.settle (capture_frames builtIn (allowed key ⟨inner, .refl⟩) (inside (.shown (by simp))))
    | _ => exact confining.settle (confining.body nofun fun _ refers => inside refers)

/-- However a run of a built-in rule ends, it has left what is kept under each key, unless the rule may capture under
the key: then visible tokens of a stretch of what is seen from the stream may be kept there. In particular a rule that
may not capture at all leaves the captures as they are. -/
theorem match_frames (builtIn : rule.BuiltIn world) (fuel : Nat) (situation : Situation) :
    (∀ key,
      (Outcome.left (rule.run world fuel situation)).memory.captures.find? key = situation.memory.captures.find? key ∨
        rule.MayCapture world key ∧ ∃ seen stretch, SeenFrom situation.stream.tokens seen ∧ stretch <:+: seen ∧
          (Outcome.left (rule.run world fuel situation)).memory.captures.find? key =
            some (stretch.filter Token.isVisible)) ∧
      ((∀ key, ¬rule.MayCapture world key) →
        (Outcome.left (rule.run world fuel situation)).memory.captures = situation.memory.captures) := by
  have frames := run_frames builtIn (fun _ captures => captures) fuel situation.stream.tokens
  have grows := frames.grows situation rfl
  exact ⟨grows.find?_eq, grows.eq_of_none⟩

end Rule

namespace Brackets

/-- A look back at a closing bracket, which is captured, and then an opening bracket, which is missing. -/
def glancing : Rule := .sequence [.lookaround .behind (.capture "nearest" (taking closing)) false, taking opening]

theorem glancing_builtIn : glancing.BuiltIn {} := by
  refine Rule.Throughout.of_closed (fun rule => rule ∈ [glancing, .capture "nearest" (taking closing),
    .lookaround .behind (.capture "nearest" (taking closing)) false, taking closing, taking opening]) ?_ ?_
    (List.mem_cons_self ..)
  · simp [glancing, taking, Rule.IsMade, Token.value, opening, closing, word, Token.writeBefore, Text.isEmpty]
  · intro member target isMember refers
    simp only [List.mem_cons, List.not_mem_nil, or_false] at isMember
    rcases isMember with rfl | rfl | rfl | rfl | rfl <;> cases refers <;>
      simp_all [glancing, taking, Rule.children, Rule.properties, Rule.testProperties, Rule.Property.children]
    next child => exact .inr (.inr (child.imp_right .inr))

/-- The place in front of the last closing bracket, with a comment and a closing bracket behind. -/
def inTheRear : Situation := ⟨Brackets.stream.forward 6, {}⟩

end Brackets

namespace Rule

open Brackets in
/-- A rule that does not match has captured the closing bracket behind the comment, seen with the nearest token first. -/
theorem failed_lookback_captures_nearest : glancing.BuiltIn {} ∧
    (Outcome.left (glancing.run {} 5 inTheRear)).memory.captures.find? "nearest" = some [closing] ∧
      glancing.MayCapture {} "nearest" ∧ ∃ seen stretch, SeenFrom inTheRear.stream.tokens seen ∧
        stretch <:+: seen ∧ stretch.filter Token.isVisible = [closing] := by
  have computed : (Outcome.left (glancing.run {} 5 inTheRear)).memory.captures.find? "nearest" = some [closing] := by
    rfl
  obtain ⟨frames, -⟩ := match_frames glancing_builtIn 5 inTheRear
  refine ⟨glancing_builtIn, computed, ?_⟩
  rcases frames "nearest" with same | ⟨captures, seen, stretch, sees, within, kept⟩
  · rw [computed] at same
    cases same
  · rw [computed] at kept
    exact ⟨captures, seen, stretch, sees, within, (Option.some.inj kept).symm⟩

end Rule

end TokenGrammar
