import TokenGrammar.Proofs.Halting.Attempts
import TokenGrammar.Proofs.Laws.Boundaries
import TokenGrammar.Proofs.Laws.Lists

namespace TokenGrammar

namespace TokenStream

/-- The size of what remains of a stream, with all that tokens hold inside. -/
noncomputable def extent (stream : TokenStream) : Nat := sizeOf stream.remaining

theorem sizeOf_le_append (first second : List Token) : sizeOf second ≤ sizeOf (first ++ second) := by
  induction first with
  | nil => exact Nat.le_refl _
  | cons token rest ih =>
    rw [List.cons_append, List.cons.sizeOf_spec]
    omega

theorem sizeOf_lt_append {first : List Token} (filled : first ≠ []) (second : List Token) :
    sizeOf second < sizeOf (first ++ second) := by
  obtain ⟨token, rest, rfl⟩ := List.exists_cons_of_ne_nil filled
  have := sizeOf_le_append rest second
  rw [List.cons_append, List.cons.sizeOf_spec]
  omega

namespace Reads

variable {start finish : TokenStream} {tokens : List Token}

theorem extent_le (reads : start.Reads tokens finish) : finish.extent ≤ start.extent := by
  obtain ⟨piece, remaining, -⟩ := reads.exists_piece
  rw [extent, extent, remaining]
  exact sizeOf_le_append ..

theorem extent_lt (reads : start.Reads tokens finish) (filled : tokens ≠ []) : finish.extent < start.extent := by
  obtain ⟨piece, remaining, -, taken, -⟩ := reads.exists_piece
  rw [extent, extent, remaining]
  apply sizeOf_lt_append
  intro empty
  rw [empty] at taken
  exact filled taken

end Reads

theorem sizeOf_unwrap_le (token : Token) : sizeOf token.unwrap ≤ sizeOf token := by
  induction token using Token.unwrap.induct with
  | case1 types token metadata ih =>
    rw [Token.unwrap, Token.annotated.sizeOf_spec]
    omega
  | case2 types token ordinal ih =>
    rw [Token.unwrap, Token.indexed.sizeOf_spec]
    omega
  | case3 token =>
    have same : token.unwrap = token := by rw [Token.unwrap] <;> assumption
    exact Nat.le_of_eq (congrArg sizeOf same)

theorem sizeOf_members_lt {token : Token} {members : List Token} (inside : token.members? = some members) :
    sizeOf members < sizeOf token := by
  cases token <;> cases inside
  rw [Token.group.sizeOf_spec, Nat.add_comm]
  exact Nat.lt_add_of_pos_right (Nat.add_pos_left (Nat.add_pos_left Nat.one_pos _) _)

/-- Less remains inside of a group than where the group is. -/
theorem extent_members_lt {stream : TokenStream} {token : Token} {members : List Token}
    (current : stream.current? = some token) (inside : token.unwrap.members? = some members) :
    (ofTokens members).extent < stream.extent :=
  calc
    sizeOf members < sizeOf token.unwrap := sizeOf_members_lt inside
    _ ≤ sizeOf token := sizeOf_unwrap_le token
    _ < sizeOf stream.remaining := List.sizeOf_lt_of_mem (List.mem_of_find?_eq_some current)

end TokenStream

namespace Rule

open Run
open Attempt

variable {world : World} {rule self : Rule} {rules : List Rule} {situation after : Situation} {found : Match}

/-- A rule is never empty when none of its matches takes nothing. -/
def NeverEmpty (world : World) (rule : Rule) : Prop :=
  ∀ situation found after, rule.Yields world situation (some found) after → found.isZeroWidth = false

theorem BuiltIn.extent_le {answer : Option Match} (builtIn : rule.BuiltIn world)
    (yields : rule.Yields world situation answer after) : after.stream.extent ≤ situation.stream.extent := by
  have settles := builtIn.settles yields
  cases answer with
  | none =>
    have stays : after.stream = situation.stream := settles
    exact Nat.le_of_eq (congrArg TokenStream.extent stays)
  | some found =>
    have spans : found.Spans situation.stream after.stream := settles
    exact spans.reads.extent_le

theorem BuiltIn.extent_lt (builtIn : rule.BuiltIn world) (yields : rule.Yields world situation (some found) after)
    (filled : found.isZeroWidth = false) : after.stream.extent < situation.stream.extent := by
  have spans : found.Spans situation.stream after.stream := builtIn.settles yields
  refine spans.reads.extent_lt ?_
  simpa [spans.isZeroWidth_eq] using filled

/-- Behind some rules no more remains than there was, and less if one of the rules is never empty. -/
def Within (world : World) (limit : Nat) (before : List Rule) (stream : TokenStream) : Prop :=
  stream.extent ≤ limit ∧ ((∃ earlier ∈ before, earlier.NeverEmpty world) → stream.extent < limit)

namespace Within

variable {limit : Nat} {before : List Rule} {stream other : TokenStream}

theorem nil (least : stream.extent ≤ limit) : Within world limit [] stream := ⟨least, by simp⟩

theorem mono (within : Within world limit before stream) (less : other.extent ≤ stream.extent) :
    Within world limit before other :=
  ⟨Nat.le_trans less within.1, fun taken => Nat.lt_of_le_of_lt less (within.2 taken)⟩

theorem append (within : Within world limit before situation.stream) (builtIn : rule.BuiltIn world)
    (yields : rule.Yields world situation (some found) after) :
    Within world limit (before ++ [rule]) after.stream := by
  have less := builtIn.extent_le yields
  refine ⟨Nat.le_trans less within.1, fun taken => ?_⟩
  obtain ⟨earlier, member, neverEmpty⟩ := taken
  rcases List.mem_append.mp member with member | member
  · exact Nat.lt_of_le_of_lt less (within.2 ⟨earlier, member, neverEmpty⟩)
  · rw [List.mem_singleton.mp member] at neverEmpty
    exact Nat.lt_of_lt_of_le (builtIn.extent_lt yields (neverEmpty _ _ _ yields)) within.1

end Within

/-- A sequence halts if each of its rules halts behind the ones before it. -/
theorem halts_inTurn {limit : Nat} {before : List Rule} (builtIn : ∀ member ∈ rules, member.BuiltIn world)
    (ready : ∀ front target rest, rules = front ++ target :: rest → ∀ situation,
      Within world limit (before ++ front) situation.stream → target.Terminates world situation)
    (within : Within world limit before situation.stream) :
    Halts (fun fuel => inTurn (run world fuel) rules) situation := by
  induction rules generalizing before situation with
  | nil => exact (finishes_pure _).halts
  | cons first rest ih =>
    have halts : Halts (fun fuel => run world fuel first) situation :=
      ready [] first rest rfl situation (by rwa [List.append_nil])
    refine halts.bind run_grows (fun found => ?_) fun found middle yields => ?_
    · cases found with
      | none => exact Grows.const _
      | some found => exact (inTurn_grows rest).bind fun _ => Grows.const _
    · cases found with
      | none => exact (finishes_pure _).halts
      | some found =>
        have inner : Halts (fun fuel => inTurn (run world fuel) rest) middle := by
          refine ih (fun member inside => builtIn member (by simp [inside])) ?_
            (within.append (builtIn first (by simp)) yields)
          intro front target others split
          rw [List.append_assoc]
          exact ready (first :: front) target others (by rw [split, List.cons_append])
        refine inner.bind_finishes (inTurn_grows rest) fun tokens => ?_
        cases tokens <;> exact finishes_pure _

section Tried

variable (ready : ∀ member ∈ rules, ∀ tried, tried.stream = situation.stream → member.Terminates world tried)
include ready

/-- A choice halts if its alternatives halt at its place. -/
theorem halts_firstOf : Halts (fun fuel => firstOf (run world fuel) rules) situation := by
  induction rules generalizing situation with
  | nil => exact (finishes_pure _).halts
  | cons first rest ih =>
    have halts : Halts (fun fuel => run world fuel first) situation := ready first (by simp) situation rfl
    refine (Halts.apart halts).bind (run_grows.apart id) (fun found => ?_) fun found middle tried => ?_
    · cases found with
      | none => exact firstOf_grows rest
      | some found => exact Grows.const _
    · obtain ⟨later, -, rfl⟩ := gives_apart_iff.mp tried
      cases found with
      | none => exact ih fun member inside => ready member (by simp [inside])
      | some found => exact (finishes_pure _).halts

/-- A conjunction halts if its rules halt at its place. -/
theorem halts_farthestOf (farthest : Option Match) :
    Halts (fun fuel => farthestOf (run world fuel) farthest rules) situation := by
  induction rules generalizing situation farthest with
  | nil => exact (finishes_pure _).halts
  | cons first rest ih =>
    have halts : Halts (fun fuel => run world fuel first) situation := ready first (by simp) situation rfl
    refine (Halts.apart halts).bind (run_grows.apart id) (fun found => ?_) fun found middle tried => ?_
    · cases found with
      | none => exact Grows.const _
      | some found => exact farthestOf_grows _ rest
    · obtain ⟨later, -, rfl⟩ := gives_apart_iff.mp tried
      cases found with
      | none => exact finishes_noMatch.halts
      | some found =>
        apply ih
        intro member inside
        exact ready member (by simp [inside])

end Tried

/-- Repetitions halt if the rule halts wherever no more remains than at their beginning. -/
theorem halts_repetitions (builtIn : rule.BuiltIn world) (least : Nat) (limit : Option Nat)
    (ready : ∀ later : Situation, later.stream.extent ≤ situation.stream.extent → rule.Terminates world later) :
    Halts (repetitions world rule least limit) situation := by
  -- A repetition that goes on has taken something, so less remains for the others. The rule is run with one unit of
  -- fuel more than the loop behind it has, hence the family that lags below.
  induction size : situation.stream.extent using Nat.strongRecOn generalizing situation least limit with
  | ind size ih =>
    subst size
    apply Halts.of_succ
    by_cases room : limit = some 0
    · subst room
      exact ⟨0, fun _ => nofun⟩
    · simp only [repetitions_succ room]
      have halts : Halts (fun fuel => run world fuel rule) situation := ready situation (Nat.le_refl _)
      refine (run_grows.halts_succ halts).bind run_grows.succ (goOn_grows least limit) fun found middle yields => ?_
      cases found with
      | none => exact (finishes_pure _).halts
      | some found =>
        simp only [goOn]
        split
        · exact (finishes_pure _).halts
        · rename_i filled
          have yields : rule.Yields world situation (some found) middle := run_grows.gives_succ_iff.mp yields
          have less := builtIn.extent_lt yields (by simpa using filled)
          have others : Halts (repetitions world rule (least - 1) (limit.map (· - 1))) middle :=
            ih _ less _ _ (fun later atMost => ready later (Nat.le_of_lt (Nat.lt_of_le_of_lt atMost less))) rfl
          have lagging := others.of_approximates fun fuel =>
            repeating_approximates (run_approximates (Nat.le_succ fuel)) (Nat.le_refl fuel) 0
          exact lagging.bind_finishes (laterRepetitions_grow ..) fun _ => finishes_pure _

section Until

variable {step : Nat → Attempt (Option (List Token))} (grows : Grows step)
include grows

/-- A loop up to a closing rule halts if that rule and the steps halt wherever no more remains than at its beginning,
and each step leaves less. -/
theorem halts_untilClosed {closing : Rule} (builtIn : closing.BuiltIn world)
    (closes : ∀ later : Situation, later.stream.extent ≤ situation.stream.extent → closing.Terminates world later)
    (steps : ∀ later : Situation, later.stream.extent ≤ situation.stream.extent → later.stream.hasMore = true →
      Halts step later)
    (progresses : ∀ (later : Situation) tokens after, later.stream.hasMore = true →
      Gives step later (some tokens) after → after.stream.extent < later.stream.extent) :
    Halts (fun fuel => untilClosed (closing.run world fuel) (step fuel) fuel) situation := by
  induction size : situation.stream.extent using Nat.strongRecOn generalizing situation with
  | ind size ih =>
    subst size
    have halts : Halts (fun fuel => run world fuel closing) situation := closes situation (Nat.le_refl _)
    apply Halts.of_succ
    simp only [untilClosed_succ]
    refine (run_grows.halts_succ halts).bind run_grows.succ (untilNext_grows grows closing) fun found middle yields => ?_
    cases found with
    | some found => exact (finishes_pure _).halts
    | none =>
      have yields : closing.Yields world situation none middle := run_grows.gives_succ_iff.mp yields
      have stays := builtIn.extent_le yields
      apply halts_stream_bind
      cases more : middle.stream.hasMore with
      | false => exact (finishes_pure _).halts
      | true =>
        refine (grows.halts_succ (steps middle stays more)).bind grows.succ (untilBehind_grows grows closing)
          fun tokens after given => ?_
        cases tokens with
        | none => exact (finishes_pure _).halts
        | some tokens =>
          have less := progresses middle tokens after more (grows.gives_succ_iff.mp given)
          have under := Nat.lt_of_lt_of_le less stays
          have others := ih _ under (fun later atMost => closes later (Nat.le_of_lt (Nat.lt_of_le_of_lt atMost under)))
            (fun later atMost => steps later (Nat.le_of_lt (Nat.lt_of_le_of_lt atMost under))) rfl
          have lagging := others.of_approximates fun fuel =>
            untilClosed_approximates (run_approximates (Nat.le_succ fuel)) (grows (Nat.le_succ fuel)) (Nat.le_refl fuel)
          refine lagging.bind_finishes (laterUntilClosed_grows grows closing) fun rest => ?_
          cases rest <;> exact finishes_pure _

end Until

end Rule

end TokenGrammar
