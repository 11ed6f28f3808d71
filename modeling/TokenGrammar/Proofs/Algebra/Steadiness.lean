import TokenGrammar.Proofs.Algebra.Acting
import TokenGrammar.Proofs.Laws.Around
import TokenGrammar.Proofs.Laws.Repetitions

namespace TokenGrammar

/-- An attempt keeps captures when they are the same wherever it answers. -/
def Attempt.KeepsCaptures {α : Type} (attempt : Attempt α) : Prop :=
  ∀ situation answer after, attempt situation = .ok answer after →
    after.memory.captures = situation.memory.captures

/-- A caller's rule keeps captures when it leaves those behind that it was given. -/
def ExternalRule.KeepsCaptures (supplied : ExternalRule) : Prop :=
  ∀ stream captures, (supplied.behave stream captures).captures = captures

namespace Attempt

variable {α β : Type}

theorem KeepsCaptures.bind {attempt : Attempt α} {next : α → Attempt β} (first : attempt.KeepsCaptures)
    (second : ∀ answer, (next answer).KeepsCaptures) : (attempt >>= next).KeepsCaptures := by
  intro situation answer after answers
  obtain ⟨inner, middle, begins, goesOn⟩ := Stateful.bind_eq_ok_iff.mp answers
  exact (second inner _ _ _ goesOn).trans (first _ _ _ begins)

theorem KeepsCaptures.apart {attempt : Attempt α} (view : TokenStream → TokenStream) (inner : attempt.KeepsCaptures) :
    (Attempt.apart view attempt).KeepsCaptures := by
  intro situation answer after answers
  rw [apart_apply] at answers
  cases outcome : attempt { situation with stream := view situation.stream } with
  | error stop middle =>
    rw [outcome] at answers
    cases answers
  | ok result middle =>
    rw [outcome] at answers
    cases answers
    exact inner { situation with stream := view situation.stream } _ middle outcome

/-- Only capture rules and callers replace captures. -/
theorem keepsCaptures_compositional :
    Compositional fun (α : Type) (attempt : Unit → Attempt α) => ∀ i, (attempt i).KeepsCaptures where
  pure _ _ _ _ _ answers := by cases answers; rfl
  fail _ _ _ _ _ answers := by cases answers
  exhaust _ _ _ _ answers := by cases answers
  stream _ _ _ _ answers := by cases answers; rfl
  goTo _ _ _ _ _ answers := by cases answers; rfl
  captures _ _ _ _ answers := by cases answers; rfl
  notice _ _ _ _ _ answers := by cases answers; rfl
  bind first second i := (first i).bind fun answer => second answer i
  apart view inner i := (inner i).apart view

end Attempt

/-- A caller's rule that keeps captures does so as a run. -/
theorem Run.leaveToCaller_keepsCaptures {supplied : ExternalRule} (keeps : supplied.KeepsCaptures) :
    (Run.leaveToCaller supplied).KeepsCaptures := by
  intro situation answer after answers
  rw [leaveToCaller] at answers
  cases outcome : (supplied.behave situation.stream situation.memory.captures).result with
  | error fault =>
    simp only [outcome] at answers
    cases answers
  | ok found =>
    simp only [outcome] at answers
    cases answers
    exact keeps situation.stream situation.memory.captures

namespace Rule

open Run

variable {world : World} {rule rule' : Rule} {rules : List Rule} {situation situation' after : Situation}
  {found : Option Match} {captures : Captures} {place next : TokenStream} {result : Option TokenStream}

/-- Whether a rule captures nothing by itself: it is no capture rule, and it keeps captures if a caller supplies it. -/
def IsUncapturing (world : World) : Rule → Prop
  | .capture .. => False
  | .external number => ∀ supplied ∈ world.store.external? number, supplied.KeepsCaptures
  | _ => True

/-- A rule captures nothing when it reaches no capture. -/
def CapturesNothing (world : World) (rule : Rule) : Prop := rule.Throughout world (IsUncapturing world)

/-- The runs of a rule that reaches no capture keep captures. -/
theorem run_keepsCaptures (nothing : rule.CapturesNothing world) (fuel : Nat) :
    (rule.run world fuel).KeepsCaptures := by
  -- Rules may refer to each other in circles, so the induction is on the fuel and not on the rule.
  induction fuel generalizing rule with
  | zero =>
    intro situation answer after answers
    cases answers
  | succ fuel ih =>
    have uncapturing := nothing.here
    cases rule with
    | capture key inner => exact uncapturing.elim
    | external number =>
      intro situation answer after answers
      rw [run, step] at answers
      cases supplies : world.store.external? number with
      | none =>
        simp only [supplies] at answers
        cases answers
        rfl
      | some supplied =>
        simp only [supplies] at answers
        exact leaveToCaller_keepsCaptures (uncapturing supplied supplies) _ _ _ answers
    | _ =>
      exact Attempt.keepsCaptures_compositional.settle _ (Attempt.keepsCaptures_compositional.body fuel (by simp)
        fun inner refers _ => ih (nothing.of_refers refers)) ()

/-- A rule is steady when it is sound and reaches no capture. -/
structure IsSteady (world : World) (rule : Rule) : Prop where
  sound : rule.IsSound world
  capturesNothing : rule.CapturesNothing world

theorem isSound_of_isSteady (steady : ∀ member ∈ rules, member.IsSteady world) :
    ∀ member ∈ rules, member.IsSound world := fun member inside => (steady member inside).sound

theorem IsSteady.captures_eq (steady : rule.IsSteady world) (yields : rule.Yields world situation found after) :
    after.memory.captures = situation.memory.captures := by
  obtain ⟨fuel, answers⟩ := yields
  exact run_keepsCaptures steady.capturesNothing fuel _ _ _ answers

/-- Where the stream and the captures are the same, a rule yields the same. -/
theorem Yields.inScene (yields : rule.Yields world situation found after) (same : situation.SameScene situation') :
    ∃ after', rule.Yields world situation' found after' ∧ after.SameScene after' := by
  obtain ⟨fuel, answers⟩ := yields
  obtain ⟨_, after', answers', rfl, sameAfter⟩ := (run_ignoresNotices world rule fuel).refinedBy same answers
  exact ⟨after', ⟨fuel, answers'⟩, sameAfter⟩

/-- Whether a rule stands for other rules instead of showing them. -/
def standsForOthers : Rule → Bool
  | .named _ | .selfReferring _ | .lazy _ | .reference .. => true
  | _ => false

/-- A rule reaches no capture if it captures nothing by itself and the rules that it shows reach none. -/
theorem capturesNothing_of_children (shows : rule.standsForOthers = false) (uncapturing : rule.IsUncapturing world)
    (parts : ∀ part ∈ rule.children world.store, part.CapturesNothing world) : rule.CapturesNothing world := by
  refine Throughout.of_parts uncapturing fun inner refers => ?_
  cases refers with
  | shown child => exact parts inner child
  | _ => cases shows

/-- From a place and with captures, a rule goes to the place behind what it takes, or to none if it fails. -/
def GoesTo (world : World) (rule : Rule) (captures : Captures) (place : TokenStream) (result : Option TokenStream) :
    Prop :=
  ∃ notices found after, rule.Yields world ⟨place, captures, notices⟩ found after ∧
    result = found.map fun _ => after.stream

theorem Yields.goesTo (yields : rule.Yields world situation found after) :
    rule.GoesTo world situation.memory.captures situation.stream (found.map fun _ => after.stream) :=
  ⟨situation.memory.notices, found, after, yields, rfl⟩

/-- Where a rule goes it yields, whatever was noticed before. -/
theorem GoesTo.exists_yields (goes : rule.GoesTo world captures place result) (notices : List Notice) :
    ∃ found after, rule.Yields world ⟨place, captures, notices⟩ found after ∧
      result = found.map fun _ => after.stream := by
  obtain ⟨earlier, found, after, yields, rfl⟩ := goes
  have same : Situation.SameScene ⟨place, captures, earlier⟩ ⟨place, captures, notices⟩ := ⟨rfl, rfl⟩
  obtain ⟨after', yields', same⟩ := yields.inScene same
  exact ⟨found, after', yields', by rw [same.stream_eq]⟩

theorem GoesTo.unique {other : Option TokenStream} (goes : rule.GoesTo world captures place result)
    (goes' : rule.GoesTo world captures place other) : result = other := by
  obtain ⟨notices, found, after, yields, rfl⟩ := goes
  obtain ⟨found', after', yields', rfl⟩ := goes'.exists_yields notices
  obtain ⟨rfl, rfl⟩ := yields.unique yields'
  rfl

section Steady

variable (steady : rule.IsSteady world)
include steady

/-- A steady rule goes to no place where it fails, and leaves the stream and the captures. -/
theorem IsSteady.goesTo_none_iff :
    rule.GoesTo world captures place none ↔
      ∀ notices, ∃ notices', rule.Yields world ⟨place, captures, notices⟩ none ⟨place, captures, notices'⟩ := by
  constructor
  · intro goes notices
    obtain ⟨found, ⟨stream, kept, notices'⟩, yields, none_eq⟩ := goes.exists_yields notices
    obtain rfl := Option.map_eq_none_iff.mp none_eq.symm
    obtain rfl : stream = place := steady.sound.settles yields
    obtain rfl : kept = captures := steady.captures_eq yields
    exact ⟨notices', yields⟩
  · intro yields
    obtain ⟨notices', yields⟩ := yields []
    exact yields.goesTo

/-- A steady rule goes to the place behind its match and leaves the captures. -/
theorem IsSteady.goesTo_some_iff :
    rule.GoesTo world captures place (some next) ↔
      ∀ notices, ∃ found notices', rule.Yields world ⟨place, captures, notices⟩ (some found)
        ⟨next, captures, notices'⟩ := by
  constructor
  · intro goes notices
    obtain ⟨found, ⟨stream, kept, notices'⟩, yields, some_eq⟩ := goes.exists_yields notices
    obtain ⟨found, rfl, rfl⟩ := Option.map_eq_some_iff.mp some_eq.symm
    obtain rfl : kept = captures := steady.captures_eq yields
    exact ⟨found, notices', yields⟩
  · intro yields
    obtain ⟨found, notices', yields⟩ := yields []
    exact yields.goesTo

/-- A steady rule reads on the way to the place behind. -/
theorem IsSteady.reads (goes : rule.GoesTo world captures place (some next)) : ∃ tokens, place.Reads tokens next := by
  obtain ⟨found, notices', yields⟩ := steady.goesTo_some_iff.mp goes []
  have spans : found.Spans place next := steady.sound.settles yields
  exact ⟨found.tokens, spans.reads⟩

/-- Where it terminates, a steady rule goes to a place or to none. -/
theorem IsSteady.exists_goesTo (terminates : rule.Terminates world situation) :
    ∃ result, rule.GoesTo world situation.memory.captures situation.stream result := by
  obtain ⟨found, after, yields⟩ := steady.sound.terminates_iff.mp terminates
  exact ⟨_, yields.goesTo⟩

/-- A steady rule stays or leads farther on, if it goes anywhere. -/
theorem IsSteady.stays_or_moves (goes : rule.GoesTo world captures place (some next)) :
    next = place ∨ place.index < next.index := by
  obtain ⟨found, notices, yields⟩ := steady.goesTo_some_iff.mp goes []
  have spans : found.Spans place next := steady.sound.settles yields
  cases zeroWidth : found.isZeroWidth with
  | true => exact .inl (spans.isZeroWidth_iff.mp zeroWidth)
  | false => exact .inr (spans.isZeroWidth_eq_false_iff.mp zeroWidth)

theorem IsSteady.tokens_eq (goes : rule.GoesTo world captures place (some next)) : next.tokens = place.tokens := by
  obtain ⟨tokens, reads⟩ := steady.reads goes
  exact reads.tokens_eq

/-- Farther on less is left of the stream. -/
theorem IsSteady.left_lt (goes : rule.GoesTo world captures place (some next)) (moves : place.index < next.index) :
    next.size - next.index < place.size - place.index := by
  obtain ⟨tokens, reads⟩ := steady.reads goes
  have same : next.size = place.size := by
    rw [TokenStream.size_eq_length, reads.tokens_eq, ← TokenStream.size_eq_length]
  have inside := reads.index_le_size
  omega

/-- What holds of a place as soon as it holds of the places that a steady rule leads on to holds of every place. -/
@[elab_as_elim]
theorem IsSteady.onward {motive : TokenStream → Prop} (captures : Captures) (place : TokenStream)
    (step : ∀ place, (∀ next, rule.GoesTo world captures place (some next) → place.index < next.index →
      motive next) → motive place) : motive place := by
  induction left_eq : place.size - place.index using Nat.strongRecOn generalizing place with
  | _ left ih => exact step place fun next goes moves => ih _ (left_eq ▸ steady.left_lt goes moves) next rfl

/-- A steady rule leads farther on only where a visible token is ahead. -/
theorem IsSteady.hasMore_of_moves (goes : rule.GoesTo world captures place (some next))
    (moves : place.index < next.index) : place.hasMore = true := by
  obtain ⟨tokens, reads⟩ := steady.reads goes
  cases reads with
  | nil => exact absurd moves (Nat.lt_irrefl _)
  | cons read rest =>
    rw [← place.isSome_read?, read]
    rfl

end Steady

/-- From a situation two rules answer alike when both of them answer, with matches that agree or without a match, and
leave the same place and the same captures. -/
def AnswersLike (world : World) (rule rule' : Rule) (situation : Situation) : Prop :=
  ∃ found after found' after', rule.Yields world situation found after ∧ rule'.Yields world situation found' after' ∧
    Option.Rel Match.Agrees found found' ∧ after.SameScene after'

/-- Steady rules that yield and go to the same place agree. -/
theorem agree_of_goesTo {found' : Option Match} {after' : Situation} (steady : rule.IsSteady world)
    (steady' : rule'.IsSteady world) (yields : rule.Yields world situation found after)
    (yields' : rule'.Yields world situation found' after')
    (together : (found.map fun _ => after.stream) = found'.map fun _ => after'.stream) :
    Option.Rel Match.Agrees found found' ∧ after.SameScene after' := by
  have settles := steady.sound.settles yields
  have settles' := steady'.sound.settles yields'
  have both : found.isSome = found'.isSome := by simpa using congrArg Option.isSome together
  have stream_eq : after.stream = after'.stream := by
    cases found with
    | none =>
      obtain rfl := Option.map_eq_none_iff.mp together.symm
      exact settles.trans settles'.symm
    | some found =>
      obtain ⟨found', rfl, same⟩ := Option.map_eq_some_iff.mp together.symm
      exact same.symm
  have kept : after.memory.captures = after'.memory.captures :=
    (steady.captures_eq yields).trans (steady'.captures_eq yields').symm
  exact ⟨settles.agree settles' both stream_eq, stream_eq, kept⟩

theorem answersLike_of_goesTo (steady : rule.IsSteady world) (steady' : rule'.IsSteady world)
    (goes : rule.GoesTo world situation.memory.captures situation.stream result)
    (goes' : rule'.GoesTo world situation.memory.captures situation.stream result) :
    rule.AnswersLike world rule' situation := by
  obtain ⟨found, after, yields, rfl⟩ := goes.exists_yields situation.memory.notices
  obtain ⟨found', after', yields', together⟩ := goes'.exists_yields situation.memory.notices
  exact ⟨found, after, found', after', yields, yields', agree_of_goesTo steady steady' yields yields' together⟩

/-- A steady rule is refined by a steady rule that goes wherever it goes itself. -/
theorem refinedBy_of_goesTo (steady : rule.IsSteady world) (steady' : rule'.IsSteady world)
    (goes : ∀ {captures place result}, rule.GoesTo world captures place result →
      rule'.GoesTo world captures place result) : rule.RefinedBy world rule' := by
  intro situation found after yields
  obtain ⟨found', after', yields', together⟩ := (goes yields.goesTo).exists_yields situation.memory.notices
  exact ⟨found', after', yields', agree_of_goesTo steady steady' yields yields' together⟩

/-- Steady rules that go to the same places act alike. -/
theorem actsAs_of_goesTo_iff (steady : rule.IsSteady world) (steady' : rule'.IsSteady world)
    (same : ∀ {captures place result}, rule.GoesTo world captures place result ↔
      rule'.GoesTo world captures place result) : rule.ActsAs world rule' where
  refinedBy := refinedBy_of_goesTo steady steady' same.mp
  refines := refinedBy_of_goesTo steady' steady same.mpr

/-- A built-in rule that reaches no capture is steady. -/
theorem BuiltIn.isSteady (builtIn : rule.BuiltIn world) (uncapturing : rule.Throughout world (IsUncapturing world)) :
    rule.IsSteady world := ⟨builtIn.isSound, uncapturing⟩

end Rule

namespace Brackets

/-- What the rule of nested brackets reaches is steady. -/
theorem steady_of_reaches {rule : Rule} (reaches : nested.Reaches world rule) : rule.IsSteady world := by
  have uncapturing : nested.Throughout world (Rule.IsUncapturing world) :=
    nested_throughout (by simp [members, nested, pair, taking, Rule.IsUncapturing])
  have throughout {property : Rule → Prop} (all : nested.Throughout world property) : rule.Throughout world property :=
    fun inner further => all inner (reaches.trans further)
  exact Rule.BuiltIn.isSteady (throughout nested_builtIn) (throughout uncapturing)

theorem nested_steady : nested.IsSteady world := steady_of_reaches .refl

theorem pair_steady_parts : ∀ part ∈ [taking opening, .optional nested false, taking closing], part.IsSteady world := by
  intro part child
  have content : nested.Refers world pair := .selfReferring rfl
  have shown : pair.Refers world part := .shown (by simpa [pair, nested] using child)
  exact steady_of_reaches (.tail (.single content) shown)

end Brackets

end TokenGrammar
