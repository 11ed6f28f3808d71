/-
This file says when tokens, places of streams and captures look alike to rules.
A likeness that survives reading and keeping is kept by every built-in rule.
-/

import Mathlib.Data.List.Forall2
import Mathlib.Data.Option.Basic
import TokenGrammar.Proofs.Fuel
import TokenGrammar.Proofs.Span

namespace TokenGrammar

/-- Two bindings are alike when they are one rule or alike tokens. -/
inductive DynamicBinding.Alike (token : Token → Token → Prop) : DynamicBinding → DynamicBinding → Prop
  | rule (target : Rule) : Alike token (.rule target) (.rule target)
  | tokens {expected expected' : List Token} (alike : List.Forall₂ token expected expected') :
      Alike token (.tokens expected) (.tokens expected')

theorem DynamicBinding.Alike.refl {token : Token → Token → Prop} (same : ∀ seen, token seen seen)
    (binding : DynamicBinding) : binding.Alike token binding := by
  cases binding with
  | rule target => exact .rule target
  | tokens expected => exact .tokens (List.forall₂_same.mpr fun seen _ => same seen)

theorem isSome_eq_of_rel {α β : Type} {related : α → β → Prop} {first : Option α} {second : Option β}
    (together : Option.Rel related first second) : first.isSome = second.isSome := by
  cases together <;> rfl

theorem rel_self {α : Type} {related : α → α → Prop} (same : ∀ value, related value value) (value : Option α) :
    Option.Rel related value value := by
  cases value with
  | none => exact .none
  | some value => exact .some (same value)

/-- What looks alike to the rules of a world that are admitted. -/
structure Likeness (world : World) where
  token : Token → Token → Prop
  place : TokenStream → TokenStream → Prop
  captures : Captures → Captures → Prop
  admits : Rule → Prop
  reads : ∀ {start start'}, place start start' →
    Option.Rel (fun next next' => token next.1 next'.1 ∧ place next.2 next'.2) start.read? start'.read?
  value : ∀ {seen seen'}, token seen seen' → seen.value = seen'.value
  accepts : ∀ {test negated seen seen'}, admits (.matcher test negated) → token seen seen' →
    test.accepts seen = test.accepts seen'
  members : ∀ {seen seen'}, token seen seen' →
    Option.Rel (fun inside inside' => place (.ofTokens inside) (.ofTokens inside')) seen.unwrap.members?
      seen'.unwrap.members?
  behind : ∀ {rule negative start start'}, admits (.lookaround .behind rule negative) → place start start' →
    place start.lookbehind start'.lookbehind
  holds : ∀ {anchor negated start start'}, admits (.anchor anchor negated) → place start start' →
    anchor.holds start = anchor.holds start'
  find : ∀ {kept kept' : Captures} (key), captures kept kept' →
    Option.Rel (List.Forall₂ token) (kept.find? key) (kept'.find? key)
  keep : ∀ {kept kept' : Captures} {tokens tokens'} (key), captures kept kept' → List.Forall₂ token tokens tokens' →
    captures (kept.keep key tokens) (kept'.keep key tokens')
  resolve : ∀ {key kept kept'}, admits (.reference key .dynamic) → captures kept kept' →
    Option.Rel (DynamicBinding.Alike token) (world.bindings.resolve? key kept) (world.bindings.resolve? key kept')

namespace Likeness

variable {world : World} (likeness : Likeness world)

/-- Two situations are alike when their places and captures are and the same was noticed in both. -/
structure Alike (situation situation' : Situation) : Prop where
  place : likeness.place situation.stream situation'.stream
  captures : likeness.captures situation.memory.captures situation'.memory.captures
  notices : situation.memory.notices = situation'.memory.notices

/-- Two matches are alike when they take alike tokens for the same rule. -/
def Matches (found found' : Match) : Prop :=
  List.Forall₂ likeness.token found.tokens found'.tokens ∧ found.rule = found'.rule

/-- Two outcomes agree when both answer alike or both run out of fuel; nothing is said of faults. -/
inductive Agree {α : Type} (related : α → α → Prop) : Outcome α → Outcome α → Prop
  | answers {answer answer' : α} {after after' : Situation} (answered : related answer answer')
      (alike : likeness.Alike after after') : Agree related (.ok answer after) (.ok answer' after')
  | exhausted {after after' : Situation} : Agree related (.error .exhausted after) (.error .exhausted after')
  | faultLeft {fault : Fault} {after : Situation} (outcome : Outcome α) :
      Agree related (.error (.fault fault) after) outcome
  | faultRight {fault : Fault} {after : Situation} (outcome : Outcome α) :
      Agree related outcome (.error (.fault fault) after)

/-- Two attempts are related when they agree in alike situations. -/
def Relates {α : Type} (related : α → α → Prop) (attempt attempt' : Attempt α) : Prop :=
  ∀ situation situation', likeness.Alike situation situation' →
    likeness.Agree related (attempt situation) (attempt' situation')

/-- A run keeps a likeness when it matches alike in alike situations. -/
def Keeps (run : Run) : Prop := likeness.Relates (Option.Rel likeness.Matches) run run

variable {likeness} {α β : Type} {related : α → α → Prop} {related' : β → β → Prop} {attempt attempt' : Attempt α}
  {next next' : α → Attempt β} {situation situation' : Situation}

/-- Attempts that agree are followed by attempts that agree. -/
theorem Agree.bind (first : likeness.Agree related (attempt situation) (attempt' situation'))
    (second : ∀ answer answer', related answer answer' → likeness.Relates related' (next answer) (next' answer')) :
    likeness.Agree related' ((attempt >>= next) situation) ((attempt' >>= next') situation') := by
  rw [Stateful.bind_apply, Stateful.bind_apply]
  generalize attempt situation = outcome at first
  generalize attempt' situation' = outcome' at first
  cases first with
  | answers answered alike => exact second _ _ answered _ _ alike
  | exhausted => exact .exhausted
  | faultLeft => exact .faultLeft _
  | faultRight => exact .faultRight _

/-- Conditions that hold of the answers of both attempts can be used in relating what comes next. -/
theorem Agree.bind_meets {condition condition' : α → Situation → Prop}
    (first : likeness.Agree related (attempt situation) (attempt' situation'))
    (meets : Meets (attempt situation) condition) (meets' : Meets (attempt' situation') condition')
    (second : ∀ {answer after answer' after'}, related answer answer' → likeness.Alike after after' →
      condition answer after → condition' answer' after' →
      likeness.Agree related' (next answer after) (next' answer' after')) :
    likeness.Agree related' ((attempt >>= next) situation) ((attempt' >>= next') situation') := by
  rw [Stateful.bind_apply, Stateful.bind_apply]
  generalize attempt situation = outcome at first meets
  generalize attempt' situation' = outcome' at first meets'
  cases first with
  | answers answered alike => exact second answered alike meets meets'
  | exhausted => exact .exhausted
  | faultLeft => exact .faultLeft _
  | faultRight => exact .faultRight _

namespace Relates

theorem bind (first : likeness.Relates related attempt attempt')
    (second : ∀ answer answer', related answer answer' → likeness.Relates related' (next answer) (next' answer')) :
    likeness.Relates related' (attempt >>= next) (attempt' >>= next') :=
  fun situation situation' alike => (first situation situation' alike).bind second

theorem pure {answer answer' : α} (answered : related answer answer') :
    likeness.Relates related (pure answer) (pure answer') :=
  fun _ _ alike => .answers answered alike

theorem stream : likeness.Relates likeness.place Attempt.stream Attempt.stream :=
  fun _ _ alike => .answers alike.place alike

theorem captures : likeness.Relates likeness.captures Attempt.captures Attempt.captures :=
  fun _ _ alike => .answers alike.captures alike

theorem goTo {place place' : TokenStream} (alikePlaces : likeness.place place place') :
    likeness.Relates Eq (Attempt.goTo place) (Attempt.goTo place') :=
  fun _ _ alike => .answers rfl { alike with place := alikePlaces }

theorem setCaptures {kept kept' : Captures} (alikeCaptures : likeness.captures kept kept') :
    likeness.Relates Eq (Attempt.setCaptures kept) (Attempt.setCaptures kept') :=
  fun _ _ alike => .answers rfl { alike with captures := alikeCaptures }

theorem notice (noticed : Notice) : likeness.Relates Eq (Attempt.notice noticed) (Attempt.notice noticed) :=
  fun _ _ alike => .answers rfl { alike with notices := congrArg (noticed :: ·) alike.notices }

theorem exhaust : likeness.Relates related Attempt.exhaust Attempt.exhaust := fun _ _ _ => .exhausted

theorem ofResult {result result' : Except Fault α}
    (answered : ∀ answer answer', result = .ok answer → result' = .ok answer' → related answer answer') :
    likeness.Relates related (Attempt.ofResult result) (Attempt.ofResult result') := by
  intro situation situation' alike
  cases result with
  | error fault => exact .faultLeft _
  | ok answer =>
    cases result' with
    | error fault => exact .faultRight _
    | ok answer' => exact .answers (answered answer answer' rfl rfl) alike

theorem apart {view view' : TokenStream → TokenStream}
    (alikeViews : ∀ {start start'}, likeness.place start start' → likeness.place (view start) (view' start'))
    (inner : likeness.Relates related attempt attempt') :
    likeness.Relates related (Attempt.apart view attempt) (Attempt.apart view' attempt') := by
  intro situation situation' alike
  have agree := inner { situation with stream := view situation.stream }
    { situation' with stream := view' situation'.stream } { alike with place := alikeViews alike.place }
  rw [Attempt.apart_apply, Attempt.apart_apply]
  generalize attempt _ = outcome at agree
  generalize attempt' _ = outcome' at agree
  cases agree with
  | answers answered after => exact .answers answered { after with place := alike.place }
  | exhausted => exact .exhausted
  | faultLeft => exact .faultLeft _
  | faultRight => exact .faultRight _

/-- From alike places alike tokens are read. -/
theorem read : likeness.Relates likeness.token Attempt.read Attempt.read := by
  apply stream.bind
  intro start start' alike
  have first : likeness.Relates (fun next next' => likeness.token next.1 next'.1 ∧ likeness.place next.2 next'.2)
      (Attempt.ofResult start.read) (Attempt.ofResult start'.read) := by
    apply ofResult
    intro next next' found found'
    have together := likeness.reads alike
    unfold TokenStream.read at found found'
    generalize start.read? = result at together found
    generalize start'.read? = result' at together found'
    cases together with
    | none => cases found
    | some together =>
      cases found
      cases found'
      exact together
  exact first.bind fun _ _ related => (goTo related.2).bind fun _ _ _ => pure related.1

end Relates

theorem hasMore_eq {start start' : TokenStream} (alike : likeness.place start start') :
    start.hasMore = start'.hasMore := by
  rw [← start.isSome_read?, ← start'.isSome_read?]
  exact isSome_eq_of_rel (likeness.reads alike)

theorem current?_related {start start' : TokenStream} (alike : likeness.place start start') :
    Option.Rel likeness.token start.current? start'.current? := by
  have together := likeness.reads alike
  rw [start.current?_eq, start'.current?_eq]
  generalize start.read? = result at together ⊢
  generalize start'.read? = result' at together ⊢
  cases together with
  | none => exact .none
  | some together => exact .some together.1

/-- Stretches of the same number of tokens from alike places lead to alike places. -/
theorem finish_alike {start start' finish finish' : TokenStream} {tokens tokens' : List Token}
    (alike : likeness.place start start') (reads : start.Reads tokens finish) (reads' : start'.Reads tokens' finish')
    (same : tokens.length = tokens'.length) : likeness.place finish finish' := by
  induction reads generalizing start' tokens' with
  | nil place =>
    have taken : tokens' = [] := List.length_eq_zero_iff.mp same.symm
    subst taken
    rw [reads'.eq_of_nil]
    exact alike
  | @cons start next finish token tokens read rest ih =>
    cases reads' with
    | nil => cases same
    | @cons _ next' _ token' tokens' read' rest' =>
      have together := likeness.reads alike
      rw [read, read'] at together
      cases together with
      | some together => exact ih together.2 rest' (Nat.succ.inj same)

end Likeness

end TokenGrammar
