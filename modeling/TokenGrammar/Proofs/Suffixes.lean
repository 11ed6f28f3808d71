import TokenGrammar.Proofs.Shadows

namespace TokenGrammar

/-- Whether a rule itself looks at what is behind its place, in either polarity. -/
def Rule.looksBack : Rule → Bool
  | .lookaround .behind .. | .anchor .startDocument _ | .anchor .startLine _ => true
  | _ => false

namespace TokenStream

/-- The start of the tokens from a place on; those before it are removed. -/
def suffix (stream : TokenStream) : TokenStream := ofTokens (stream.tokens.drop stream.index)

@[simp] theorem remaining_suffix (stream : TokenStream) : stream.suffix.remaining = stream.remaining := by
  rw [suffix, TokenStream.tokens, stream.index_eq, ← List.length_reverse, List.drop_left]
  rfl

@[simp] theorem index_suffix (stream : TokenStream) : stream.suffix.index = 0 := rfl

/-- Two places with the same tokens ahead. -/
def SameAhead (start start' : TokenStream) : Prop := start.remaining = start'.remaining

namespace SameAhead

variable {start start' : TokenStream}

theorem suffix (start : TokenStream) : SameAhead start start.suffix := start.remaining_suffix.symm

theorem reads (same : SameAhead start start') :
    Option.Rel (fun next next' => next.1 = next'.1 ∧ SameAhead next.2 next'.2) start.read? start'.read? := by
  have ahead : start.remaining = start'.remaining := same
  simp only [read?, current?, shadows, ahead]
  cases start'.remaining.find? Token.isVisible with
  | none => exact .none
  | some token =>
    refine .some ⟨rfl, ?_⟩
    rw [SameAhead, remaining_forward, remaining_forward, ahead]

theorem hasMore_eq (same : SameAhead start start') : start.hasMore = start'.hasMore :=
  congrArg (fun tokens => tokens.any Token.isVisible) same

theorem ahead?_eq (same : SameAhead start start') (number : Nat) : start.ahead? number = start'.ahead? number :=
  congrArg (fun tokens => visibleAt? tokens number) same

/-- The ends of documents and lines are found by looking ahead only. -/
theorem holds_eq (same : SameAhead start start') {anchor : Anchor} (notDocument : anchor ≠ .startDocument)
    (notLine : anchor ≠ .startLine) : anchor.holds start = anchor.holds start' := by
  cases anchor with
  | startDocument => exact absurd rfl notDocument
  | startLine => exact absurd rfl notLine
  | endDocument => rw [Anchor.holds, Anchor.holds, same.hasMore_eq]
  | endLine => rw [Anchor.holds, Anchor.holds, Anchor.atLineEnd, Anchor.atLineEnd, same.ahead?_eq, same.ahead?_eq]

end SameAhead

/-- As many tokens are passed over on a stretch as there are fewer ahead behind it. -/
theorem Reads.size_eq {start finish : TokenStream} {tokens : List Token} (reads : start.Reads tokens finish) :
    finish.size = start.size := by
  rw [size_eq_length, size_eq_length, reads.tokens_eq]

end TokenStream

/-- Places with the same tokens ahead are alike to the rules that do not look back. -/
def Likeness.ahead (world : World) : Likeness world :=
  { Likeness.besidesShadows world with
    place := TokenStream.SameAhead
    admits := fun rule => rule.looksBack = false
    reads := fun same => same.reads
    accepts := fun _ same => congrArg _ same
    members := fun same => by
      rw [show _ = _ from same]
      exact rel_self (fun _ => rfl) _
    behind := fun admitted _ => absurd admitted Bool.noConfusion
    holds := fun admitted same => same.holds_eq (fun document => by simp [document, Rule.looksBack] at admitted)
      fun line => by simp [line, Rule.looksBack] at admitted
    resolve := fun {_ _ _} _ same => (Likeness.besidesShadows world).resolve trivial same }

namespace Rule

variable {world : World} {rule : Rule} {stream : TokenStream} {memory : Memory} {found found' : Option Match}
  {after after' : Situation}

/-- An answer is shifted by an offset from another one when both match or both do not, the stretch of the one begins and
ends so much farther on, and both take the same tokens. -/
inductive ShiftedBy (offset : Nat) : Option Match → Option Match → Prop
  | none : ShiftedBy offset none none
  | some {found found' : Match} {start finish : Nat} (start_eq : found.start = .ofNat (start + offset))
      (finish_eq : found.finish = .ofNat (finish + offset)) (start_eq' : found'.start = .ofNat start)
      (finish_eq' : found'.finish = .ofNat finish) (tokens_eq : found.tokens = found'.tokens)
      (rule_eq : found.rule = found'.rule) : ShiftedBy offset (some found) (some found')

/-- Alike answers from a place and from the start of what is ahead of it are shifted by the index of the place. -/
theorem shiftedBy_of_alike (settles : Run.Settles stream found after) (settles' : Run.Settles stream.suffix found' after')
    (together : Option.Rel (Likeness.ahead world).Matches found found')
    (alike : (Likeness.ahead world).Alike after after') : ShiftedBy stream.index found found' := by
  cases together with
  | none => exact .none
  | @some found found' alikeMatches =>
    have spans : found.Spans stream after.stream := settles
    have spans' : found'.Spans stream.suffix after'.stream := settles'
    have size : after.stream.size = stream.size := spans.reads.size_eq
    have size' : after'.stream.size = stream.suffix.size := spans'.reads.size_eq
    have ahead : after.stream.remaining = after'.stream.remaining := alike.place
    have finish_eq : after.stream.index = after'.stream.index + stream.index := by
      simp only [TokenStream.size, TokenStream.remaining_suffix, TokenStream.index_suffix, ahead] at size size'
      omega
    refine .some ?_ ?_ spans'.start_eq spans'.finish_eq ?_ alikeMatches.2
    · rw [spans.start_eq, TokenStream.index_suffix, Nat.zero_add]
    · rw [spans.finish_eq, finish_eq]
    · exact (List.forall₂_eq_eq_eq ▸ alikeMatches.1 : found.tokens = found'.tokens)

/-- A built-in rule that reaches none that looks back yields at a place what it yields at the start of the tokens from
there on, in both directions: a match is shifted by the index of the place, and the memory left behind is the same. -/
theorem match_on_suffix (builtIn : rule.BuiltIn world) (forward : rule.Throughout world fun inner => inner.looksBack = false)
    (stream : TokenStream) (memory : Memory) :
    (∀ found after, rule.Yields world ⟨stream, memory⟩ found after →
      ∃ found' after', rule.Yields world ⟨stream.suffix, memory⟩ found' after' ∧
        ShiftedBy stream.index found found' ∧ after'.memory = after.memory) ∧
    (∀ found' after', rule.Yields world ⟨stream.suffix, memory⟩ found' after' →
      ∃ found after, rule.Yields world ⟨stream, memory⟩ found after ∧
        ShiftedBy stream.index found found' ∧ after'.memory = after.memory) := by
  have alike : (Likeness.ahead world).Alike ⟨stream, memory⟩ ⟨stream.suffix, memory⟩ := ⟨.suffix stream, rfl, rfl⟩
  constructor
  · intro found after yields
    obtain ⟨found', after', yields', together, alikeAfter⟩ := yields.alike builtIn forward alike
    have shifted := shiftedBy_of_alike (builtIn.settles yields) (builtIn.settles yields') together alikeAfter
    exact ⟨found', after', yields', shifted, (Memory.ext alikeAfter.captures alikeAfter.notices).symm⟩
  · intro found' after' yields'
    obtain ⟨found, after, yields, together, alikeAfter⟩ := yields'.alike_symm builtIn forward alike
    have shifted := shiftedBy_of_alike (builtIn.settles yields) (builtIn.settles yields') together alikeAfter
    exact ⟨found, after, yields, shifted, (Memory.ext alikeAfter.captures alikeAfter.notices).symm⟩

/-- The inner pair of brackets is matched behind the outer bracket as it is matched without what is before. -/
theorem nested_matches_on_suffix :
    Brackets.nested.BuiltIn Brackets.world ∧
      (Brackets.nested.Throughout Brackets.world fun inner => inner.looksBack = false) ∧
      ∃ found found' after', Brackets.nested.Yields Brackets.world ⟨(Brackets.stream.forward 2).suffix, {}⟩ found' after' ∧
        ShiftedBy 2 (some found) found' ∧ found.tokens.length = 2 := by
  have forward : Brackets.nested.Throughout Brackets.world fun inner => inner.looksBack = false :=
    Brackets.nested_throughout (by simp [Brackets.members, Brackets.nested, Brackets.pair, Brackets.taking, looksBack])
  obtain ⟨found, after, yields, count⟩ :=
    exists_yields_of_count Brackets.world Brackets.nested 9 2 (Brackets.stream.forward 2) (by decide +kernel)
  obtain ⟨found', after', yields', shifted, -⟩ :=
    (match_on_suffix Brackets.nested_builtIn forward (Brackets.stream.forward 2) {}).1 _ _ yields
  exact ⟨Brackets.nested_builtIn, forward, found, found', after', yields', shifted, count⟩

end Rule

end TokenGrammar
