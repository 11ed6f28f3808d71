import TokenGrammar.Proofs.Likeness.Rules
import TokenGrammar.Proofs.Safety

namespace TokenGrammar

namespace TokenStream

/-- The number of visible tokens before an index. -/
def visibleBefore (tokens : List Token) (index : Nat) : Nat := ((tokens.take index).filter Token.isVisible).length

/-- The stream of the visible tokens only, at the place behind as many of them. -/
def withoutShadows (stream : TokenStream) : TokenStream :=
  (ofTokens (stream.tokens.filter Token.isVisible)).forward (visibleBefore stream.tokens stream.index)

theorem visibleBefore_index (stream : TokenStream) :
    visibleBefore stream.tokens stream.index = (stream.passed.filter Token.isVisible).length := by
  have before : stream.tokens.take stream.index = stream.passed.reverse := by
    rw [TokenStream.tokens, stream.index_eq, ← stream.passed.length_reverse, List.take_left]
  rw [visibleBefore, before, List.filter_reverse, List.length_reverse]

theorem tokens_filter (stream : TokenStream) :
    stream.tokens.filter Token.isVisible =
      (stream.passed.filter Token.isVisible).reverse ++ stream.remaining.filter Token.isVisible := by
  simp [TokenStream.tokens]

@[simp] theorem passed_withoutShadows (stream : TokenStream) :
    stream.withoutShadows.passed = stream.passed.filter Token.isVisible := by
  rw [withoutShadows, visibleBefore_index, tokens_filter, ← List.length_reverse]
  simp [ofTokens]

@[simp] theorem remaining_withoutShadows (stream : TokenStream) :
    stream.withoutShadows.remaining = stream.remaining.filter Token.isVisible := by
  rw [withoutShadows, visibleBefore_index, tokens_filter, ← List.length_reverse]
  simp [ofTokens]

@[simp] theorem tokens_withoutShadows (stream : TokenStream) :
    stream.withoutShadows.tokens = stream.tokens.filter Token.isVisible := by
  simp [withoutShadows]

theorem index_withoutShadows (stream : TokenStream) :
    stream.withoutShadows.index = visibleBefore stream.tokens stream.index := by
  rw [index_eq, passed_withoutShadows, visibleBefore_index]

/-- Two places among the same visible tokens. -/
def AlikeBesidesShadows (start start' : TokenStream) : Prop :=
  start.passed.filter Token.isVisible = start'.passed.filter Token.isVisible ∧
    start.remaining.filter Token.isVisible = start'.remaining.filter Token.isVisible

namespace AlikeBesidesShadows

variable {start start' : TokenStream}

theorem refl (start : TokenStream) : AlikeBesidesShadows start start := ⟨rfl, rfl⟩

theorem withoutShadows (start : TokenStream) : AlikeBesidesShadows start start.withoutShadows := by
  simp [AlikeBesidesShadows]

theorem reads (alike : AlikeBesidesShadows start start') :
    Option.Rel (fun next next' => next.1 = next'.1 ∧ AlikeBesidesShadows next.2 next'.2) start.read? start'.read? := by
  cases read : start.read? with
  | none =>
    have ended := read?_eq_none_iff_filter.mp read
    rw [alike.2] at ended
    rw [read?_eq_none_iff_filter.mpr ended]
    exact .none
  | some next =>
    obtain ⟨remaining, passed⟩ := filter_of_read? read
    cases read' : start'.read? with
    | none =>
      have ended := read?_eq_none_iff_filter.mp read'
      rw [← alike.2, remaining] at ended
      cases ended
    | some next' =>
      obtain ⟨remaining', passed'⟩ := filter_of_read? read'
      have same := alike.2
      rw [remaining, remaining'] at same
      obtain ⟨token_eq, rest_eq⟩ := List.cons.inj same
      refine .some ⟨token_eq, ?_, rest_eq⟩
      rw [passed, passed', alike.1, token_eq]

theorem lookbehind (alike : AlikeBesidesShadows start start') :
    AlikeBesidesShadows start.lookbehind start'.lookbehind := ⟨rfl, alike.1⟩

theorem ahead? (alike : AlikeBesidesShadows start start') (number : Nat) :
    start.ahead? number = start'.ahead? number := by
  rw [TokenStream.ahead?, TokenStream.ahead?, visibleAt?_eq, visibleAt?_eq, alike.2]

theorem previous? (alike : AlikeBesidesShadows start start') : start.previous? = start'.previous? := by
  rw [TokenStream.previous?, TokenStream.previous?, behind?, behind?, visibleAt?_eq, visibleAt?_eq, alike.1]

theorem hasMore (alike : AlikeBesidesShadows start start') : start.hasMore = start'.hasMore := by
  rw [← isSome_read?, ← isSome_read?]
  exact isSome_eq_of_rel alike.reads

theorem holds (alike : AlikeBesidesShadows start start') (anchor : Anchor) :
    anchor.holds start = anchor.holds start' := by
  cases anchor with
  | startDocument => rw [Anchor.holds, Anchor.holds, alike.previous?]
  | endDocument => rw [Anchor.holds, Anchor.holds, alike.hasMore]
  | startLine =>
    rw [Anchor.holds, Anchor.holds, Anchor.atLineStart, Anchor.atLineStart, alike.previous?, alike.ahead?]
  | endLine =>
    rw [Anchor.holds, Anchor.holds, Anchor.atLineEnd, Anchor.atLineEnd, alike.ahead?, alike.ahead?]

/-- Among visible tokens only there is one place that looks like a given place. -/
theorem eq_withoutShadows (alike : AlikeBesidesShadows start start')
    (visible : ∀ token ∈ start'.tokens, token.isVisible) : start' = start.withoutShadows := by
  have passed : start'.passed.filter Token.isVisible = start'.passed :=
    List.filter_eq_self.mpr fun token member => visible token (by simp [TokenStream.tokens, member])
  have remaining : start'.remaining.filter Token.isVisible = start'.remaining :=
    List.filter_eq_self.mpr fun token member => visible token (by simp [TokenStream.tokens, member])
  ext1
  · rw [passed_withoutShadows, alike.1, passed]
  · rw [remaining_withoutShadows, alike.2, remaining]

end AlikeBesidesShadows

end TokenStream

/-- Places among the same visible tokens are alike to all rules. -/
def Likeness.besidesShadows (world : World) : Likeness world where
  token := Eq
  place := TokenStream.AlikeBesidesShadows
  captures := Eq
  admits _ := True
  reads alike := alike.reads
  value same := congrArg Token.value same
  accepts _ same := by rw [same]
  members same := by
    rw [same]
    exact rel_self (fun inside => TokenStream.AlikeBesidesShadows.refl (.ofTokens inside)) _
  behind _ alike := alike.lookbehind
  holds _ alike := alike.holds _
  find key same := by
    rw [same, List.forall₂_eq_eq_eq]
    exact rel_self (fun _ => rfl) _
  keep key same taken := by
    rw [List.forall₂_eq_eq_eq] at taken
    rw [same, taken]
  resolve _ same := by
    rw [same]
    exact rel_self (DynamicBinding.Alike.refl fun _ => rfl) _

theorem Likeness.Alike.memory_eq {world : World} {situation situation' : Situation}
    (alike : (Likeness.besidesShadows world).Alike situation situation') : situation.memory = situation'.memory :=
  Memory.ext alike.captures alike.notices

namespace Rule

variable {world : World} {rule : Rule}

/-- An answer corresponds to an answer among the visible tokens when both match or both do not, with the same tokens
and with ends behind the same visible tokens. -/
inductive Corresponds (tokens : List Token) : Option Match → Option Match → Prop
  | none : Corresponds tokens none none
  | some {found found' : Match} {start finish : Nat} (start_eq : found.start = .ofNat start)
      (finish_eq : found.finish = .ofNat finish)
      (start_eq' : found'.start = .ofNat (TokenStream.visibleBefore tokens start))
      (finish_eq' : found'.finish = .ofNat (TokenStream.visibleBefore tokens finish))
      (tokens_eq : found'.tokens = found.tokens) (rule_eq : found'.rule = found.rule) :
      Corresponds tokens (some found) (some found')

variable {stream : TokenStream} {memory : Memory} {found found' : Option Match} {after after' : Situation}

theorem alike_withoutShadows (stream : TokenStream) (memory : Memory) :
    (Likeness.besidesShadows world).Alike ⟨stream, memory⟩ ⟨stream.withoutShadows, memory⟩ :=
  ⟨.withoutShadows stream, rfl, rfl⟩

/-- Alike answers from a stream and from the stream without its shadows correspond, and the stream without shadows
is left where the other one is. -/
theorem corresponds_of_alike (settles : Run.Settles stream found after)
    (settles' : Run.Settles stream.withoutShadows found' after')
    (together : Option.Rel (Likeness.besidesShadows world).Matches found found')
    (alike : (Likeness.besidesShadows world).Alike after after') :
    Corresponds stream.tokens found found' ∧ after'.stream = after.stream.withoutShadows := by
  cases together with
  | none =>
    have stays : after.stream = stream := settles
    have stays' : after'.stream = stream.withoutShadows := settles'
    exact ⟨.none, by rw [stays, stays']⟩
  | @some found found' alikeMatches =>
    have spans : found.Spans stream after.stream := settles
    have spans' : found'.Spans stream.withoutShadows after'.stream := settles'
    have visible : ∀ token ∈ after'.stream.tokens, token.isVisible := by
      intro token member
      rw [spans'.reads.tokens_eq, TokenStream.tokens_withoutShadows] at member
      exact (List.mem_filter.mp member).2
    have arrives : after'.stream = after.stream.withoutShadows := alike.place.eq_withoutShadows visible
    refine ⟨.some spans.start_eq spans.finish_eq ?_ ?_ ?_ alikeMatches.2.symm, arrives⟩
    · rw [spans'.start_eq, TokenStream.index_withoutShadows]
    · rw [spans'.finish_eq, arrives, TokenStream.index_withoutShadows, spans.reads.tokens_eq]
    · exact (List.forall₂_eq_eq_eq ▸ alikeMatches.1 : found.tokens = found'.tokens).symm

/-- A built-in rule yields among shadows what it yields without them, in both directions: a match takes the same
tokens, its ends are behind the same visible tokens, and the memory left behind is the same. -/
theorem match_besides_shadows (builtIn : rule.BuiltIn world) (stream : TokenStream) (memory : Memory) :
    (∀ found after, rule.Yields world ⟨stream, memory⟩ found after →
      ∃ found' after', rule.Yields world ⟨stream.withoutShadows, memory⟩ found' after' ∧
        Corresponds stream.tokens found found' ∧ after'.memory = after.memory ∧
        after'.stream = after.stream.withoutShadows) ∧
    (∀ found' after', rule.Yields world ⟨stream.withoutShadows, memory⟩ found' after' →
      ∃ found after, rule.Yields world ⟨stream, memory⟩ found after ∧
        Corresponds stream.tokens found found' ∧ after'.memory = after.memory ∧
        after'.stream = after.stream.withoutShadows) := by
  have admitted : rule.Throughout world (Likeness.besidesShadows world).admits := fun _ _ => trivial
  have alike : (Likeness.besidesShadows world).Alike ⟨stream, memory⟩ ⟨stream.withoutShadows, memory⟩ :=
    alike_withoutShadows stream memory
  constructor
  · intro found after yields
    obtain ⟨found', after', yields', together, alikeAfter⟩ := yields.alike builtIn admitted alike
    obtain ⟨corresponds, arrives⟩ :=
      corresponds_of_alike (builtIn.settles yields) (builtIn.settles yields') together alikeAfter
    exact ⟨found', after', yields', corresponds, alikeAfter.memory_eq.symm, arrives⟩
  · intro found' after' yields'
    obtain ⟨found, after, yields, together, alikeAfter⟩ := yields'.alike_symm builtIn admitted alike
    obtain ⟨corresponds, arrives⟩ :=
      corresponds_of_alike (builtIn.settles yields) (builtIn.settles yields') together alikeAfter
    exact ⟨found, after, yields, corresponds, alikeAfter.memory_eq.symm, arrives⟩

theorem nested_matches_without_shadows :
    Brackets.nested.BuiltIn Brackets.world ∧
      ∃ found found' after', Brackets.nested.Yields Brackets.world ⟨Brackets.stream.withoutShadows, {}⟩ found' after' ∧
        Corresponds Brackets.stream.tokens found found' ∧ found.isSome := by
  obtain ⟨found, answers, -⟩ := Brackets.nested_answers
  obtain ⟨after, yields⟩ := exists_yields_of_answer answers
  obtain ⟨found', after', yields', corresponds, -⟩ :=
    (match_besides_shadows Brackets.nested_builtIn Brackets.stream {}).1 _ _ yields
  exact ⟨Brackets.nested_builtIn, some found, found', after', yields', corresponds, rfl⟩

end Rule

end TokenGrammar
