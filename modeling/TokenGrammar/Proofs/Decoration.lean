import TokenGrammar.Proofs.Likeness.Rules
import TokenGrammar.Proofs.Safety

namespace TokenGrammar

namespace Token

/-- A token decorated with any number of annotations and numbers, one around the other. -/
inductive Decorated (token : Token) : Token → Prop
  | bare : Decorated token token
  | annotated {inner : Token} (metadata : Fields) (decorated : Decorated token inner) :
      Decorated token (inner.annotate metadata)
  | numbered {inner outer : Token} {ordinal : Number} (decorated : Decorated token inner)
      (made : inner.number ordinal = .ok outer) : Decorated token outer

/-- A token and the token in its place, which is a decoration of it if rules can see it, and the same token
otherwise. -/
def SameBesidesDecoration (token token' : Token) : Prop :=
  token' = token ∨ token.isVisible = true ∧ token.Decorated token'

variable {token token' outer : Token}

/-- To number a token is to put a number around it. -/
theorem eq_indexed_of_number {ordinal : Number} (made : token.number ordinal = .ok outer) :
    outer = .indexed token.types token ordinal := by
  obtain ⟨-, made⟩ := check_bind_eq_ok_iff.mp made
  cases made
  rfl

/-- Two tokens show the same to rules when they agree in all that built-in rules look at. -/
structure ShowsSame (token token' : Token) : Prop where
  value_eq : token.value = token'.value
  types_eq : token.types = token'.types
  position_eq : token.position = token'.position
  endPosition_eq : token.endPosition = token'.endPosition
  unwrap_eq : token.unwrap = token'.unwrap

/-- What a decoration shows is what the token inside shows. -/
theorem Decorated.showsSame (decorated : token.Decorated outer) : token.ShowsSame outer := by
  induction decorated with
  | bare => exact ⟨rfl, rfl, rfl, rfl, rfl⟩
  | annotated metadata _ ih =>
    exact ⟨ih.value_eq, ih.types_eq, ih.position_eq, ih.endPosition_eq, ih.unwrap_eq⟩
  | numbered _ made ih =>
    cases eq_indexed_of_number made
    exact ⟨ih.value_eq, ih.types_eq, ih.position_eq, ih.endPosition_eq, ih.unwrap_eq⟩

/-- A decoration of a visible token is visible. -/
theorem Decorated.isVisible (decorated : token.Decorated outer) (visible : token.isVisible = true) :
    outer.isVisible = true := by
  cases decorated with
  | bare => exact visible
  | annotated => rfl
  | numbered _ made =>
    cases eq_indexed_of_number made
    rfl

namespace SameBesidesDecoration

theorem refl (token : Token) : SameBesidesDecoration token token := .inl rfl

theorem showsSame (same : SameBesidesDecoration token token') : token.ShowsSame token' := by
  rcases same with rfl | ⟨-, decorated⟩
  · exact Decorated.bare.showsSame
  · exact decorated.showsSame

theorem isVisible_eq (same : SameBesidesDecoration token token') : token.isVisible = token'.isVisible := by
  rcases same with rfl | ⟨visible, decorated⟩
  · rfl
  · rw [visible, decorated.isVisible visible]

theorem decorated (same : SameBesidesDecoration token token') : token.Decorated token' := by
  rcases same with rfl | ⟨-, decorated⟩
  · exact .bare
  · exact decorated

/-- The tests of the library tell no token from its decoration; those that a caller supplies may. -/
theorem accepts_eq (test : TokenTest) (same : SameBesidesDecoration token token')
    (predicates : ∀ description predicate, test = .custom description predicate → predicate token = predicate token') :
    test.accepts token = test.accepts token' := by
  have shown := same.showsSame
  cases test with
  | value | pattern | length => simp only [TokenTest.accepts, shown.value_eq]
  | custom description predicate => exact predicates description predicate rfl
  | type wanted => simp only [TokenTest.accepts, shown.types_eq]

end SameBesidesDecoration

end Token

open Token (SameBesidesDecoration)

namespace TokenStream

/-- Two places with the same tokens behind and ahead of them, besides decorations. -/
structure AlikeBesidesDecoration (start start' : TokenStream) : Prop where
  passed : List.Forall₂ SameBesidesDecoration start.passed start'.passed
  remaining : List.Forall₂ SameBesidesDecoration start.remaining start'.remaining

namespace AlikeBesidesDecoration

variable {start start' : TokenStream} {tokens tokens' : List Token}

/-- Places of the same index among the same tokens besides decorations. -/
theorem of_index_eq (index_eq : start'.index = start.index)
    (same : List.Forall₂ SameBesidesDecoration start.tokens start'.tokens) : AlikeBesidesDecoration start start' := by
  have passed_eq (stream : TokenStream) : stream.tokens.take stream.index = stream.passed.reverse := by
    rw [TokenStream.tokens, stream.index_eq, ← stream.passed.length_reverse, List.take_left]
  have remaining_eq (stream : TokenStream) : stream.tokens.drop stream.index = stream.remaining := by
    rw [TokenStream.tokens, stream.index_eq, ← stream.passed.length_reverse, List.drop_left]
  have passed := List.forall₂_take start.index same
  have remaining := List.forall₂_drop start.index same
  rw [passed_eq, ← index_eq, passed_eq, List.forall₂_reverse_iff] at passed
  rw [remaining_eq, ← index_eq, remaining_eq] at remaining
  exact ⟨passed, remaining⟩

theorem ofTokens (same : List.Forall₂ SameBesidesDecoration tokens tokens') :
    AlikeBesidesDecoration (.ofTokens tokens) (.ofTokens tokens') := ⟨.nil, same⟩

theorem index_eq (alike : AlikeBesidesDecoration start start') : start.index = start'.index := by
  rw [start.index_eq, start'.index_eq, alike.passed.length_eq]

theorem lookbehind (alike : AlikeBesidesDecoration start start') :
    AlikeBesidesDecoration start.lookbehind start'.lookbehind := ofTokens alike.passed

theorem forward (alike : AlikeBesidesDecoration start start') (count : Nat) :
    AlikeBesidesDecoration (start.forward count) (start'.forward count) := by
  constructor
  · rw [passed_forward, passed_forward]
    exact List.rel_append (List.forall₂_reverse_iff.mpr (List.forall₂_take count alike.remaining)) alike.passed
  · rw [remaining_forward, remaining_forward]
    exact List.forall₂_drop count alike.remaining

/-- The visible tokens of the same tokens besides decorations have the same numbers. -/
theorem visibleAt?_rel (same : List.Forall₂ SameBesidesDecoration tokens tokens') (number : Nat) :
    Option.Rel SameBesidesDecoration (visibleAt? tokens number) (visibleAt? tokens' number) := by
  induction same generalizing number with
  | nil => exact .none
  | cons first _ ih =>
    unfold visibleAt?
    rw [first.isVisible_eq]
    split
    · cases number with
      | zero => exact .some first
      | succ number => exact ih number
    · exact ih number

theorem current?_rel (alike : AlikeBesidesDecoration start start') :
    Option.Rel SameBesidesDecoration start.current? start'.current? := by
  have same := alike.remaining
  unfold current?
  generalize start.remaining = ahead at same ⊢
  generalize start'.remaining = ahead' at same ⊢
  induction same with
  | nil => exact .none
  | cons first _ ih =>
    rw [List.find?_cons, List.find?_cons, first.isVisible_eq]
    split
    · exact .some first
    · exact ih

theorem length_shadows_eq (alike : AlikeBesidesDecoration start start') :
    start.shadows.length = start'.shadows.length := by
  have same := alike.remaining
  unfold shadows
  generalize start.remaining = ahead at same ⊢
  generalize start'.remaining = ahead' at same ⊢
  induction same with
  | nil => rfl
  | cons first _ ih =>
    have hidden := congrArg not first.isVisible_eq
    simp only [Token.isVisible, Bool.not_not] at hidden
    rw [List.takeWhile_cons, List.takeWhile_cons, hidden]
    split
    · rw [List.length_cons, List.length_cons, ih]
    · rfl

/-- From such places the same tokens are read, besides decorations. -/
theorem reads (alike : AlikeBesidesDecoration start start') :
    Option.Rel (fun next next' => SameBesidesDecoration next.1 next'.1 ∧ AlikeBesidesDecoration next.2 next'.2)
      start.read? start'.read? := by
  have current := alike.current?_rel
  unfold read?
  rw [alike.length_shadows_eq]
  generalize start.current? = token at current ⊢
  generalize start'.current? = token' at current ⊢
  cases current with
  | none => exact .none
  | some same => exact .some ⟨same, alike.forward _⟩

/-- Lines end and begin at the same places. -/
theorem holds_eq (alike : AlikeBesidesDecoration start start') (anchor : Anchor) :
    anchor.holds start = anchor.holds start' := by
  have previous := visibleAt?_rel alike.passed 0
  have first := visibleAt?_rel alike.remaining 0
  have second := visibleAt?_rel alike.remaining 1
  have isLater_eq {earlier earlier' later later' : Token} (before : SameBesidesDecoration earlier earlier')
      (behind : SameBesidesDecoration later later') :
      Anchor.isLater earlier later = Anchor.isLater earlier' later' := by
    simp only [Anchor.isLater, before.showsSame.endPosition_eq, behind.showsSame.position_eq]
  have holdsLineFeed_eq {token token' : Token} (same : SameBesidesDecoration token token') :
      Anchor.holdsLineFeed token = Anchor.holdsLineFeed token' := by
    simp only [Anchor.holdsLineFeed, same.showsSame.value_eq]
  cases anchor with
  | startDocument =>
    simp only [Anchor.holds, TokenStream.previous?, behind?, ← Option.not_isSome, isSome_eq_of_rel previous]
  | endDocument =>
    simp only [Anchor.holds, ← isSome_read?, isSome_eq_of_rel alike.reads]
  | startLine =>
    simp only [Anchor.holds, Anchor.atLineStart, TokenStream.previous?, behind?, ahead?]
    generalize visibleAt? start.passed 0 = previous at previous ⊢
    generalize visibleAt? start'.passed 0 = previous' at previous ⊢
    generalize visibleAt? start.remaining 0 = first at first ⊢
    generalize visibleAt? start'.remaining 0 = first' at first ⊢
    cases previous with
    | none => rfl
    | some before =>
      cases first with
      | none => simp only [holdsLineFeed_eq before]
      | some behind => simp only [holdsLineFeed_eq before, isLater_eq before behind]
  | endLine =>
    simp only [Anchor.holds, Anchor.atLineEnd, ahead?]
    generalize visibleAt? start.remaining 0 = first at first ⊢
    generalize visibleAt? start'.remaining 0 = first' at first ⊢
    generalize visibleAt? start.remaining 1 = second at second ⊢
    generalize visibleAt? start'.remaining 1 = second' at second ⊢
    cases first with
    | none => rfl
    | some before =>
      cases second with
      | none => simp only [holdsLineFeed_eq before]
      | some behind => simp only [holdsLineFeed_eq before, isLater_eq before behind]

end AlikeBesidesDecoration

end TokenStream

namespace Captures

/-- Captures of the same tokens under the same keys, besides decorations. -/
def AlikeBesidesDecoration (kept kept' : Captures) : Prop :=
  List.Forall₂ (fun entry entry' => entry.1 = entry'.1 ∧ List.Forall₂ SameBesidesDecoration entry.2 entry'.2)
    kept.entries kept'.entries

namespace AlikeBesidesDecoration

variable {kept kept' : Captures} {tokens tokens' : List Token}

theorem refl (kept : Captures) : AlikeBesidesDecoration kept kept :=
  List.forall₂_same.mpr fun _ _ => ⟨rfl, List.forall₂_same.mpr fun token _ => .refl token⟩

theorem find? (alike : AlikeBesidesDecoration kept kept') (key : Text) :
    Option.Rel (List.Forall₂ SameBesidesDecoration) (kept.find? key) (kept'.find? key) := by
  obtain ⟨entries⟩ := kept
  obtain ⟨entries'⟩ := kept'
  unfold Captures.find?
  unfold AlikeBesidesDecoration at alike
  dsimp only at alike ⊢
  induction alike with
  | nil => exact .none
  | @cons entry entry' _ _ both _ ih =>
    obtain ⟨name, tokens⟩ := entry
    obtain ⟨name', tokens'⟩ := entry'
    obtain ⟨rfl, same⟩ := both
    dsimp only [List.lookup]
    split
    · exact .some same
    · exact ih

theorem keep (alike : AlikeBesidesDecoration kept kept') (key : Text)
    (same : List.Forall₂ SameBesidesDecoration tokens tokens') :
    AlikeBesidesDecoration (kept.keep key tokens) (kept'.keep key tokens') := by
  refine .cons ⟨rfl, same⟩ (List.rel_filter ?_ alike)
  intro entry entry' both
  simp only [both.1]

end AlikeBesidesDecoration

end Captures

namespace Rule

/-- Whether a rule tells no token from its decoration. Only the predicates and the resolvers of callers may do so: a
predicate has to accept a decorated token when it accepts the token, and a resolver has to find the same rule, or the
same tokens besides decorations, when captured tokens are decorated. -/
def IgnoresDecoration (world : World) : Rule → Prop
  | .matcher (.custom _ predicate) _ => ∀ token outer, token.Decorated outer → predicate outer = predicate token
  | .reference key .dynamic => ∀ kept kept', Captures.AlikeBesidesDecoration kept kept' →
      Option.Rel (DynamicBinding.Alike SameBesidesDecoration) (world.bindings.resolve? key kept)
        (world.bindings.resolve? key kept')
  | _ => True

end Rule

/-- Places among the same tokens besides decorations are alike to the rules that ignore them. -/
def Likeness.besidesDecoration (world : World) : Likeness world where
  token := SameBesidesDecoration
  place := TokenStream.AlikeBesidesDecoration
  captures := Captures.AlikeBesidesDecoration
  admits := Rule.IgnoresDecoration world
  reads alike := alike.reads
  value same := same.showsSame.value_eq
  accepts {test negated seen seen'} admitted same := by
    refine same.accepts_eq test ?_
    rintro description predicate rfl
    exact (admitted seen seen' same.decorated).symm
  members same := by
    rw [same.showsSame.unwrap_eq]
    exact rel_self (fun _ => .ofTokens (List.forall₂_same.mpr fun token _ => .refl token)) _
  behind _ alike := alike.lookbehind
  holds _ alike := alike.holds_eq _
  find key alike := alike.find? key
  keep key alike same := alike.keep key same
  resolve admitted alike := admitted _ _ alike

/-- Two matches are the same besides decorations when they take the same stretch for the same rule, and the same
tokens besides decorations. -/
structure Match.SameBesidesDecoration (found found' : Match) : Prop where
  start_eq : found'.start = found.start
  finish_eq : found'.finish = found.finish
  rule_eq : found'.rule = found.rule
  tokens : List.Forall₂ Token.SameBesidesDecoration found.tokens found'.tokens

/-- What a rule leaves behind is the same besides decorations when the stream is left at the same index, the same was
noticed, and the same tokens are kept besides decorations. -/
structure Situation.SameBesidesDecoration (after after' : Situation) : Prop where
  index_eq : after'.stream.index = after.stream.index
  notices_eq : after'.memory.notices = after.memory.notices
  captures : after.memory.captures.AlikeBesidesDecoration after'.memory.captures

namespace Rule

variable {world : World} {rule : Rule} {stream stream' : TokenStream} {memory : Memory} {found found' : Option Match}
  {after after' : Situation}

/-- Alike answers from two places of the same index are the same besides decorations. -/
theorem sameBesidesDecoration_of_alike (index_eq : stream'.index = stream.index)
    (settles : Run.Settles stream found after) (settles' : Run.Settles stream' found' after')
    (together : Option.Rel (Likeness.besidesDecoration world).Matches found found')
    (alike : (Likeness.besidesDecoration world).Alike after after') :
    Option.Rel Match.SameBesidesDecoration found found' ∧ after.SameBesidesDecoration after' := by
  have left : after.SameBesidesDecoration after' := ⟨alike.place.index_eq.symm, alike.notices.symm, alike.captures⟩
  refine ⟨?_, left⟩
  cases together with
  | none => exact .none
  | @some found found' both =>
    have spans : found.Spans stream after.stream := settles
    have spans' : found'.Spans stream' after'.stream := settles'
    refine .some ⟨?_, ?_, both.2.symm, both.1⟩
    · rw [spans.start_eq, spans'.start_eq, index_eq]
    · rw [spans.finish_eq, spans'.finish_eq, left.index_eq]

/-- A built-in rule that tells no token from its decoration yields among decorated tokens what it yields among the bare
ones, in both directions and at every index: no match stays no match, and a match takes the same stretch and, besides
decorations, the same tokens; the memory left behind is the same besides decorations. -/
theorem match_besides_decoration (builtIn : rule.BuiltIn world)
    (ignores : rule.Throughout world (IgnoresDecoration world)) (index_eq : stream'.index = stream.index)
    (same : List.Forall₂ SameBesidesDecoration stream.tokens stream'.tokens) (memory : Memory) :
    (∀ found after, rule.Yields world ⟨stream, memory⟩ found after →
      ∃ found' after', rule.Yields world ⟨stream', memory⟩ found' after' ∧
        Option.Rel Match.SameBesidesDecoration found found' ∧ after.SameBesidesDecoration after') ∧
    (∀ found' after', rule.Yields world ⟨stream', memory⟩ found' after' →
      ∃ found after, rule.Yields world ⟨stream, memory⟩ found after ∧
        Option.Rel Match.SameBesidesDecoration found found' ∧ after.SameBesidesDecoration after') := by
  have alike : (Likeness.besidesDecoration world).Alike ⟨stream, memory⟩ ⟨stream', memory⟩ :=
    ⟨.of_index_eq index_eq same, .refl memory.captures, rfl⟩
  constructor
  · intro found after yields
    obtain ⟨found', after', yields', together, alikeAfter⟩ := yields.alike builtIn ignores alike
    exact ⟨found', after', yields',
      sameBesidesDecoration_of_alike index_eq (builtIn.settles yields) (builtIn.settles yields') together alikeAfter⟩
  · intro found' after' yields'
    obtain ⟨found, after, yields, together, alikeAfter⟩ := yields'.alike_symm builtIn ignores alike
    exact ⟨found, after, yields,
      sameBesidesDecoration_of_alike index_eq (builtIn.settles yields) (builtIn.settles yields') together alikeAfter⟩

end Rule

namespace Brackets

/-- The opening bracket with a note around it, and a number around the note. -/
def numberedOpening : Token := .indexed opening.types (opening.annotate [("note", .text "outer")]) (.ofNat 1)

theorem opening_same_numberedOpening : opening.SameBesidesDecoration numberedOpening := by
  have made : (opening.annotate [("note", .text "outer")]).number (.ofNat 1) = .ok numberedOpening := by
    exact check_bind_eq_ok_iff.mpr ⟨by simp, rfl⟩
  exact .inr ⟨rfl, .numbered (.annotated _ .bare) made⟩

/-- The tokens of the nested brackets, with the outer brackets decorated. -/
def decorated : TokenStream :=
  .ofTokens [comment, numberedOpening, comment, opening, closing, comment, closing.annotate [], comment]

theorem stream_same_decorated : List.Forall₂ SameBesidesDecoration stream.tokens decorated.tokens :=
  .cons (.refl _) (.cons opening_same_numberedOpening (.cons (.refl _) (.cons (.refl _) (.cons (.refl _)
    (.cons (.refl _) (.cons (.inr ⟨rfl, .annotated [] .bare⟩) (.cons (.refl _) .nil)))))))

theorem nested_ignoresDecoration : nested.Throughout world (Rule.IgnoresDecoration world) :=
  nested_throughout (by simp [members, nested, pair, taking, Rule.IgnoresDecoration])

end Brackets

theorem Rule.nested_matches_decorated :
    Brackets.nested.BuiltIn Brackets.world ∧
      Brackets.nested.Throughout Brackets.world (IgnoresDecoration Brackets.world) ∧
      Brackets.decorated.index = Brackets.stream.index ∧
      List.Forall₂ SameBesidesDecoration Brackets.stream.tokens Brackets.decorated.tokens ∧
      ∃ found found' after after', Brackets.nested.Yields Brackets.world ⟨Brackets.stream, {}⟩ (some found) after ∧
        Brackets.nested.Yields Brackets.world ⟨Brackets.decorated, {}⟩ (some found') after' ∧
        found.SameBesidesDecoration found' := by
  obtain ⟨found, answers, -⟩ := Brackets.nested_answers
  obtain ⟨after, yields⟩ := exists_yields_of_answer answers
  obtain ⟨found', after', yields', together, -⟩ :=
    (match_besides_decoration Brackets.nested_builtIn Brackets.nested_ignoresDecoration
      (show Brackets.decorated.index = Brackets.stream.index from rfl) Brackets.stream_same_decorated {}).1 _ _ yields
  refine ⟨Brackets.nested_builtIn, Brackets.nested_ignoresDecoration, rfl, Brackets.stream_same_decorated, ?_⟩
  cases together with
  | some matches' => exact ⟨found, _, after, after', yields, yields', matches'⟩

end TokenGrammar
