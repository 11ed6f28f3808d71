import TokenGrammar.Proofs.Leaves
import TokenGrammar.Proofs.Provenance.Rules
import TokenGrammar.Proofs.Splitting

namespace TokenGrammar

/-- What a token keeps of a text is faithful when its value is a stretch of characters of the text, and its positions are
those of the first and of the last character of the stretch. -/
def Imprint.IsFaithful (text : List Nat) (imprint : Imprint) : Prop :=
  ∃ before inside behind, text = before ++ inside ++ behind ∧ inside ≠ [] ∧ imprint.value = .ofCodes inside ∧
    imprint.position = positionIn text before.length ∧
    imprint.endPosition = positionIn text (before.length + inside.length - 1)

/-- A token is faithful to a text when what it keeps of the text is. -/
def Token.IsFaithful (text : List Nat) (token : Token) : Prop := token.imprint.IsFaithful text

variable {text : List Nat} {token : Token} {tokens : List Token}

namespace Token

theorem isFaithful_of_imprint_eq {other : Token} (faithful : token.IsFaithful text)
    (same : other.imprint = token.imprint) : other.IsFaithful text := by
  rwa [IsFaithful, same]

/-- The token of a word that is a stretch of a text is faithful when it is put where the stretch begins. -/
theorem isFaithful_of_ofWord {before behind : List Nat} {inside : Text} {definition : Definition}
    (split : text = before ++ inside.codes ++ behind) (filled : inside.codes ≠ [])
    (bounded : text.length ≤ Number.exactLimit)
    (made : ofWord definition inside (positionIn text before.length) = .ok token) : token.IsFaithful text := by
  subst split
  rw [List.length_append, List.length_append] at bounded
  obtain ⟨-, made⟩ := check_bind_eq_ok_iff.mp made
  rw [Position.endOf_positionIn before behind inside filled (by rw [Text.length]; omega)] at made
  cases made
  exact ⟨before, inside.codes, behind, rfl, filled, (value_simple _).trans inside.ofCodes_codes.symm, rfl, rfl⟩

end Token

namespace TokenReader

variable {reader : TokenReader} {lexemes : List Lexeme} {offset : Nat}

theorem isFaithful_of_mem_tokensFrom {before rest : List Nat} (split : text = before ++ rest)
    (splits : reader.Splits rest lexemes) (member : token ∈ reader.tokensFrom text before.length lexemes) :
    token.IsFaithful text := by
  induction lexemes generalizing before rest with
  | nil => cases member
  | cons lexeme more ih =>
    obtain ⟨behind, rfl, fits, -, others⟩ := splits_cons_iff.mp splits
    rcases List.mem_append.mp member with here | later
    · obtain ⟨definition, -, rfl⟩ := Option.map_eq_some_iff.mp (Option.mem_toList.mp here)
      have filled : lexeme.codes ≠ [] := by
        cases lexeme with
        | word codes => exact fits.1
        | separator | escape => exact List.cons_ne_nil _ _
      refine ⟨before, lexeme.codes, behind, by rw [split, List.append_assoc], filled, ?_⟩
      cases lexeme <;> exact ⟨by simp [Lexeme.toToken, Token.imprint, leafAt], rfl, rfl⟩
    · rw [← List.length_append] at later
      exact ih (by rw [split, List.append_assoc]) others later

end TokenReader

namespace Action

variable {separator : Pattern}

/-- The actions that select, split, number, describe, hide or show the tokens of a match. A separator has to leave
characters whole. -/
def KeepsPlaces : Action → Prop
  | .identity | .filter _ | .skip _ | .extract _ | .annotate _ | .classify _ | .index _ => True
  | .split separator => separator.SparesPairs
  | .convert converter => ∀ token, converter token = .ok token.hide ∨ converter token = .ok token.unhide
  | .transform _ | .grouping .. | .wrap .. => False

/-- The token of a part of a faithful token is faithful to the same text. -/
theorem isFaithful_of_ofPart {part : Part} {made : Token} (spares : separator.SparesPairs)
    (written : Text.AreCodes text) (bounded : text.length ≤ Number.exactLimit) (faithful : token.IsFaithful text)
    (among : part ∈ parts separator token.value) (makes : ofPart token part = .ok made) : made.IsFaithful text := by
  obtain ⟨before, inside, behind, split, -, value_eq, position_eq, -⟩ := faithful
  dsimp only [Token.imprint] at value_eq position_eq
  have codes_eq : token.value.codes = inside := by
    rw [split] at written
    rw [value_eq]
    exact written.of_append.1.of_append.2
  obtain ⟨front, back, whole, filled, offset_eq⟩ := exists_of_mem_parts (spares token.value) among
  rw [codes_eq] at whole
  have apart : text = (before ++ front) ++ part.text.codes ++ (back ++ behind) := by simp [split, whole]
  have shifted : (positionIn text before.length).shift token.value (.ofNat front.length) =
      .ok (positionIn text (before ++ front).length) := by
    have size : before.length + token.value.length ≤ Number.exactLimit := by
      rw [split, List.length_append, List.length_append] at bounded
      rw [Text.length, codes_eq]
      omega
    have within : front.length ≤ token.value.length := by simp [Text.length, codes_eq, whole]
    have taken : token.value.codes.take front.length = front := by
      rw [codes_eq, whole, List.append_assoc, List.take_left]
    have start := position_start_after before (inside ++ behind)
    have there := position_start_after (before ++ front) (part.text.codes ++ (back ++ behind))
    rw [← List.append_assoc, ← split] at start
    rw [← List.append_assoc, ← apart] at there
    rw [← start, Position.shift_start_after before _ within size, taken, there]
  obtain ⟨position, shifts, makes⟩ := bind_eq_ok_iff.mp makes
  rw [position_eq, offset_eq, shifted] at shifts
  cases shifts
  exact Token.isFaithful_of_ofWord apart filled bounded makes

/-- The tokens that a faithful token is split into are faithful to the same text. -/
theorem isFaithful_of_splitToken (spares : separator.SparesPairs) (written : Text.AreCodes text)
    (bounded : text.length ≤ Number.exactLimit) (faithful : token.IsFaithful text)
    (splits : splitToken separator token = .ok tokens) :
    ∀ made ∈ tokens, made.IsFaithful text := by
  simp only [splitToken] at splits
  split at splits
  · cases splits
    exact List.forall_mem_singleton.mpr faithful
  · intro made member
    obtain ⟨part, among, makes⟩ := exists_of_mem_mapM splits made member
    exact isFaithful_of_ofPart spares written bounded faithful among makes

/-- Such an action leaves faithful tokens faithful. -/
theorem KeepsPlaces.preserves {action : Action} (keeps : action.KeepsPlaces) (written : Text.AreCodes text)
    (bounded : text.length ≤ Number.exactLimit) :
    action.Preserves (Token.IsFaithful text) := by
  cases action with
  | identity | filter | skip | extract => trivial
  | annotate metadata => exact fun _ faithful => faithful
  | classify classifier =>
    exact fun _ faithful => Token.isFaithful_of_imprint_eq faithful (Token.imprint_withTypeList ..)
  | index start =>
    intro token ordinal made faithful numbers
    obtain ⟨-, wrapped⟩ := check_bind_eq_ok_iff.mp numbers
    cases wrapped
    exact faithful
  | split separator => exact fun _ _ faithful splits => isFaithful_of_splitToken keeps written bounded faithful splits
  | convert converter =>
    intro token made faithful changed
    rcases keeps token with hides | shows
    · rw [hides] at changed
      cases changed
      exact Token.isFaithful_of_imprint_eq faithful (Token.imprint_hide token)
    · rw [shows] at changed
      cases changed
      exact Token.isFaithful_of_imprint_eq faithful (Token.imprint_unhide token)
  | transform | grouping | wrap => exact keeps.elim

/-- What such an action makes of faithful tokens is faithful. -/
theorem KeepsPlaces.keeps {action : Action} (keeps : action.KeepsPlaces) (written : Text.AreCodes text)
    (bounded : text.length ≤ Number.exactLimit) :
    action.Keeps (Token.IsFaithful text) :=
  (keeps.preserves written bounded).keeps

end Action

/-- The tokens that are obtained from a text: those that a reader reads, and those that a pass writes or hands out when
it goes over such tokens, with rules that make up no tokens and actions that keep places. -/
inductive Obtained (reader : TokenReader) (text : Text) : Token → Prop
  | read {tokens : List Token} {token : Token} (reads : reader.read text = .ok tokens) (member : token ∈ tokens) :
      Obtained reader text token
  | passed {world : World} {engine : Engine} {fuel : Nat} {given : List Token} {written : List Piece} {token : Token}
      (honest : ∀ binding ∈ engine.bindings, binding.rule.Honest world)
      (keeps : ∀ binding ∈ engine.bindings, binding.action.KeepsPlaces)
      (obtained : ∀ token ∈ given, Obtained reader text token)
      (returns : (engine.process world fuel given).result = .ok written)
      (member : token ∈ Passage.output written ++ Passage.extracted written) : Obtained reader text token

/-- After any number of passes, a token that was obtained from a text is faithful to it: its value is what stands in the
text from its position on, and the coordinates of its positions count what is before the first and before the last
character of the value. No text has more characters than counts are exact for. -/
theorem TokenReader.isFaithful_of_obtained {reader : TokenReader} {data : Pattern.CharacterData} {definitions : List Definition}
    {allowed : AllowedCharacters} {separators : List Text} {text : Text}
    (made : create data definitions allowed separators = .ok reader) (bounded : text.length ≤ Number.exactLimit)
    (obtained : Obtained reader text token) : token.IsFaithful text.codes := by
  induction obtained with
  | @read tokens token reads member =>
    obtain ⟨lexemes, splits, rfl⟩ := (read_eq_ok_iff_splits (backslash_mem_separators made) bounded).mp reads
    exact @isFaithful_of_mem_tokensFrom text.codes token reader lexemes [] text.codes rfl splits member
  | @passed world engine fuel given written token honest keeps _ returns member ih =>
    have kept : ∀ binding ∈ engine.bindings, binding.action.Keeps (Token.IsFaithful text.codes) :=
      fun binding among => (keeps binding among).keeps text.areCodes_codes bounded
    exact Engine.process_keeps honest kept ih returns token member

namespace Brackets

/-- A reader that takes all characters but blanks into words. -/
def wordReader : TokenReader :=
  { definitions := [], allows := fun _ => true, separators := [' '.toNat, Text.backslash, Text.lineFeed] }

/-- An escaped line feed, a blank, a unit that is no character, a dash and a bracket. -/
def dashed : Text := .ofString "\\\n " ++ ⟨[0xD83D]⟩ ++ .ofString "-)"

/-- An engine that splits all tokens at dashes. -/
def splittingEngine : Engine := { bindings := [⟨.matcher (.value "-" false) true, .split dash⟩] }

def hidingEngine : Engine := { bindings := [⟨taking closing, .convert fun token => .ok token.hide⟩] }

theorem hidingEngine_hides :
    ∃ tokens first second, wordReader.read dashed = .ok tokens ∧
      (splittingEngine.process {} 9 tokens).result = .ok first ∧
      (hidingEngine.process {} 9 (Passage.output first)).result = .ok second ∧
      ∃ token ∈ Passage.output second, token.isShadow = true ∧ token.value = closing.value ∧
        token.position = .ofCounts 1 3 5 := by
  have computed : ((wordReader.read dashed).toOption.bind fun tokens =>
      (splittingEngine.process {} 9 tokens).result.toOption.bind fun first =>
        (hidingEngine.process {} 9 (Passage.output first)).result.toOption.map fun second =>
          (Passage.output second).any fun token => token.isShadow && token.value = closing.value &&
            token.position = .ofCounts 1 3 5) = some true := by decide +kernel
  obtain ⟨tokens, reads, computed⟩ := Option.bind_eq_some_iff.mp computed
  obtain ⟨first, splits, computed⟩ := Option.bind_eq_some_iff.mp computed
  obtain ⟨second, hides, found⟩ := Option.map_eq_some_iff.mp computed
  obtain ⟨token, member, is⟩ := List.any_eq_true.mp found
  simp only [Bool.and_eq_true, decide_eq_true_eq] at is
  exact ⟨tokens, first, second, eq_ok_of_toOption reads, eq_ok_of_toOption splits, eq_ok_of_toOption hides, token, member,
    is.1.1, is.1.2, is.2⟩

theorem matcher_honest (test : TokenTest) (negated : Bool) : (Rule.matcher test negated).Honest {} := by
  refine .of_parts trivial fun inner refers => ?_
  cases refers with
  | shown child => cases test <;> simp [Rule.children, Rule.properties, Rule.testProperties, Rule.Property.children] at child

end Brackets

/-- The bracket behind the dash was read as part of a word, split off by one pass and hidden by another. -/
theorem TokenReader.isFaithful_of_hidden_part :
    create Brackets.asciiOnly [] (.predicate fun _ => true) [" "] = .ok Brackets.wordReader ∧
      ∃ token, Obtained Brackets.wordReader Brackets.dashed token ∧ token.value = Brackets.closing.value ∧
        token.position = .ofCounts 1 3 5 ∧ token.IsFaithful Brackets.dashed.codes := by
  obtain ⟨tokens, first, second, reads, splits, hides, token, member, -, value_eq, position_eq⟩ :=
    Brackets.hidingEngine_hides
  have made : create Brackets.asciiOnly [] (.predicate fun _ => true) [" "] = .ok Brackets.wordReader := rfl
  have spares : Brackets.dash.SparesPairs := Pattern.sparesPairs_of_code rfl (by decide) rfl
  have split : ∀ token ∈ Passage.output first, Obtained Brackets.wordReader Brackets.dashed token := by
    intro token member
    refine .passed ?_ ?_ (fun token member => .read reads member) splits (List.mem_append_left _ member)
    · exact List.forall_mem_singleton.mpr (Brackets.matcher_honest _ _)
    · exact List.forall_mem_singleton.mpr spares
  have obtained : Obtained Brackets.wordReader Brackets.dashed token := by
    refine .passed ?_ ?_ split hides (List.mem_append_left _ member)
    · exact List.forall_mem_singleton.mpr (Brackets.matcher_honest _ _)
    · exact List.forall_mem_singleton.mpr fun token => .inl rfl
  exact ⟨made, token, obtained, value_eq, position_eq, isFaithful_of_obtained made (by decide) obtained⟩

end TokenGrammar
