import TokenGrammar.Proofs.Codes
import TokenGrammar.Proofs.Reach
import TokenGrammar.Proofs.Matching
import TokenGrammar.Proofs.Rounding

namespace TokenGrammar

namespace Text

theorem codesOf_lt (flags : Pattern.Flags) (content : Text) :
    ∀ code ∈ Pattern.codesOf flags content, code < 0x110000 := by
  rw [Pattern.codesOf]
  split
  · exact content.codes_lt
  · intro code member
    obtain ⟨unit, -, rfl⟩ := List.mem_map.mp member
    have := unit.toNat_lt
    omega

/-- At a place that is not inside of a pair a text is cut between two of its characters. -/
theorem codes_ofCodes_append_of_whole {front back : List Nat} (bounded : ∀ code ∈ back, code < 0x110000)
    (whole : ¬ Pattern.InsidePair (front ++ back) front.length) :
    (ofCodes (front ++ back)).codes = (ofCodes front).codes ++ (ofCodes back).codes := by
  rw [ofCodes_append]
  refine codes_append fun unit last => ?_
  rw [or_iff_not_imp_left, Bool.not_eq_false]
  intro leads next first
  rw [Bool.eq_false_iff]
  intro trails
  cases back with
  | nil => cases first
  | cons code rest =>
    have second := isTrailing_of_head?_codes (bounded code (List.mem_cons_self ..)) first trails
    obtain ⟨before, lead, rfl, leads'⟩ := exists_lead_of_getLast? last leads
    exact whole ⟨before, lead, code, rest, by simp, by simp, leads', second⟩

end Text

namespace Position

variable {position : Position} {offset line column absolute : Nat} {codes front back : List Nat} {text : Text}

/-- A position is made when it is that of something that was not read, or when numbers were accepted as its
coordinates. -/
def IsMade (position : Position) : Prop :=
  position = unpositioned ∨ ∃ line characterInLine absoluteCharacter : Number, line.IsBinary64 ∧
    characterInLine.IsBinary64 ∧ absoluteCharacter.IsBinary64 ∧
    create line characterInLine absoluteCharacter = .ok position

/-- A position has finite coordinates when it is that of something that was not read, or when they are counts that are
at most the largest number. -/
def IsFinite (position : Position) : Prop :=
  position = unpositioned ∨ ∃ line characterInLine absoluteCharacter : Nat, line ≤ Number.largest ∧
    characterInLine ≤ Number.largest ∧ absoluteCharacter ≤ Number.largest ∧
    position = ofCounts line characterInLine absoluteCharacter

/-- The position behind the codes of a text that begins at a place: the last line feed, if there is one, is in front of
its line. -/
def behind (line column absolute : Nat) (codes : List Nat) : Position :=
  ofCounts (line + codes.count '\n'.toNat)
    (if '\n'.toNat ∈ codes then (codes.reverse.takeWhile (· ≠ '\n'.toNat)).length else column + codes.length)
    (absolute + codes.length)

theorem create_eq_ok_iff {line characterInLine absoluteCharacter : Number} :
    create line characterInLine absoluteCharacter = .ok position ↔
      ∃ lines characters all : Nat, line = .ofNat lines ∧ characterInLine = .ofNat characters ∧
        absoluteCharacter = .ofNat all ∧ position = ofCounts lines characters all := by
  constructor
  · intro made
    obtain ⟨first, made⟩ := check_bind_eq_ok_iff.mp made
    obtain ⟨second, made⟩ := check_bind_eq_ok_iff.mp made
    obtain ⟨third, made⟩ := check_bind_eq_ok_iff.mp made
    obtain ⟨lines, first⟩ := Option.isSome_iff_exists.mp first
    obtain ⟨characters, second⟩ := Option.isSome_iff_exists.mp second
    obtain ⟨all, third⟩ := Option.isSome_iff_exists.mp third
    obtain rfl := Number.eq_ofNat_of_toNat? first
    obtain rfl := Number.eq_ofNat_of_toNat? second
    obtain rfl := Number.eq_ofNat_of_toNat? third
    cases made
    exact ⟨lines, characters, all, rfl, rfl, rfl, rfl⟩
  · rintro ⟨lines, characters, all, rfl, rfl, rfl, rfl⟩
    exact create_ofNat ..

theorem IsMade.isFinite (made : position.IsMade) : position.IsFinite := by
  rcases made with unread | ⟨line, column, absolute, first, second, third, accepted⟩
  · exact .inl unread
  · obtain ⟨lines, characters, all, rfl, rfl, rfl, same⟩ := create_eq_ok_iff.mp accepted
    exact .inr ⟨lines, characters, all, first.le_largest, second.le_largest, third.le_largest, same⟩

theorem shift_unpositioned (text : Text) (offset : Number) : unpositioned.shift text offset = .ok unpositioned := rfl

theorem shift_ofCounts (text : Text) (offset : Nat) : (ofCounts line column absolute).shift text (.ofNat offset) =
    create ((text.codes.take offset).foldl nextPlace (.ofNat line, .ofNat column)).1
      ((text.codes.take offset).foldl nextPlace (.ofNat line, .ofNat column)).2 (.ofNat absolute + .ofNat offset) := by
  have walked : text.codes.take (min offset text.length) = text.codes.take offset := by
    rw [Text.length, ← List.take_take, List.take_length]
  rw [shift, if_pos (isPositioned_ofCounts ..), walkLength_ofNat, walked]
  rfl

/-- A walk over codes from finite coordinates comes to finite coordinates. -/
theorem exists_foldl_nextPlace (codes : List Nat) (lines : line ≤ Number.largest) (columns : column ≤ Number.largest) :
    ∃ line' column' : Nat, line' ≤ Number.largest ∧ column' ≤ Number.largest ∧
      codes.foldl nextPlace (.ofNat line, .ofNat column) = (.ofNat line', .ofNat column') := by
  induction codes generalizing line column with
  | nil => exact ⟨line, column, lines, columns, rfl⟩
  | cons code rest ih =>
    have one : 1 ≤ Number.exactLimit := Number.twoPow_pos 53
    rw [List.foldl_cons, nextPlace]
    split
    · obtain ⟨next, bounded, sum⟩ := Number.exists_ofNat_add_ofNat lines one
      rw [sum]
      exact ih bounded (Nat.zero_le _)
    · obtain ⟨next, bounded, sum⟩ := Number.exists_ofNat_add_ofNat columns one
      rw [sum]
      exact ih lines bounded

/-- A shift from finite coordinates succeeds and leads to finite coordinates. -/
theorem IsFinite.exists_shift (finite : position.IsFinite) (text : Text) (small : offset ≤ Number.exactLimit) :
    ∃ there, position.shift text (.ofNat offset) = .ok there ∧ there.IsFinite := by
  rcases finite with rfl | ⟨line, column, absolute, lines, columns, all, rfl⟩
  · exact ⟨unpositioned, shift_unpositioned .., .inl rfl⟩
  · obtain ⟨line', column', lines', columns', walk⟩ := exists_foldl_nextPlace (text.codes.take offset) lines columns
    obtain ⟨sum, all', adds⟩ := Number.exists_ofNat_add_ofNat all small
    refine ⟨ofCounts line' column' sum, ?_, .inr ⟨line', column', sum, lines', columns', all', rfl⟩⟩
    rw [shift_ofCounts, walk, adds, create_ofNat]

theorem IsMade.shift_zero (made : position.IsMade) (text : Text) : position.shift text (.ofNat 0) = .ok position := by
  rcases made with rfl | ⟨line, column, absolute, -, -, form, accepted⟩
  · exact shift_unpositioned ..
  · obtain ⟨lines, characters, all, rfl, rfl, rfl, rfl⟩ := create_eq_ok_iff.mp accepted
    have same : Number.ofNat all + Number.ofNat 0 = .ofNat all := by
      show Number.ofRat ((all : Rat) + ((0 : Nat) : Rat)) = _
      rw [← Rat.natCast_add, Nat.add_zero]
      exact form
    rw [shift_ofCounts, List.take_zero, List.foldl_nil, same, create_ofNat]

/-- A walk over codes counts the line feeds and the codes behind the last of them, as long as counts are exact. -/
theorem foldl_nextPlace_counts (absolute : Nat) (codes : List Nat) (lines : line + codes.length ≤ Number.exactLimit)
    (columns : column + codes.length ≤ Number.exactLimit) :
    codes.foldl nextPlace (.ofNat line, .ofNat column) =
      ((behind line column absolute codes).line, (behind line column absolute codes).characterInLine) := by
  induction codes using List.reverseRecOn with
  | nil => rfl
  | append_singleton codes code ih =>
    rw [List.length_append, List.length_singleton] at lines columns
    have feeds : codes.count '\n'.toNat ≤ codes.length := List.count_le_length
    have tail : (codes.reverse.takeWhile (· ≠ '\n'.toNat)).length ≤ codes.length := by
      rw [← codes.length_reverse]
      exact (List.takeWhile_prefix _).length_le
    rw [List.foldl_append, ih (by omega) (by omega), List.foldl_cons, List.foldl_nil, nextPlace]
    simp only [behind, ofCounts]
    generalize '\n'.toNat = newline at *
    by_cases feed : code = newline
    · rw [if_pos feed, Number.ofNat_add_ofNat (by omega)]
      simp [feed, Nat.add_assoc]
    · rw [if_neg feed, Number.ofNat_add_ofNat (by split <;> omega)]
      by_cases broken : newline ∈ codes
      · simp [feed, broken, Ne.symm feed]
      · simp [feed, broken, Ne.symm feed, Nat.add_assoc]

theorem shift_eq_behind (split : text.codes = front ++ back) (lines : line + front.length ≤ Number.exactLimit)
    (columns : column + front.length ≤ Number.exactLimit) (all : absolute + front.length ≤ Number.exactLimit) :
    (ofCounts line column absolute).shift text (.ofNat front.length) = .ok (behind line column absolute front) := by
  rw [shift_ofCounts, split, List.take_left, foldl_nextPlace_counts absolute front lines columns,
    Number.ofNat_add_ofNat all]
  exact create_ofNat ..

end Position

namespace Action

open Pattern (codesOf InsidePair Ascending)

/-- The matches that separate the parts of a text from one another: those that are not empty. -/
def separators (separator : Pattern) (content : Text) : List (Nat × Nat) :=
  (separator.allMatches (separator.subjectOf content)).filter fun found => found.1 ≠ found.2

/-- The stretches in front of, between and behind other stretches, those without a code included. -/
def gapsFrom (size : Nat) : Nat → List (Nat × Nat) → List (Nat × Nat)
  | start, [] => [(start, size)]
  | start, (first, last) :: rest => (start, first) :: gapsFrom size last rest

/-- The gaps between the matches that separate the parts of a text. -/
def gaps (separator : Pattern) (content : Text) : List (Nat × Nat) :=
  gapsFrom (codesOf separator.flags content).length 0 (separators separator content)

/-- The text of a stretch of codes. -/
def textOf (codes : List Nat) (stretch : Nat × Nat) : Text :=
  .ofCodes ((codes.drop stretch.1).take (stretch.2 - stretch.1))

/-- The text in front of a stretch of codes. -/
def textBefore (codes : List Nat) (stretch : Nat × Nat) : Text := .ofCodes (codes.take stretch.1)

/-- Texts one after the other, with a separator between each two of them. -/
def interleave : List Text → List Text → Text
  | text :: texts, separator :: separators => text ++ separator ++ interleave texts separators
  | texts, _ => texts.headD ⟨[]⟩

variable {separator : Pattern} {token made : Token} {codes : List Nat} {start size : Nat} {found : List (Nat × Nat)}

theorem stretches_eq (size start : Nat) (found : List (Nat × Nat)) : stretches size start found =
    (gapsFrom size start (found.filter fun found => found.1 ≠ found.2)).filter fun gap => gap.1 < gap.2 := by
  induction found generalizing start with
  | nil => simp [stretches, gapsFrom, List.filter_cons]
  | cons head rest ih =>
    obtain ⟨first, last⟩ := head
    rw [stretches]
    by_cases empty : first = last
    · simp [empty, ih]
    · simp only [empty, if_false, ih, ne_eq, not_false_eq_true, decide_true, List.filter_cons_of_pos, gapsFrom]
      rw [List.filter_cons]
      by_cases filled : start < first <;> simp [filled]

/-- The parts of a text are its gaps that are not empty, each with the number of characters in front of it. -/
theorem parts_eq (separator : Pattern) (content : Text) : parts separator content =
    ((gaps separator content).filter fun gap => gap.1 < gap.2).map fun gap =>
      { text := textOf (codesOf separator.flags content) gap
        offset := (textBefore (codesOf separator.flags content) gap).length } := by
  rw [gaps, separators, ← stretches_eq]
  rfl

/-- Gaps and what separates them make up what they were taken from. -/
theorem interleave_gapsFrom (ascending : Ascending codes.length start found) :
    interleave ((gapsFrom codes.length start found).map (textOf codes)) (found.map (textOf codes)) =
      .ofCodes (codes.drop start) := by
  induction ascending with
  | @nil start within =>
    have all : (codes.drop start).take (codes.length - start) = codes.drop start :=
      List.take_of_length_le (Nat.le_of_eq List.length_drop)
    exact congrArg Text.ofCodes all
  | @cons start first last others before ordered rest ih =>
    rw [gapsFrom, List.map_cons, List.map_cons, interleave, ih, textOf, textOf, ← Text.ofCodes_append,
      ← Text.ofCodes_append]
    have inner : codes.drop first = (codes.drop start).drop (first - start) := by
      rw [List.drop_drop, Nat.add_sub_cancel' before]
    have outer : codes.drop last = (codes.drop first).drop (last - first) := by
      rw [List.drop_drop, Nat.add_sub_cancel' ordered]
    rw [List.append_assoc, outer, List.take_append_drop, inner, List.take_append_drop]

theorem separators_ascending (separator : Pattern) (content : Text) :
    Ascending (codesOf separator.flags content).length 0 (separators separator content) := by
  have forward : (separator.subjectOf content).backward = false := rfl
  exact (separator.allMatches_ascending forward).filter _

/-- All gaps of a text and the matches between them make up the text. -/
theorem interleave_gaps (separator : Pattern) (content : Text) :
    interleave ((gaps separator content).map (textOf (codesOf separator.flags content)))
      ((separators separator content).map (textOf (codesOf separator.flags content))) = content := by
  rw [gaps, interleave_gapsFrom (separators_ascending separator content), List.drop_zero, Pattern.ofCodes_codesOf]

/-- What a token has to be that is the part of another token behind a front of its value: it has the text of the part,
made of whole characters, keeps the definition if that accepts the text, and is as many characters behind the token as
the front has. -/
structure IsPart (token : Token) (front text : Text) (part : Token) : Prop where
  value_eq : part.value = text
  whole : ∃ back : Text, token.value.codes = front.codes ++ text.codes ++ back.codes
  definition_eq : part.definition = if token.definition.accepts text then token.definition else .word
  accepts : part.definition.accepts text = true
  shifted : token.position.shift token.value (.ofNat front.length) = .ok part.position
  unpositioned : token.position = .unpositioned → part.position = .unpositioned
  counted : ∀ line column absolute, token.position = .ofCounts line column absolute →
    line + front.length ≤ Number.exactLimit → column + front.length ≤ Number.exactLimit →
    absolute + front.length ≤ Number.exactLimit → part.position = .behind line column absolute front.codes

/-- Where a part is follows from the number of characters in front of it. -/
theorem isPart_of_shifted {front text back : Text} (value_eq : made.value = text)
    (whole : token.value.codes = front.codes ++ text.codes ++ back.codes)
    (definition_eq : made.definition = if token.definition.accepts text then token.definition else .word)
    (accepts : made.definition.accepts text = true)
    (shifted : token.position.shift token.value (.ofNat front.length) = .ok made.position) :
    IsPart token front text made where
  value_eq := value_eq
  whole := ⟨back, whole⟩
  definition_eq := definition_eq
  accepts := accepts
  shifted := shifted
  unpositioned unread := by
    rw [unread, Position.shift_unpositioned] at shifted
    exact (Except.ok.inj shifted).symm
  counted line column absolute counts lines columns all := by
    rw [List.append_assoc] at whole
    have counted := Position.shift_eq_behind whole lines columns all
    rw [counts] at shifted
    exact Except.ok.inj (shifted.symm.trans counted)

/-- A token is a part of itself. -/
theorem isPart_self {front text back : Text} (accepted : token.definition.accepts token.value = true)
    (placed : token.position.IsMade) (whole : token.value.codes = front.codes ++ text.codes ++ back.codes)
    (same : text = token.value) : IsPart token front text token := by
  subst same
  have lengths := congrArg List.length whole
  rw [List.length_append, List.length_append] at lengths
  have none : front.length = 0 := by
    rw [Text.length]
    omega
  refine isPart_of_shifted rfl whole ?_ accepted ?_
  · rw [if_pos accepted]
  · rw [none]
    exact placed.shift_zero token.value

/-- The token of a part can be made. -/
theorem exists_ofPart {front text back : Text} (placed : token.position.IsMade)
    (bounded : token.value.length ≤ Number.exactLimit)
    (whole : token.value.codes = front.codes ++ text.codes ++ back.codes) (filled : text.isEmpty = false) :
    ∃ made, ofPart token ⟨text, front.length⟩ = .ok made ∧ IsPart token front text made := by
  have lengths := congrArg List.length whole
  rw [List.length_append, List.length_append] at lengths
  have inside : front.length ≤ Number.exactLimit ∧ text.length - 1 ≤ Number.exactLimit := by
    simp only [Text.length] at bounded ⊢
    omega
  obtain ⟨position, shifted, finite⟩ := placed.isFinite.exists_shift token.value inside.1
  obtain ⟨ending, ends, -⟩ := finite.exists_shift text inside.2
  have accepts : (if token.definition.accepts text then token.definition else Definition.word).accepts text = true := by
    split
    · assumption
    · simp [Definition.accepts, filled]
  refine ⟨.simple ⟨if token.definition.accepts text then token.definition else .word, text, position, ending, []⟩, ?_,
    isPart_of_shifted ?_ whole rfl accepts shifted⟩
  · have checked : Token.checkAccepted (if token.definition.accepts text then token.definition else .word) text =
        .ok () := by rw [Token.checkAccepted, accepts, check, if_pos rfl]
    have ended : position.endOf text = .ok ending := ends
    simp only [ofPart, shifted, Token.ofWord, checked, ended, bind, Except.bind, pure, Except.pure]
  · simp [Token.value, Token.writeBefore]

/-- Where no pair is cut apart, the gaps of a text are made of its characters. -/
theorem exists_codes_eq_of_mem_gaps {content : Text} (spares : separator.SparesPairsIn content) {gap : Nat × Nat}
    (among : gap ∈ (gaps separator content).filter fun gap => gap.1 < gap.2) :
    (textOf (codesOf separator.flags content) gap).isEmpty = false ∧
      ∃ back : Text, content.codes = (textBefore (codesOf separator.flags content) gap).codes ++
        (textOf (codesOf separator.flags content) gap).codes ++ back.codes := by
  have spared : ∀ found ∈ separator.allMatches (separator.subjectOf content), found.1 ≠ found.2 →
      found.1 ≤ (codesOf separator.flags content).length ∧
        ¬ InsidePair (codesOf separator.flags content) found.1 ∧
        ¬ InsidePair (codesOf separator.flags content) found.2 := fun found finds filled =>
    ⟨Pattern.fst_le_of_mem_matchesFrom finds, spares found finds filled⟩
  rw [gaps, separators, ← stretches_eq] at among
  obtain ⟨ordered, within, before, behind⟩ := stretches_whole Pattern.not_insidePair_zero spared gap among
  have bounded := Text.codesOf_lt separator.flags content
  have text_eq := Pattern.ofCodes_codesOf separator.flags content
  generalize codesOf separator.flags content = codes at *
  have front_length : (codes.take gap.1).length = gap.1 := List.length_take_of_le (by omega)
  have inner_length : ((codes.drop gap.1).take (gap.2 - gap.1)).length = gap.2 - gap.1 :=
    List.length_take_of_le (by rw [List.length_drop]; omega)
  -- The text is cut in front of the gap, and what is behind the cut once more at the end of the gap.
  have first : content.codes = (textBefore codes gap).codes ++ (Text.ofCodes (codes.drop gap.1)).codes := by
    rw [textBefore, ← Text.codes_ofCodes_append_of_whole, List.take_append_drop, text_eq]
    · exact fun code member => bounded code (List.mem_of_mem_drop member)
    · rw [List.take_append_drop, front_length]
      exact before
  have second : (Text.ofCodes (codes.drop gap.1)).codes =
      (textOf codes gap).codes ++ (Text.ofCodes ((codes.drop gap.1).drop (gap.2 - gap.1))).codes := by
    rw [textOf, ← Text.codes_ofCodes_append_of_whole, List.take_append_drop]
    · exact fun code member => bounded code (List.mem_of_mem_drop (List.mem_of_mem_drop member))
    · rw [List.take_append_drop, inner_length]
      intro inside
      have onward := inside.append_left (codes.take gap.1)
      rw [List.take_append_drop, front_length, Nat.add_sub_cancel' (Nat.le_of_lt ordered)] at onward
      exact behind onward
  refine ⟨?_, .ofCodes ((codes.drop gap.1).drop (gap.2 - gap.1)), by rw [first, second, List.append_assoc]⟩
  rw [textOf]
  exact Text.isEmpty_ofCodes (List.ne_nil_of_length_pos (by omega))

/-- A part is a stretch of the characters of the text, and its offset counts the characters before it. -/
theorem exists_of_mem_parts {content : Text} (spares : separator.SparesPairsIn content) {part : Part}
    (member : part ∈ parts separator content) :
    ∃ front back, content.codes = front ++ part.text.codes ++ back ∧ part.text.codes ≠ [] ∧
      part.offset = front.length := by
  rw [parts_eq] at member
  obtain ⟨gap, among, rfl⟩ := List.mem_map.mp member
  obtain ⟨filled, back, split⟩ := exists_codes_eq_of_mem_gaps spares among
  refine ⟨_, _, split, fun none => ?_, rfl⟩
  rw [← Text.ofCodes_codes (textOf _ gap), none] at filled
  cases filled

/-- What can be done for each member of a list can be done for the list. -/
theorem exists_mapM_of_forall {α β γ : Type} {given : List α} {prepare : α → β} {change : β → Except Fault γ}
    {relates : α → γ → Prop}
    (possible : ∀ value ∈ given, ∃ result, change (prepare value) = .ok result ∧ relates value result) :
    ∃ results, (given.map prepare).mapM change = .ok results ∧ List.Forall₂ relates given results := by
  induction given with
  | nil => exact ⟨[], rfl, .nil⟩
  | cons value rest ih =>
    obtain ⟨⟨result, changes, related⟩, others⟩ := List.forall_mem_cons.mp possible
    obtain ⟨results, done, all⟩ := ih others
    exact ⟨result :: results, by rw [List.map_cons, List.mapM_cons, changes, done]; rfl, .cons related all⟩

/-- What splitting a token gives: the gaps that are not empty are parts of the token, in their order. -/
theorem exists_splitToken (spares : separator.SparesPairsIn token.value)
    (accepted : token.definition.accepts token.value = true) (placed : token.position.IsMade)
    (bounded : token.value.length ≤ Number.exactLimit) :
    ∃ made, splitToken separator token = .ok made ∧
      List.Forall₂ (fun gap part => IsPart token (textBefore (codesOf separator.flags token.value) gap)
        (textOf (codesOf separator.flags token.value) gap) part)
        ((gaps separator token.value).filter fun gap => gap.1 < gap.2) made := by
  have whole := @exists_codes_eq_of_mem_gaps separator token.value spares
  simp only [splitToken, parts_eq, List.map_map]
  generalize (gaps separator token.value).filter (fun gap => gap.1 < gap.2) = filled at *
  split
  · rename_i single
    obtain ⟨gap, rfl, same⟩ := List.map_eq_singleton_iff.mp single
    obtain ⟨-, back, split⟩ := whole (List.mem_singleton_self gap)
    exact ⟨[token], rfl, .cons (isPart_self accepted placed split same) .nil⟩
  · refine exists_mapM_of_forall fun gap among => ?_
    obtain ⟨nonempty, back, split⟩ := whole among
    exact exists_ofPart placed bounded split nonempty

/-- The gaps that are not empty are those whose texts are not empty. -/
theorem filter_map_textOf_gaps {content : Text} (spares : separator.SparesPairsIn content) :
    ((gaps separator content).map (textOf (codesOf separator.flags content))).filter (fun text => !text.isEmpty) =
      ((gaps separator content).filter fun gap => gap.1 < gap.2).map (textOf (codesOf separator.flags content)) := by
  rw [List.filter_map]
  refine congrArg _ (List.filter_congr fun gap among => ?_)
  by_cases filled : gap.1 < gap.2
  · obtain ⟨nonempty, -⟩ := exists_codes_eq_of_mem_gaps spares
      (List.mem_filter.mpr ⟨among, decide_eq_true filled⟩)
    simp [nonempty, filled]
  · have none : textOf (codesOf separator.flags content) gap = ⟨[]⟩ := by
      rw [textOf, Nat.sub_eq_zero_of_le (Nat.le_of_not_lt filled), List.take_zero]
      rfl
    simp [none, filled, Text.isEmpty]

/-- Splitting a token never fails. The texts of its gaps and of what separates them make up its value, those that are
not empty are the values of what it is split into, and each of these is a part of it. -/
theorem split_reconstructs (spares : separator.SparesPairsIn token.value)
    (accepted : token.definition.accepts token.value = true) (placed : token.position.IsMade)
    (bounded : token.value.length ≤ Number.exactLimit) (store : RuleStore) (captures : Captures) {found : Match}
    (only : found.tokens = [token]) :
    ∃ made texts, (Action.split separator).apply store captures found = .ok { tokens := made } ∧
      texts = (gaps separator token.value).map (textOf (codesOf separator.flags token.value)) ∧
      interleave texts ((separators separator token.value).map (textOf (codesOf separator.flags token.value))) =
        token.value ∧
      made.map Token.value = texts.filter (fun text => !text.isEmpty) ∧
      List.Forall₂ (fun gap part => IsPart token (textBefore (codesOf separator.flags token.value) gap)
        (textOf (codesOf separator.flags token.value) gap) part)
        ((gaps separator token.value).filter fun gap => gap.1 < gap.2) made := by
  obtain ⟨made, splits, parts⟩ := exists_splitToken spares accepted placed bounded
  refine ⟨made, _, ?_, rfl, interleave_gaps separator token.value, ?_, parts⟩
  · simp [apply, only, splits, bind, Except.bind, pure, Except.pure]
  · rw [filter_map_textOf_gaps spares]
    rw [← List.forall₂_eq_eq_eq, List.forall₂_map_left_iff, List.forall₂_map_right_iff]
    exact (parts.imp fun gap part isPart => isPart.value_eq).flip

end Action

namespace Brackets

def dash : Pattern := { source := "-", flags := { global := true }, root := .code 45, groups := 0 }

/-- A character that is a pair of units, and a bracket on the next line behind a dash. -/
def farBracket : Token :=
  .simple { definition := .word, value := .ofString "😀\n-(", position := .ofCounts 2 3 10,
            endPosition := .ofCounts 3 1 13, types := [] }

end Brackets

theorem Action.split_shifts_second_part : ∃ made first second,
    (Action.split Brackets.dash).apply {} {} ⟨0, 1, [Brackets.farBracket], .always⟩ = .ok { tokens := made } ∧
      made = [first, second] ∧ first.position = .ofCounts 2 3 10 ∧ second.value = Brackets.opening.value ∧
      second.position = .ofCounts 3 1 13 := by
  have spares : Brackets.dash.SparesPairsIn Brackets.farBracket.value :=
    Pattern.sparesPairsIn_of_code rfl (by decide) rfl _
  have placed : Brackets.farBracket.position.IsMade :=
    .inr ⟨.ofNat 2, .ofNat 3, .ofNat 10, Number.isBinary64_ofNat (by decide), Number.isBinary64_ofNat (by decide),
      Number.isBinary64_ofNat (by decide), rfl⟩
  have only : (⟨0, 1, [Brackets.farBracket], .always⟩ : Match).tokens = [Brackets.farBracket] := rfl
  obtain ⟨made, -, splits, -, -, -, parts⟩ := Action.split_reconstructs spares (by decide) placed (by decide) {} {} only
  have filled : ((Action.gaps Brackets.dash Brackets.farBracket.value).filter fun gap => gap.1 < gap.2) =
      [(0, 3), (4, 5)] := by decide +kernel
  rw [filled] at parts
  cases parts with
  | @cons _ first _ _ before rest =>
    cases rest with
    | @cons _ second _ _ behind none =>
      cases none
      refine ⟨_, first, second, splits, rfl, ?_, behind.value_eq, ?_⟩
      · exact before.counted 2 3 10 rfl (by decide) (by decide) (by decide)
      · exact behind.counted 2 3 10 rfl (by decide) (by decide) (by decide)

end TokenGrammar
