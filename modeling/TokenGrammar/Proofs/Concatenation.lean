import Mathlib.Data.List.TakeWhile
import TokenGrammar.Proofs.Rejection

namespace TokenGrammar

/-- The number of characters behind the last line feed of a text. -/
def columnBehind (text : List Nat) : Nat := (text.reverse.takeWhile (· ≠ Text.lineFeed)).length

theorem columnBehind_le (text : List Nat) : columnBehind text ≤ text.length := by
  rw [columnBehind, ← text.length_reverse]
  exact (List.takeWhile_prefix _).length_le

/-- The characters of a text are all behind its last line feed when it has none. -/
theorem columnBehind_eq_length_iff {text : List Nat} : columnBehind text = text.length ↔ text.count Text.lineFeed = 0 := by
  have all : (text.reverse.takeWhile (· ≠ Text.lineFeed)).length = text.reverse.length ↔
      text.reverse.takeWhile (· ≠ Text.lineFeed) = text.reverse := ⟨(List.takeWhile_prefix _).eq_of_length, congrArg List.length⟩
  rw [columnBehind, ← text.length_reverse, all, List.takeWhile_eq_self_iff, List.count_eq_zero]
  simp only [List.mem_reverse, decide_eq_true_eq]
  exact ⟨fun other member => other _ member rfl, fun plain code member same => plain (same ▸ member)⟩

theorem columnBehind_append (first second : List Nat) : columnBehind (first ++ second) =
    columnBehind second + if second.count Text.lineFeed = 0 then columnBehind first else 0 := by
  have whole : (second.reverse.takeWhile (· ≠ Text.lineFeed)).length = second.reverse.length ↔
      second.count Text.lineFeed = 0 := by
    rw [List.length_reverse]
    exact columnBehind_eq_length_iff
  rw [columnBehind, List.reverse_append, List.takeWhile_append]
  split
  · next plain =>
    rw [if_pos (whole.mp plain), List.length_append, ← plain, columnBehind, columnBehind]
  · next feeds =>
    rw [if_neg (mt whole.mpr feeds), columnBehind, Nat.add_zero]

/-- A position in a text that is read behind another one: it moves by the characters and the line feeds of that one,
and on the first line it moves in its line by the characters behind the last of them. -/
def Position.movedBehind (text : List Nat) (position : Position) : Position where
  line := position.line + .ofNat (text.count Text.lineFeed)
  characterInLine := if position.line = 0 then position.characterInLine + .ofNat (columnBehind text)
    else position.characterInLine
  absoluteCharacter := position.absoluteCharacter + .ofNat text.length

theorem movedBehind_ofCounts {text : List Nat} {line column offset : Nat} (lines : line ≤ offset)
    (columns : column ≤ offset) (bounded : text.length + offset ≤ Number.exactLimit) :
    (Position.ofCounts line column offset).movedBehind text =
      .ofCounts (text.count Text.lineFeed + line) (column + if line = 0 then columnBehind text else 0)
        (text.length + offset) := by
  have feeds : text.count Text.lineFeed ≤ text.length := List.count_le_length
  have behind := columnBehind_le text
  have onFirst : Number.ofNat line = 0 ↔ line = 0 :=
    ⟨fun same => Number.ofNat_injective same, fun same => congrArg Number.ofNat same⟩
  simp only [Position.movedBehind, Position.ofCounts, onFirst, Position.mk.injEq]
  refine ⟨?_, ?_, ?_⟩
  · rw [Number.ofNat_add_ofNat (by omega), Nat.add_comm]
  · split
    · exact Number.ofNat_add_ofNat (by omega)
    · rfl
  · rw [Number.ofNat_add_ofNat (by omega), Nat.add_comm]

/-- A position in the second of two texts is the position in that text, moved behind the first one. -/
theorem positionIn_behind {first second : List Nat} {offset : Nat}
    (bounded : (first ++ second).length ≤ Number.exactLimit) (within : offset ≤ second.length) :
    positionIn (first ++ second) (first.length + offset) = (positionIn second offset).movedBehind first := by
  have size : (second.take offset).length = offset := List.length_take_of_le within
  have lines : (second.take offset).count Text.lineFeed ≤ offset := List.count_le_length.trans_eq size
  have columns : columnBehind (second.take offset) ≤ offset := (columnBehind_le _).trans_eq size
  have inside : first.length + offset ≤ Number.exactLimit := by
    rw [List.length_append] at bounded
    omega
  have behind : (first ++ second).take (first.length + offset) = first ++ second.take offset :=
    List.take_length_add_append offset
  rw [positionIn, positionIn, behind, ← columnBehind, ← columnBehind, columnBehind_append, List.count_append,
    movedBehind_ofCounts lines columns inside]

theorem positionIn_before {first second : List Nat} {offset : Nat} (within : offset ≤ first.length) :
    positionIn (first ++ second) offset = positionIn first offset := by
  rw [positionIn, List.take_append_of_le_length within, positionIn]

def Leaf.mapPositions (change : Position → Position) (leaf : Leaf) : Leaf :=
  { leaf with position := change leaf.position, endPosition := change leaf.endPosition }

namespace Token

mutual

def mapPositions (change : Position → Position) : Token → Token
  | .simple leaf => .simple (leaf.mapPositions change)
  | .escaped leaf code => .escaped (leaf.mapPositions change) code
  | .group definition types members => .group definition types (mapAllPositions change members)
  | .annotated types token metadata => .annotated types (token.mapPositions change) metadata
  | .indexed types token ordinal => .indexed types (token.mapPositions change) ordinal
  | .shadow types token => .shadow types (token.mapPositions change)

def mapAllPositions (change : Position → Position) : List Token → List Token
  | [] => []
  | token :: rest => token.mapPositions change :: mapAllPositions change rest

end

end Token

namespace TokenReader

variable {reader : TokenReader} {first second : List Nat} {offset : Nat} {lexeme : Lexeme} {lexemes : List Lexeme}

theorem Fits.ne_nil (fits : reader.Fits lexeme) : lexeme.codes ≠ [] := by
  cases lexeme with
  | word codes => exact fits.1
  | separator code | escape code => exact List.cons_ne_nil _ _

/-- The token of a lexeme of the second text is moved behind the first one. -/
theorem token?_behind (bounded : (first ++ second).length ≤ Number.exactLimit) (fits : reader.Fits lexeme)
    (within : offset + lexeme.codes.length ≤ second.length) :
    reader.token? (first ++ second) (first.length + offset) lexeme =
      (reader.token? second offset lexeme).map (Token.mapPositions (Position.movedBehind first)) := by
  have filled := List.length_pos_iff.mpr fits.ne_nil
  have last : first.length + offset + lexeme.codes.length - 1 =
      first.length + (offset + lexeme.codes.length - 1) := by omega
  have leaf (definition : Definition) : leafAt (first ++ second) (first.length + offset) lexeme definition =
      (leafAt second offset lexeme definition).mapPositions (Position.movedBehind first) := by
    rw [leafAt, last, positionIn_behind bounded (by omega), positionIn_behind bounded (by omega)]
    rfl
  rw [token?, token?, Option.map_map]
  refine Option.map_congr fun definition _ => ?_
  rw [leaf]
  cases lexeme <;> rfl

/-- The token of a lexeme of the first text is what it is without the second one. -/
theorem token?_before (within : offset + lexeme.codes.length ≤ first.length) :
    reader.token? (first ++ second) offset lexeme = reader.token? first offset lexeme := by
  have leaf (definition : Definition) : leafAt (first ++ second) offset lexeme definition =
      leafAt first offset lexeme definition := by
    rw [leafAt, leafAt, positionIn_before (by omega), positionIn_before (by omega)]
  rw [token?, token?]
  simp only [leaf]

theorem tokensFrom_behind (bounded : (first ++ second).length ≤ Number.exactLimit)
    (fits : ∀ lexeme ∈ lexemes, reader.Fits lexeme)
    (within : offset + (lexemes.flatMap Lexeme.codes).length ≤ second.length) :
    reader.tokensFrom (first ++ second) (first.length + offset) lexemes =
      (reader.tokensFrom second offset lexemes).map (Token.mapPositions (Position.movedBehind first)) := by
  induction lexemes generalizing offset with
  | nil => rfl
  | cons lexeme rest ih =>
    obtain ⟨here, others⟩ := List.forall_mem_cons.mp fits
    rw [List.flatMap_cons, List.length_append] at within
    rw [tokensFrom, tokensFrom, token?_behind bounded here (by omega), Nat.add_assoc, ih others (by omega),
      List.map_append, Option.toList_map]

theorem tokensFrom_before (within : offset + (lexemes.flatMap Lexeme.codes).length ≤ first.length) :
    reader.tokensFrom (first ++ second) offset lexemes = reader.tokensFrom first offset lexemes := by
  induction lexemes generalizing offset with
  | nil => rfl
  | cons lexeme rest ih =>
    rw [List.flatMap_cons, List.length_append] at within
    rw [tokensFrom, tokensFrom, token?_before (by omega), ih (by omega)]

/-- A text ends in a separator that is no backslash. It may be escaped or not. -/
def EndsInSeparator (reader : TokenReader) (text : List Nat) : Prop :=
  ∃ before separator, text = before ++ [separator] ∧ separator ∈ reader.separators ∧ separator ≠ Text.backslash

/-- No word ends a text that ends in a separator. -/
theorem EndsInSeparator.last (ends : reader.EndsInSeparator first) (splits : reader.Splits first lexemes) :
    ∀ last ∈ lexemes.getLast?, last.isWord = false := by
  obtain ⟨before, separator, spells, separates, -⟩ := ends
  intro last found
  obtain ⟨others, rfl⟩ := List.getLast?_eq_some_iff.mp found
  cases last with
  | separator code | escape code => rfl
  | word codes =>
    obtain ⟨nonempty, taken⟩ := splits.fits (.word codes) (by simp)
    obtain ⟨front, final, rfl⟩ := (List.eq_nil_or_concat' codes).resolve_left nonempty
    have same : others.flatMap Lexeme.codes ++ front ++ [final] = before ++ [separator] := by
      rw [← spells, ← splits.spells]
      simp [Lexeme.codes]
    obtain ⟨-, finalIs⟩ := List.append_inj' same rfl
    cases finalIs
    exact absurd (taken separator (by simp)) (by simp [takes_eq_false_of_mem separates])

/-- Behind a text that ends in a separator the split of a second text goes on. -/
theorem Splits.append {others : List Lexeme} (ends : reader.EndsInSeparator first)
    (splits : reader.Splits first lexemes) (behind : reader.Splits second others) :
    reader.Splits (first ++ second) (lexemes ++ others) where
  spells := by rw [List.flatMap_append, splits.spells, behind.spells]
  fits := List.forall_mem_append.mpr ⟨splits.fits, behind.fits⟩
  maximal := by
    refine List.isChain_append.mpr ⟨splits.maximal, behind.maximal, ?_⟩
    intro last found next _ isWord
    rw [ends.last splits last found] at isWord
    cases isWord

variable {problem : ReadProblem}

/-- A character of the second text is escaped as it is in that text by itself. -/
theorem EndsInSeparator.escapesNext_append_iff (ends : reader.EndsInSeparator first) (more : List Nat) :
    EscapesNext (first ++ more) ↔ EscapesNext more := by
  obtain ⟨before, separator, rfl, -, plain⟩ := ends
  induction more using List.reverseRecOn with
  | nil => simp [plain, EscapesNext]
  | append_singleton more code ih =>
    rw [← List.append_assoc, escapesNext_append_singleton, escapesNext_append_singleton, ih]

/-- What is refused in the second text is what is refused in that text by itself. -/
theorem EndsInSeparator.refuses_behind_iff (ends : reader.EndsInSeparator first) :
    reader.Refuses (first ++ second) (first.length + offset) problem ↔ reader.Refuses second offset problem := by
  have found : (first ++ second)[first.length + offset]? = second[offset]? := by
    rw [List.getElem?_append_right (Nat.le_add_right ..), Nat.add_sub_cancel_left]
  have taken : (first ++ second).take (first.length + offset) = first ++ second.take offset :=
    List.take_length_add_append offset
  have escaped := ends.escapesNext_append_iff (second.take offset)
  have last : first.length + offset + 1 = (first ++ second).length ↔ offset + 1 = second.length := by
    rw [List.length_append]
    omega
  constructor
  · intro refuses
    cases refuses with
    | unexpected here unescaped joins forbidden =>
      exact .unexpected (found ▸ here) (by rwa [taken, escaped] at unescaped) joins forbidden
    | danglingEscape here unescaped ending =>
      exact .danglingEscape (found ▸ here) (by rwa [taken, escaped] at unescaped) (last.mp ending)
  · intro refuses
    cases refuses with
    | unexpected here unescaped joins forbidden =>
      exact .unexpected (found ▸ here) (by rwa [taken, escaped]) joins forbidden
    | danglingEscape here unescaped ending =>
      exact .danglingEscape (found ▸ here) (by rwa [taken, escaped]) (last.mpr ending)

/-- What is refused in the first text is what is refused without the second one. -/
theorem EndsInSeparator.refuses_before_iff (ends : reader.EndsInSeparator first) (inside : offset < first.length) :
    reader.Refuses (first ++ second) offset problem ↔ reader.Refuses first offset problem := by
  have found : (first ++ second)[offset]? = first[offset]? := List.getElem?_append_left inside
  have taken : (first ++ second).take offset = first.take offset :=
    List.take_append_of_le_length (Nat.le_of_lt inside)
  obtain ⟨before, separator, spells, -, plain⟩ := ends
  -- No backslash ends the first text.
  have ending (here : first[offset]? = some Text.backslash) : offset + 1 ≠ first.length := by
    intro last
    rw [spells, List.length_append, List.length_singleton] at last
    have same : offset = before.length := Nat.succ.inj last
    rw [spells, same, List.getElem?_concat_length] at here
    exact plain (Option.some.inj here)
  constructor
  · intro refuses
    cases refuses with
    | unexpected here unescaped joins forbidden =>
      exact .unexpected (found ▸ here) (taken ▸ unescaped) joins forbidden
    | danglingEscape here unescaped last =>
      rw [List.length_append] at last
      exact absurd (by omega) (ending (found ▸ here))
  · intro refuses
    cases refuses with
    | unexpected here unescaped joins forbidden =>
      exact .unexpected (found ▸ here) (taken ▸ unescaped) joins forbidden
    | danglingEscape here unescaped last => exact absurd last (ending here)

/-- A character is refused in a text that ends in a separator only if it stands before that one, and because it is
unexpected. -/
theorem Refuses.lt_of_separator {before : List Nat} {separator : Nat}
    (refuses : reader.Refuses (before ++ [separator]) offset problem) (separates : separator ∈ reader.separators)
    (plain : separator ≠ Text.backslash) : offset < before.length ∧ problem ≠ .danglingEscape := by
  have inside := refuses.offset_lt
  rw [List.length_append, List.length_singleton] at inside
  have last (same : offset = before.length) : (before ++ [separator])[offset]? = some separator := by
    rw [same, List.getElem?_concat_length]
  cases refuses with
  | unexpected found unescaped joins forbidden =>
    refine ⟨Nat.lt_of_le_of_ne (Nat.le_of_lt_succ inside) fun same => ?_, nofun⟩
    cases (last same).symm.trans found
    exact joins separates
  | danglingEscape found unescaped ending =>
    rw [List.length_append, List.length_singleton] at ending
    cases (last (Nat.succ.inj ending)).symm.trans found
    exact absurd rfl plain

/-- What is refused first in a text that ends in a separator is refused first whatever stands there instead. -/
theorem RefusesFirst.append {before : List Nat} {separator : Nat}
    (refuses : reader.RefusesFirst (before ++ [separator]) 0 offset problem)
    (separates : separator ∈ reader.separators) (plain : separator ≠ Text.backslash) (more : List Nat) :
    reader.RefusesFirst (before ++ more) 0 offset problem := by
  obtain ⟨inside, unexpected⟩ := refuses.refuses.lt_of_separator separates plain
  have found {place : Nat} (within : place < before.length) :
      (before ++ more)[place]? = (before ++ [separator])[place]? := by
    rw [List.getElem?_append_left within, List.getElem?_append_left within]
  have taken {place : Nat} (within : place < before.length) :
      (before ++ more).take place = (before ++ [separator]).take place := by
    rw [List.take_append_of_le_length (Nat.le_of_lt within), List.take_append_of_le_length (Nat.le_of_lt within)]
  refine ⟨Nat.zero_le _, ?_, fun earlier since_le sooner other refused => ?_⟩
  · have there := refuses.refuses
    cases there with
    | unexpected here unescaped joins forbidden =>
      exact .unexpected (found inside ▸ here) (taken inside ▸ unescaped) joins forbidden
    | danglingEscape => exact absurd rfl unexpected
  · have within := sooner.trans inside
    refine refuses.first earlier since_le sooner other ?_
    cases refused with
    | unexpected here unescaped joins forbidden =>
      exact .unexpected (found within ▸ here) (taken within ▸ unescaped) joins forbidden
    | danglingEscape here unescaped ending =>
      rw [List.length_append] at ending
      omega

/-- Where nothing is refused in the first text, what is refused first in the second one is refused first in both. -/
theorem EndsInSeparator.refusesFirst_behind (ends : reader.EndsInSeparator first)
    (fine : ∀ earlier other, ¬ reader.Refuses first earlier other)
    (refuses : reader.RefusesFirst second 0 offset problem) :
    reader.RefusesFirst (first ++ second) 0 (first.length + offset) problem where
  since_le := Nat.zero_le _
  refuses := ends.refuses_behind_iff.mpr refuses.refuses
  first earlier _ before other refused := by
    by_cases inside : earlier < first.length
    · exact fine earlier other ((ends.refuses_before_iff inside).mp refused)
    · obtain ⟨later, rfl⟩ := Nat.exists_eq_add_of_le (Nat.le_of_not_gt inside)
      exact refuses.first later (Nat.zero_le _) (Nat.lt_of_add_lt_add_left before) other
        (ends.refuses_behind_iff.mp refused)

end TokenReader

namespace ReadFailure

/-- Two failures because of the same problem at the same place. -/
structure SamePlace (failure other : ReadFailure) : Prop where
  problem_eq : other.problem = failure.problem
  absoluteCharacter_eq : other.absoluteCharacter = failure.absoluteCharacter
  lineNumber_eq : other.lineNumber = failure.lineNumber
  columnNumber_eq : other.columnNumber = failure.columnNumber

/-- A failure in a text and the failure for the same problem in the text behind another one, where it is moved as
positions are. -/
structure MovedBehind (text : List Nat) (failure moved : ReadFailure) : Prop where
  problem_eq : moved.problem = failure.problem
  absoluteCharacter_eq : moved.absoluteCharacter = failure.absoluteCharacter + text.length
  lineNumber_eq : moved.lineNumber = failure.lineNumber + text.count Text.lineFeed
  columnNumber_eq : moved.columnNumber =
    if failure.lineNumber = 1 then failure.columnNumber + columnBehind text else failure.columnNumber

variable {failure other : ReadFailure} {first second : List Nat} {offset : Nat}

theorem IsAt.samePlace (isAt : failure.IsAt first offset) (isAt' : other.IsAt second offset)
    (same : other.problem = failure.problem) (taken : second.take offset = first.take offset) :
    failure.SamePlace other := by
  refine ⟨same, ?_, ?_, ?_⟩
  · rw [isAt.absoluteCharacter_eq, isAt'.absoluteCharacter_eq]
  · rw [isAt.lineNumber_eq, isAt'.lineNumber_eq, taken]
  · rw [isAt.columnNumber_eq, isAt'.columnNumber_eq, taken]

theorem IsAt.movedBehind (isAt : failure.IsAt second offset)
    (isAt' : other.IsAt (first ++ second) (first.length + offset)) (same : other.problem = failure.problem) :
    failure.MovedBehind first other := by
  have taken : (first ++ second).take (first.length + offset) = first ++ second.take offset :=
    List.take_length_add_append offset
  have column := columnBehind_append first (second.take offset)
  refine ⟨same, ?_, ?_, ?_⟩
  · rw [isAt.absoluteCharacter_eq, isAt'.absoluteCharacter_eq, Nat.add_comm]
  · rw [isAt.lineNumber_eq, isAt'.lineNumber_eq, taken, List.count_append]
    omega
  · rw [isAt.columnNumber_eq, isAt'.columnNumber_eq, taken, isAt.lineNumber_eq, ← columnBehind, column, ← columnBehind]
    split <;> split <;> omega

end ReadFailure

namespace TokenReader

variable {reader : TokenReader} {tokens : List Token}

/-- Nothing is refused in a text that is accepted. -/
theorem not_refuses_of_read (escapes : Text.backslash ∈ reader.separators) {text : Text}
    (bounded : text.length ≤ Number.exactLimit) (accepted : reader.read text = .ok tokens) (offset : Nat)
    (problem : ReadProblem) : ¬ reader.Refuses text.codes offset problem := by
  intro refuses
  obtain ⟨first, other, refuses⟩ := refuses.exists_first
  have rejected := (read_eq_error_iff escapes bounded).mpr ⟨first, other, refuses, rfl⟩
  cases accepted.symm.trans rejected

section Both

variable {first second : Text} (escapes : Text.backslash ∈ reader.separators)
  (ends : reader.EndsInSeparator first.codes)

section Apart

variable (joined : (first ++ second).codes = first.codes ++ second.codes)
  (bounded : (first.codes ++ second.codes).length ≤ Number.exactLimit)
include escapes ends joined bounded

theorem read_append_of_ok {others : List Token} (accepted : reader.read first = .ok tokens)
    (accepted' : reader.read second = .ok others) : reader.read (first ++ second) =
      .ok (tokens ++ others.map (Token.mapPositions (Position.movedBehind first.codes))) := by
  have size : first.length + second.length ≤ Number.exactLimit := by rwa [List.length_append] at bounded
  have whole : (first ++ second).length ≤ Number.exactLimit := by rwa [Text.length, joined]
  obtain ⟨lexemes, splits, rfl⟩ := (read_eq_ok_iff_splits escapes (by omega)).mp accepted
  obtain ⟨more, splits', rfl⟩ := (read_eq_ok_iff_splits escapes (by omega)).mp accepted'
  refine (read_eq_ok_iff_splits escapes whole).mpr ⟨lexemes ++ more, joined ▸ splits.append ends splits', ?_⟩
  have before : reader.tokensFrom (first.codes ++ second.codes) 0 lexemes =
      reader.tokensFrom first.codes 0 lexemes := tokensFrom_before (by rw [splits.spells, Nat.zero_add])
  have behind : reader.tokensFrom (first.codes ++ second.codes) (first.codes.length + 0) more =
      (reader.tokensFrom second.codes 0 more).map (Token.mapPositions (Position.movedBehind first.codes)) :=
    tokensFrom_behind bounded splits'.fits (by rw [splits'.spells, Nat.zero_add])
  rw [joined, tokensFrom_append, before, splits.spells, Nat.add_comm, behind]

theorem read_append_of_error {fault : Fault} (accepted : reader.read first = .ok tokens)
    (rejected : reader.read second = .error fault) : ∃ failure moved, fault = .unreadable failure ∧
      reader.read (first ++ second) = .error (.unreadable moved) ∧ failure.MovedBehind first.codes moved := by
  have size : first.length + second.length ≤ Number.exactLimit := by rwa [List.length_append] at bounded
  have whole : (first ++ second).length ≤ Number.exactLimit := by rwa [Text.length, joined]
  obtain ⟨offset, problem, refuses, rfl⟩ := (read_eq_error_iff escapes (by omega)).mp rejected
  have both := ends.refusesFirst_behind (not_refuses_of_read escapes (by omega) accepted) refuses
  refine ⟨_, _, rfl, (read_eq_error_iff escapes whole).mpr ⟨_, problem, joined ▸ both, rfl⟩, ?_⟩
  rw [joined]
  exact (failure_isAt problem refuses.refuses.offset_lt).movedBehind (failure_isAt problem both.refuses.offset_lt) rfl

end Apart

include escapes ends

theorem read_append_of_rejected (bounded : (first.codes ++ second.codes).length ≤ Number.exactLimit) {fault : Fault}
    (rejected : reader.read first = .error fault) :
    ∃ failure other, fault = .unreadable failure ∧ reader.read (first ++ second) = .error (.unreadable other) ∧
      failure.SamePlace other := by
  have size : first.length + second.length ≤ Number.exactLimit := by rwa [List.length_append] at bounded
  obtain ⟨offset, problem, refuses, rfl⟩ := (read_eq_error_iff escapes (by omega)).mp rejected
  obtain ⟨before, separator, spells, separates, plain⟩ := ends
  obtain ⟨more, joined, few⟩ := Text.exists_codes_append spells second
  have whole : (first ++ second).length ≤ Number.exactLimit := by
    have length_eq : first.length = before.length + 1 := by rw [Text.length, spells, List.length_append]; rfl
    rw [Text.length, joined, List.length_append]
    omega
  rw [spells] at refuses
  obtain ⟨inside, -⟩ := refuses.refuses.lt_of_separator separates plain
  have both := refuses.append separates plain more
  refine ⟨_, _, rfl, (read_eq_error_iff escapes whole).mpr ⟨_, problem, joined ▸ both, rfl⟩, ?_⟩
  rw [joined, spells]
  refine (failure_isAt problem refuses.refuses.offset_lt).samePlace (failure_isAt problem both.refuses.offset_lt) rfl ?_
  rw [List.take_append_of_le_length (Nat.le_of_lt inside), List.take_append_of_le_length (Nat.le_of_lt inside)]

end Both

/-- A reader reads two texts one behind the other as it reads them by themselves, if the first one ends in a separator
that is no backslash. If it accepts the first one, and no pair of units is joined between the texts, it reads the tokens
of both, those of the second one moved behind the first one, and it fails exactly when it fails in the second one, at the
place moved behind the first one. If it rejects the first one, it fails at the same place in both. -/
theorem read_append {data : Pattern.CharacterData} {definitions : List Definition}
    {allowed : AllowedCharacters} {separators : List Text}
    {first second : Text} (made : create data definitions allowed separators = .ok reader)
    (bounded : (first.codes ++ second.codes).length ≤ Number.exactLimit)
    (ends : reader.EndsInSeparator first.codes) :
    (∀ tokens, reader.read first = .ok tokens → ¬ Text.MeetInPair first second →
      (∀ others, reader.read second = .ok others → reader.read (first ++ second) =
        .ok (tokens ++ others.map (Token.mapPositions (Position.movedBehind first.codes)))) ∧
      ((∃ fault, reader.read (first ++ second) = .error fault) ↔ ∃ fault, reader.read second = .error fault) ∧
      ∀ fault, reader.read second = .error fault → ∃ failure moved, fault = .unreadable failure ∧
        reader.read (first ++ second) = .error (.unreadable moved) ∧ failure.MovedBehind first.codes moved) ∧
    ∀ fault, reader.read first = .error fault → ∃ failure other, fault = .unreadable failure ∧
      reader.read (first ++ second) = .error (.unreadable other) ∧ failure.SamePlace other := by
  have escapes := backslash_mem_separators made
  constructor
  · intro tokens accepted apart
    have joined := Text.codes_append_of_not_meetInPair apart
    refine ⟨fun others => read_append_of_ok escapes ends joined bounded accepted, ?_, fun fault =>
      read_append_of_error escapes ends joined bounded accepted⟩
    constructor
    · rintro ⟨fault, rejected⟩
      cases outcome : reader.read second with
      | error fault' => exact ⟨fault', rfl⟩
      | ok others => cases rejected.symm.trans (read_append_of_ok escapes ends joined bounded accepted outcome)
    · rintro ⟨fault, rejected⟩
      obtain ⟨failure, moved, -, rejected', -⟩ := read_append_of_error escapes ends joined bounded accepted rejected
      exact ⟨_, rejected'⟩
  · exact fun fault => read_append_of_rejected escapes ends bounded

/-- A bracket, a word and a line feed, and behind them a word and a bracket on the next line. -/
theorem read_append_over_lineFeed :
    create Brackets.asciiOnly [.char "(", .char ")"] (.predicate Brackets.isLetters) [" ", "(", ")"] = .ok Brackets.reader ∧
      Brackets.reader.EndsInSeparator (Text.codes "(a\n") ∧ ¬ Text.MeetInPair "(a\n" "b)" ∧
      ∃ tokens others, Brackets.reader.read "(a\n" = .ok tokens ∧ Brackets.reader.read "b)" = .ok others ∧
        Brackets.reader.read (.ofString "(a\n" ++ .ofString "b)") =
          .ok (tokens ++ others.map (Token.mapPositions (Position.movedBehind (Text.codes "(a\n")))) ∧
        others.map (fun token => token.position.movedBehind (Text.codes "(a\n")) =
          [.ofCounts 1 0 3, .ofCounts 1 1 4] := by
  have made : create Brackets.asciiOnly [.char "(", .char ")"] (.predicate Brackets.isLetters) [" ", "(", ")"] =
      .ok Brackets.reader := rfl
  have escapes := backslash_mem_separators made
  have ends : Brackets.reader.EndsInSeparator (Text.codes "(a\n") :=
    ⟨['('.toNat, 'a'.toNat], Text.lineFeed, by decide, by decide, by decide⟩
  have apart : ¬ Text.MeetInPair "(a\n" "b)" := by
    rintro ⟨leading, trailing, last, -, leads, -⟩
    have same : (Text.ofString "(a\n").units.getLast? = some 10 := by decide
    cases same.symm.trans last
    exact absurd leads (by decide)
  have splits : Brackets.reader.Splits (Text.codes "(a\n")
      [.separator '('.toNat, .word ['a'.toNat], .separator Text.lineFeed] := by
    refine ⟨by decide, ?_, ?_⟩
    · simp [Fits, Brackets.reader]
      decide
    · simp [Lexeme.isWord]
  have splits' : Brackets.reader.Splits (Text.codes "b)") [.word ['b'.toNat], .separator ')'.toNat] := by
    refine ⟨by decide, ?_, ?_⟩
    · simp [Fits, Brackets.reader]
      decide
    · simp [Lexeme.isWord]
  have accepted := (read_eq_ok_iff_splits escapes (by decide)).mpr ⟨_, splits, rfl⟩
  have accepted' := (read_eq_ok_iff_splits escapes (by decide)).mpr ⟨_, splits', rfl⟩
  obtain ⟨both, -⟩ := (read_append made (by decide) ends).1 _ accepted apart
  exact ⟨made, ends, apart, _, _, accepted, accepted', both _ accepted', by decide +kernel⟩

end TokenReader

/-- A reader for which the two units of a pair are separators, each by itself. -/
def Brackets.unitReader : TokenReader := ⟨[], fun _ => false, [0xD83D, 0xDE00, Text.backslash, Text.lineFeed]⟩

namespace TokenReader

/-- The two units of a pair are separators by themselves, but the character that they make is none. -/
theorem not_read_append : ¬ ∀ (data : Pattern.CharacterData) (definitions : List Definition)
    (allowed : AllowedCharacters) (separators : List Text) (reader : TokenReader) (first second : Text)
    (tokens others : List Token),
    create data definitions allowed separators = .ok reader → reader.EndsInSeparator first.codes →
      ¬ EscapesNext first.codes.dropLast → reader.read first = .ok tokens → reader.read second = .ok others →
      reader.read (first ++ second) =
        .ok (tokens ++ others.map (Token.mapPositions (Position.movedBehind first.codes))) := by
  intro claim
  have read := claim Brackets.asciiOnly [] (.predicate fun _ => false) [⟨[0xD83D]⟩, ⟨[0xDE00]⟩] Brackets.unitReader
    ⟨[0xD83D]⟩ ⟨[0xDE00]⟩ [] [] rfl ⟨[], 0xD83D, by decide, by decide, by decide⟩ (by decide) rfl rfl
  have fails : (Brackets.unitReader.read (⟨[0xD83D]⟩ ++ ⟨[0xDE00]⟩)).toOption.isNone = true := by decide +kernel
  rw [read] at fails
  cases fails

end TokenReader

end TokenGrammar
