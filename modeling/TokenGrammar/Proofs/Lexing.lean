import TokenGrammar.Proofs.Lexemes

namespace TokenGrammar

/-- The token of a lexeme, given what the token carries. -/
def Lexeme.toToken : Lexeme → Leaf → Token
  | .escape code, leaf => .escaped leaf (.ofCodes [code])
  | _, leaf => .simple leaf

namespace TokenReader

/-- The definition of a lexeme: the first one that accepts a separator, and always one for words and escapes. -/
def definition? (reader : TokenReader) : Lexeme → Option Definition
  | .word _ => some .word
  | .separator code => reader.definitions.find? fun definition => definition.accepts (.ofCodes [code])
  | .escape code => some (.escaped (.ofCodes [code]))

/-- What the token of a lexeme at an offset of a text carries: the lexeme as its value, and the positions of the
first and of the last character. -/
def leafAt (text : List Nat) (offset : Nat) (lexeme : Lexeme) (definition : Definition) : Leaf :=
  { definition
    value := .ofCodes lexeme.codes
    position := positionIn text offset
    endPosition := positionIn text (offset + lexeme.codes.length - 1)
    types := [] }

/-- The token of a lexeme at an offset of a text, if the lexeme has a definition. -/
def token? (reader : TokenReader) (text : List Nat) (offset : Nat) (lexeme : Lexeme) : Option Token :=
  (reader.definition? lexeme).map fun definition => lexeme.toToken (leafAt text offset lexeme definition)

/-- The tokens of lexemes that follow each other from an offset of a text on. -/
def tokensFrom (reader : TokenReader) (text : List Nat) : Nat → List Lexeme → List Token
  | _, [] => []
  | offset, lexeme :: rest =>
    (reader.token? text offset lexeme).toList ++ reader.tokensFrom text (offset + lexeme.codes.length) rest

variable {reader : TokenReader} {text before run rest : List Nat} {code : Nat} {definition : Definition}
  {tokens : List Token}

theorem areCodes_lexeme {lexeme : Lexeme} (same : text = before ++ lexeme.codes ++ rest)
    (written : Text.AreCodes text) : Text.AreCodes lexeme.codes := by
  rw [same] at written
  exact written.of_append.1.of_append.2

theorem position_start_after_lexeme {lexeme : Lexeme} (same : text = before ++ lexeme.codes ++ rest) :
    (Place.start.after before).position = positionIn text before.length := by
  rw [same, List.append_assoc]
  exact position_start_after before (lexeme.codes ++ rest)

section Single

variable {lexeme : Lexeme} (same : text = before ++ lexeme.codes ++ rest) (written : Text.AreCodes text)
  (bounded : text.length ≤ Number.exactLimit)
include same written bounded

theorem endOf_start_after (nonempty : lexeme.codes ≠ []) :
    (Place.start.after before).position.endOf (.ofCodes lexeme.codes) =
      .ok (positionIn text (before.length + lexeme.codes.length - 1)) := by
  have codes_eq : (Text.ofCodes lexeme.codes).codes = lexeme.codes := areCodes_lexeme same written
  have length_eq : (Text.ofCodes lexeme.codes).length = lexeme.codes.length := congrArg List.length codes_eq
  have ends := Position.endOf_positionIn before rest (.ofCodes lexeme.codes)
  rw [codes_eq, length_eq, ← same] at ends
  rw [position_start_after_lexeme same]
  apply ends nonempty
  rw [same, List.length_append, List.length_append] at bounded
  omega

/-- What a definition accepts becomes a token, as long as the text is not too long to be counted. -/
theorem ofWord_start_after (nonempty : lexeme.codes ≠ []) (accepts : definition.accepts (.ofCodes lexeme.codes) = true) :
    Token.ofWord definition (.ofCodes lexeme.codes) (Place.start.after before).position =
      .ok (.simple (leafAt text before.length lexeme definition)) := by
  refine check_bind_eq_ok_iff.mpr ⟨accepts, ?_⟩
  rw [endOf_start_after same written bounded nonempty, position_start_after_lexeme same]
  rfl

end Single

theorem escapedCharacter?_escape (written : Text.AreCodes (Lexeme.escape code).codes) :
    Token.escapedCharacter? (.ofCodes (Lexeme.escape code).codes) = some (.ofCodes [code]) := by
  have codes_eq : (Text.ofCodes (Lexeme.escape code).codes).codes = [Text.backslash, code] := written
  rw [Token.escapedCharacter?, codes_eq]
  exact if_pos rfl

theorem accepts_escape (code : Nat) :
    (Definition.escaped (.ofCodes [code])).accepts (.ofCodes (Lexeme.escape code).codes) = true := by
  have spelled : Text.ofCodes (Lexeme.escape code).codes = Definition.escapeOf (.ofCodes [code]) :=
    Text.ofCodes_append [Text.backslash] [code]
  simp [Definition.accepts, spelled]

/-- An escape becomes a token. -/
theorem ofEscape_start_after (same : text = before ++ (Lexeme.escape code).codes ++ rest)
    (written : Text.AreCodes text) (bounded : text.length ≤ Number.exactLimit) :
    Token.ofEscape (.ofCodes (Lexeme.escape code).codes) (Place.start.after before).position none =
      .ok (.escaped (leafAt text before.length (.escape code) (.escaped (.ofCodes [code]))) (.ofCodes [code])) := by
  have ends := endOf_start_after same written bounded (List.cons_ne_nil _ _)
  rw [Token.ofEscape, escapedCharacter?_escape (areCodes_lexeme same written)]
  refine check_bind_eq_ok_iff.mpr ⟨accepts_escape code, ?_⟩
  rw [ends, position_start_after_lexeme same]
  rfl

/-- The word that is open behind a run of characters, if there are any. -/
def openWord (before run : List Nat) : Option OpenWord :=
  if run = [] then none else some ⟨Place.start.after before, run.reverse⟩

theorem extend_openWord : some (extend (openWord before run) (Place.start.after (before ++ run)) code) =
    openWord before (run ++ [code]) := by
  unfold openWord extend
  cases run with
  | nil => simp
  | cons first tail => simp

/-- To finish a word gives the token of its run. -/
theorem finish_openWord (reader : TokenReader) (same : text = before ++ run ++ rest) (written : Text.AreCodes text)
    (bounded : text.length ≤ Number.exactLimit) :
    finish (openWord before run) = .ok (reader.tokensFrom text before.length (Lexeme.ofRun run)) := by
  cases run with
  | nil => rfl
  | cons first tail =>
    have accepts : Definition.word.accepts (.ofCodes (first :: tail)) = true := by
      simp [Definition.accepts, Text.isEmpty_ofCodes]
    have made := @ofWord_start_after text before rest .word (.word (first :: tail)) same written bounded
      (List.cons_ne_nil _ _) accepts
    simp only [Lexeme.codes] at made
    simp [openWord, finish, made, tokensFrom, token?, definition?, Lexeme.ofRun,
      Lexeme.toToken, bind, Except.bind, pure, Except.pure]

/-- A separator becomes the token of the first definition that accepts it, if there is one. -/
theorem ofSeparator_start_after (same : text = before ++ (Lexeme.separator code).codes ++ rest)
    (written : Text.AreCodes text) (bounded : text.length ≤ Number.exactLimit) :
    reader.ofSeparator code (Place.start.after before) =
      .ok (reader.token? text before.length (.separator code)).toList := by
  rw [ofSeparator, token?, definition?]
  cases found : reader.definitions.find? fun definition => definition.accepts (.ofCodes [code]) with
  | none => rfl
  | some definition =>
    have accepts := List.find?_some found
    have made := @ofWord_start_after text before rest definition _ same written bounded (List.cons_ne_nil _ _) accepts
    rw [Lexeme.codes] at made
    dsimp only
    rw [made]
    rfl

theorem tokensFrom_append (offset : Nat) (first second : List Lexeme) :
    reader.tokensFrom text offset (first ++ second) = reader.tokensFrom text offset first ++
      reader.tokensFrom text (offset + (first.flatMap Lexeme.codes).length) second := by
  induction first generalizing offset with
  | nil => rfl
  | cons lexeme rest ih =>
    rw [List.cons_append, tokensFrom, tokensFrom, ih, List.append_assoc, List.flatMap_cons, List.length_append,
      Nat.add_assoc]

theorem flatMap_ofRun (run : List Nat) : (Lexeme.ofRun run).flatMap Lexeme.codes = run := by
  cases run with
  | nil => rfl
  | cons first tail => simp [Lexeme.ofRun, Lexeme.codes]

/-- To add what was read before is to answer something else. -/
private theorem bind_pure_eq_ok_iff {α β : Type} {attempt : Except Fault α} {add : α → β} {result : β} :
    (attempt >>= fun answer => pure (add answer)) = .ok result ↔ ∃ answer, attempt = .ok answer ∧ result = add answer := by
  cases attempt with
  | ok answer => simp [bind, Except.bind, pure, Except.pure, eq_comm]
  | error fault => simp [bind, Except.bind]

section Steps

variable (written : Text.AreCodes text) (bounded : text.length ≤ Number.exactLimit)
include written bounded

theorem readFrom_nil (same : text = before ++ run) :
    reader.readFrom text (Place.start.after (before ++ run)) (openWord before run) [] =
      .ok (reader.tokensFrom text before.length (Lexeme.ofRun run)) := by
  rw [readFrom]
  exact finish_openWord reader (same.trans (List.append_nil _).symm) written bounded

/-- A separator or an escape is read behind the word that it ends. -/
theorem readFrom_lexeme {lexeme : Lexeme} (other : lexeme.isWord = false) (fits : reader.Fits lexeme)
    (same : text = before ++ run ++ (lexeme.codes ++ rest)) :
    reader.readFrom text (Place.start.after (before ++ run)) (openWord before run) (lexeme.codes ++ rest) =
      reader.readFrom text (Place.start.after (before ++ run ++ lexeme.codes)) none rest >>= fun tokens =>
        pure (reader.tokensFrom text before.length (Lexeme.ofRun run) ++
          ((reader.token? text (before ++ run).length lexeme).toList ++ tokens)) := by
  rw [Place.after_append _ (before ++ run)]
  cases lexeme with
  | word codes => cases other
  | separator code =>
    have finished := finish_openWord reader same written bounded
    rw [← List.append_assoc] at same
    have separated := @ofSeparator_start_after reader text (before ++ run) rest code same written bounded
    simp only [Lexeme.codes, List.singleton_append] at finished separated ⊢
    rw [readFrom, if_neg fits.2, if_pos (List.contains_iff_mem.mpr fits.1), finished, separated]
    simp [bind, Except.bind, pure, Except.pure]
  | escape code =>
    have finished := finish_openWord reader same written bounded
    rw [← List.append_assoc] at same
    have escaped := ofEscape_start_after same written bounded
    simp only [Lexeme.codes, List.cons_append, List.nil_append] at finished escaped ⊢
    rw [readFrom, if_pos rfl, finished]
    simp only [escaped, token?, definition?, Lexeme.toToken, Option.map_some, Option.toList_some,
      List.singleton_append, bind, Except.bind, pure, Except.pure]
    rfl

end Steps

section Reading

variable (escapes : Text.backslash ∈ reader.separators)
include escapes

/-- Where a run cannot go on, its word and the lexemes behind it are told apart. -/
theorem exists_splits_run_iff (taken : ∀ code ∈ run, reader.takes code = true)
    (refused : ∀ code ∈ rest.head?, reader.takes code = false) :
    (∃ lexemes, reader.Splits (run ++ rest) lexemes ∧ tokens = reader.tokensFrom text before.length lexemes) ↔
      ∃ more, reader.Splits rest more ∧ tokens = reader.tokensFrom text before.length (Lexeme.ofRun run) ++
        reader.tokensFrom text (before ++ run).length more := by
  simp only [splits_run_iff escapes taken refused]
  constructor
  · intro given
    obtain ⟨_, ⟨more, rfl, splits⟩, rfl⟩ := given
    exact ⟨more, splits, by rw [tokensFrom_append, flatMap_ofRun, List.length_append]⟩
  · intro given
    obtain ⟨more, splits, rfl⟩ := given
    exact ⟨_, ⟨more, rfl, splits⟩, by rw [tokensFrom_append, flatMap_ofRun, List.length_append]⟩

/-- What is asked of the text behind a separator or an escape is asked of it from there on. -/
theorem readFrom_lexeme_eq_ok_iff (lexeme : Lexeme) (written : Text.AreCodes text) (bounded : text.length ≤ Number.exactLimit)
    (same : text = before ++ run ++ (lexeme.codes ++ rest)) (other : lexeme.isWord = false)
    (fits : reader.Fits lexeme) (taken : ∀ code ∈ run, reader.takes code = true)
    (behind : ∀ others, reader.readFrom text (Place.start.after (before ++ run ++ lexeme.codes)) none rest =
      .ok others ↔ ∃ more, reader.Splits rest more ∧
        others = reader.tokensFrom text (before ++ run ++ lexeme.codes).length more) :
    reader.readFrom text (Place.start.after (before ++ run)) (openWord before run) (lexeme.codes ++ rest) =
      .ok tokens ↔ ∃ lexemes, reader.Splits (run ++ (lexeme.codes ++ rest)) lexemes ∧
        tokens = reader.tokensFrom text before.length lexemes := by
  have refused : ∀ code ∈ (lexeme.codes ++ rest).head?, reader.takes code = false := by
    cases lexeme with
    | word codes => cases other
    | separator code => simpa [Lexeme.codes] using takes_eq_false_of_mem fits.1
    | escape code => simpa [Lexeme.codes] using takes_eq_false_of_mem escapes
  rw [readFrom_lexeme written bounded other fits same, bind_pure_eq_ok_iff, exists_splits_run_iff escapes taken refused]
  simp only [splits_lexeme_iff escapes other fits, behind]
  constructor
  · intro given
    obtain ⟨_, ⟨more, splits, rfl⟩, rfl⟩ := given
    exact ⟨_, ⟨more, rfl, splits⟩, by simp only [tokensFrom, List.length_append]⟩
  · intro given
    obtain ⟨_, ⟨more, rfl, splits⟩, rfl⟩ := given
    exact ⟨_, ⟨more, splits, rfl⟩, by simp only [tokensFrom, List.length_append]⟩

/-- From a place on, where a run of characters is an open word, a reader accepts the rest of a text exactly when the
run and the rest split into lexemes. -/
theorem readFrom_eq_ok_iff (written : Text.AreCodes text) (bounded : text.length ≤ Number.exactLimit)
    (same : text = before ++ run ++ rest) (taken : ∀ code ∈ run, reader.takes code = true) :
    reader.readFrom text (Place.start.after (before ++ run)) (openWord before run) rest = .ok tokens ↔
      ∃ lexemes, reader.Splits (run ++ rest) lexemes ∧ tokens = reader.tokensFrom text before.length lexemes := by
  -- The cases are those of the reader. A run is told apart from the rest only where it cannot go on, since before
  -- that its characters are the beginning of a word and not a word.
  generalize atPlace : Place.start.after (before ++ run) = place
  generalize isOpen : openWord before run = word
  induction place, word, rest using readFrom.induct reader generalizing before run tokens with
  | case1 place word =>
    subst atPlace isOpen
    rw [readFrom_nil written bounded (same.trans (List.append_nil _)), exists_splits_run_iff escapes taken (by simp)]
    constructor
    · intro finished
      cases finished
      exact ⟨[], splits_nil_iff.mpr rfl, (List.append_nil _).symm⟩
    · intro given
      obtain ⟨more, splits, rfl⟩ := given
      rw [splits.eq_nil, tokensFrom, List.append_nil]
  | case2 place word rest ih =>
    subst atPlace isOpen
    cases rest with
    | nil =>
      rw [exists_splits_run_iff escapes taken (by simpa using takes_eq_false_of_mem escapes), readFrom, if_pos rfl,
        finish_openWord reader same written bounded]
      constructor
      · intro read
        cases read
      · intro given
        obtain ⟨more, splits, -⟩ := given
        exact absurd splits (not_splits_backslash escapes)
    | cons escaped rest =>
      refine readFrom_lexeme_eq_ok_iff escapes (.escape escaped) written bounded same rfl trivial taken fun others => ?_
      have read := @ih (before ++ run ++ (Lexeme.escape escaped).codes) [] others (by simp [same, Lexeme.codes])
        (by simp) (by simp [Place.after_append, Lexeme.codes]) rfl
      rwa [Place.after_append _ (before ++ run)]
  | case3 place word code rest plain separates ih =>
    subst atPlace isOpen
    have fits : reader.Fits (.separator code) := ⟨List.contains_iff_mem.mp separates, plain⟩
    refine readFrom_lexeme_eq_ok_iff escapes (.separator code) written bounded same rfl fits taken fun others => ?_
    have read := @ih (before ++ run ++ (Lexeme.separator code).codes) [] others
      (by simp [same, Lexeme.codes]) (by simp) (by simp [Place.after_append, Lexeme.codes]) rfl
    rwa [Place.after_append _ (before ++ run)]
  | case4 place word code rest plain separates allowed ih =>
    subst atPlace isOpen
    have takes : reader.takes code = true := by simpa [TokenReader.takes, allowed] using separates
    rw [readFrom, if_neg plain, if_neg separates, if_pos allowed, extend_openWord]
    have read := @ih before (run ++ [code]) tokens (by simp [same])
      (by simpa [or_imp, forall_and, takes] using taken) (by simp [Place.after_append])
    rw [extend_openWord] at read
    simpa using read rfl
  | case5 place word code rest plain separates allowed =>
    subst atPlace isOpen
    have refused : reader.takes code = false := by simp [TokenReader.takes, allowed]
    rw [readFrom, if_neg plain, if_neg separates, if_neg allowed,
      exists_splits_run_iff escapes taken (by simpa using refused)]
    constructor
    · intro read
      cases read
    · intro given
      obtain ⟨more, splits, -⟩ := given
      obtain ⟨_, _, ⟨separator, -⟩, -⟩ | ⟨_, _, _, escape, -⟩ := splits.begins refused
      · exact absurd (List.contains_iff_mem.mpr separator) separates
      · exact absurd escape plain

end Reading

/-- The backslash and the line feed separate for every reader. -/
theorem exists_separators_eq {data : Pattern.CharacterData} {definitions : List Definition}
    {allowed : AllowedCharacters} {separators : List Text}
    (made : create data definitions allowed separators = .ok reader) :
    ∃ own, reader.separators = own ++ [Text.backslash, Text.lineFeed] := by
  obtain ⟨allows, -, made⟩ := bind_eq_ok_iff.mp made
  obtain ⟨own, -, made⟩ := bind_eq_ok_iff.mp made
  cases made
  exact ⟨own, rfl⟩

theorem backslash_mem_separators {data : Pattern.CharacterData} {definitions : List Definition} {allowed : AllowedCharacters}
    {separators : List Text} (made : create data definitions allowed separators = .ok reader) :
    Text.backslash ∈ reader.separators := by
  obtain ⟨own, separators_eq⟩ := exists_separators_eq made
  simp [separators_eq]

theorem lineFeed_mem_separators {data : Pattern.CharacterData} {definitions : List Definition} {allowed : AllowedCharacters}
    {separators : List Text} (made : create data definitions allowed separators = .ok reader) :
    Text.lineFeed ∈ reader.separators := by
  obtain ⟨own, separators_eq⟩ := exists_separators_eq made
  simp [separators_eq]

theorem read_eq_ok_iff_splits (escapes : Text.backslash ∈ reader.separators) {text : Text}
    (bounded : text.length ≤ Number.exactLimit) :
    reader.read text = .ok tokens ↔
      ∃ lexemes, reader.Splits text.codes lexemes ∧ tokens = reader.tokensFrom text.codes 0 lexemes :=
  @readFrom_eq_ok_iff reader text.codes [] [] text.codes tokens escapes text.areCodes_codes bounded rfl (by simp)

/-- A reader accepts a text exactly when the text splits into lexemes. The text then splits in no other way, and the
reader reads the tokens of its lexemes at their offsets. No text has more characters than counts are exact for. -/
theorem read_eq_ok_iff {data : Pattern.CharacterData} {definitions : List Definition}
    {allowed : AllowedCharacters} {separators : List Text}
    {text : Text} (made : create data definitions allowed separators = .ok reader)
    (bounded : text.length ≤ Number.exactLimit) :
    reader.read text = .ok tokens ↔
      ∃ lexemes, reader.Splits text.codes lexemes ∧
        (∀ others, reader.Splits text.codes others → others = lexemes) ∧
        tokens = reader.tokensFrom text.codes 0 lexemes := by
  have escapes := backslash_mem_separators made
  refine (read_eq_ok_iff_splits escapes bounded).trans ⟨?_, ?_⟩
  · intro given
    obtain ⟨lexemes, splits, same⟩ := given
    exact ⟨lexemes, splits, fun others split => split.unique escapes splits, same⟩
  · intro given
    obtain ⟨lexemes, splits, -, same⟩ := given
    exact ⟨lexemes, splits, same⟩

end TokenReader

namespace Brackets

/-- Tables of characters that know of no others than those of ASCII. -/
def asciiOnly : Pattern.CharacterData := ⟨fun _ => false, fun _ => false, fun _ _ => none, fun _ => none⟩

/-- Whether a text is made of letters. -/
def isLetters (text : Text) : Bool := text.chars.all Char.isAlpha

/-- A reader of brackets, which are tokens, and of blanks, which are not. -/
def reader : TokenReader :=
  { definitions := [.char "(", .char ")"], allows := fun code => isLetters (.ofCodes [code])
    separators := [' '.toNat, '('.toNat, ')'.toNat, Text.backslash, Text.lineFeed] }

/-- A text with the first unit of a pair, which a backslash escapes, and without the second one. -/
def halved : Text := .ofString "(a\\" ++ ⟨[0xD83D]⟩ ++ .ofString "\nb"

end Brackets

/-- A bracket, a word, a unit that is no character behind a backslash, and a word on the next line. -/
theorem TokenReader.read_halved_eq_ok :
    TokenReader.create Brackets.asciiOnly [.char "(", .char ")"] (.predicate Brackets.isLetters) [" ", "(", ")"] =
        .ok Brackets.reader ∧
      Brackets.reader.read Brackets.halved = .ok (Brackets.reader.tokensFrom Brackets.halved.codes 0
        [.separator '('.toNat, .word ['a'.toNat], .escape 0xD83D, .separator Text.lineFeed, .word ['b'.toNat]]) ∧
      positionIn Brackets.halved.codes 5 = .ofCounts 1 0 5 := by
  have made : TokenReader.create Brackets.asciiOnly [.char "(", .char ")"] (.predicate Brackets.isLetters) [" ", "(", ")"] =
      .ok Brackets.reader := rfl
  have bounded : Brackets.halved.length ≤ Number.exactLimit := by decide
  have splits : Brackets.reader.Splits Brackets.halved.codes
      [.separator '('.toNat, .word ['a'.toNat], .escape 0xD83D, .separator Text.lineFeed, .word ['b'.toNat]] := by
    refine ⟨by decide, ?_, ?_⟩
    · simp [Fits, Brackets.reader]
      decide
    · simp [Lexeme.isWord]
  refine ⟨made, (TokenReader.read_eq_ok_iff made bounded).mpr ⟨_, splits, ?_, rfl⟩, by decide⟩
  exact fun others split => split.unique (TokenReader.backslash_mem_separators made) splits

end TokenGrammar
