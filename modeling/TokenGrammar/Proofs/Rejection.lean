import Mathlib.Data.Nat.Find
import TokenGrammar.Proofs.Lexing

namespace TokenGrammar

/-- A stretch of characters escapes the character behind it when an odd number of backslashes ends it. -/
def EscapesNext (before : List Nat) : Prop := (before.reverse.takeWhile (· = Text.backslash)).length % 2 = 1

instance (before : List Nat) : Decidable (EscapesNext before) := inferInstanceAs (Decidable (_ = _))

theorem escapesNext_append_singleton {before : List Nat} {code : Nat} :
    EscapesNext (before ++ [code]) ↔ code = Text.backslash ∧ ¬ EscapesNext before := by
  by_cases escape : code = Text.backslash
  · simp only [EscapesNext, escape, List.reverse_append, List.reverse_singleton, List.singleton_append, decide_true,
      List.takeWhile_cons_of_pos, List.length_cons, true_and]
    omega
  · simp [EscapesNext, escape]

namespace TokenReader

/-- The problem that a reader has with the character at an offset of a text. -/
inductive Refuses (reader : TokenReader) (text : List Nat) (offset : Nat) : ReadProblem → Prop
  | unexpected {code : Nat} (found : text[offset]? = some code)
      (unescaped : ¬ EscapesNext (text.take offset)) (joins : code ∉ reader.separators)
      (forbidden : reader.allows code = false) : Refuses reader text offset (.unexpected (.ofCodes [code]))
  | danglingEscape (found : text[offset]? = some Text.backslash) (unescaped : ¬ EscapesNext (text.take offset))
      (last : offset + 1 = text.length) : Refuses reader text offset .danglingEscape

/-- The problem that a reader has with the first character that it refuses, from an offset on. -/
structure RefusesFirst (reader : TokenReader) (text : List Nat) (since offset : Nat) (problem : ReadProblem) :
    Prop where
  since_le : since ≤ offset
  refuses : reader.Refuses text offset problem
  first : ∀ earlier, since ≤ earlier → earlier < offset → ∀ other, ¬ reader.Refuses text earlier other

variable {reader : TokenReader} {text passed before run rest : List Nat} {code : Nat} {since offset : Nat}
  {problem : ReadProblem} {fault : Fault}

theorem Refuses.offset_lt (refuses : reader.Refuses text offset problem) : offset < text.length := by
  cases refuses with
  | unexpected found | danglingEscape found => exact (List.getElem?_eq_some_iff.mp found).1

/-- What a reader refuses about the character behind a stretch. -/
theorem refuses_length_iff (same : text = passed ++ code :: rest) :
    reader.Refuses text passed.length problem ↔ ¬ EscapesNext passed ∧
      ((problem = .unexpected (.ofCodes [code]) ∧ code ∉ reader.separators ∧ reader.allows code = false) ∨
        (problem = .danglingEscape ∧ code = Text.backslash ∧ rest = [])) := by
  have here : text[passed.length]? = some code := by simp [same]
  have taken : text.take passed.length = passed := by rw [same, List.take_left]
  constructor
  · intro refuses
    cases refuses with
    | unexpected found unescaped joins forbidden =>
      rw [taken] at unescaped
      cases here.symm.trans found
      exact ⟨unescaped, .inl ⟨rfl, joins, forbidden⟩⟩
    | danglingEscape found unescaped last =>
      rw [taken] at unescaped
      cases here.symm.trans found
      rw [same, List.length_append, List.length_cons] at last
      exact ⟨unescaped, .inr ⟨rfl, rfl, List.length_eq_zero_iff.mp (by omega)⟩⟩
  · rintro ⟨unescaped, ⟨rfl, joins, forbidden⟩ | ⟨rfl, rfl, rfl⟩⟩
    · exact .unexpected here (by rwa [taken]) joins forbidden
    · exact .danglingEscape here (by rwa [taken]) (by simp [same])

/-- Characters that a reader does not refuse are passed over. -/
theorem refusesFirst_add_iff {count : Nat}
    (fine : ∀ earlier, since ≤ earlier → earlier < since + count → ∀ other, ¬ reader.Refuses text earlier other) :
    reader.RefusesFirst text (since + count) offset problem ↔ reader.RefusesFirst text since offset problem := by
  constructor
  · intro given
    refine ⟨Nat.le_of_add_right_le given.since_le, given.refuses, ?_⟩
    intro earlier since_le before
    by_cases passed : earlier < since + count
    · exact fine earlier since_le passed
    · exact given.first earlier (Nat.le_of_not_gt passed) before
  · intro given
    refine ⟨Nat.le_of_not_gt fun before => fine offset given.since_le before problem given.refuses, given.refuses, ?_⟩
    exact fun earlier since_le => given.first earlier (Nat.le_of_add_right_le since_le)

/-- Where a character is refused for one problem, it is the first one from there on. -/
theorem refusesFirst_iff_of_refuses {known : ReadProblem}
    (here : ∀ other, reader.Refuses text since other ↔ other = known) :
    reader.RefusesFirst text since offset problem ↔ offset = since ∧ problem = known := by
  constructor
  · intro given
    obtain rfl | later := Nat.eq_or_lt_of_le given.since_le
    · exact ⟨rfl, (here problem).mp given.refuses⟩
    · exact absurd ((here known).mpr rfl) (given.first since (Nat.le_refl since) later known)
  · rintro ⟨rfl, rfl⟩
    exact ⟨Nat.le_refl _, (here _).mpr rfl, fun earlier since_le before => absurd before (Nat.not_lt_of_le since_le)⟩

/-- The failure at a refused character is the one that it is to be. -/
theorem failure_iff_of_refuses {known : ReadProblem} (same : text = passed ++ rest)
    (here : ∀ other, reader.Refuses text passed.length other ↔ other = known) :
    (.error (.unreadable (failure text (Place.start.after passed) known)) : Except Fault (List Token)) = .error fault ↔
      ∃ offset problem, reader.RefusesFirst text passed.length offset problem ∧
        fault = .unreadable (failure text (Place.start.after (text.take offset)) problem) := by
  have taken : text.take passed.length = passed := by rw [same, List.take_left]
  simp only [refusesFirst_iff_of_refuses here]
  constructor
  · intro fails
    cases fails
    exact ⟨passed.length, known, ⟨rfl, rfl⟩, by rw [taken]⟩
  · rintro ⟨_, _, ⟨rfl, rfl⟩, rfl⟩
    rw [taken]

theorem refusesFirst_succ_iff (fine : ∀ other, ¬ reader.Refuses text since other) :
    reader.RefusesFirst text (since + 1) offset problem ↔ reader.RefusesFirst text since offset problem := by
  apply refusesFirst_add_iff
  intro earlier since_le before
  rwa [show earlier = since by omega]

/-- To add what was read before is to fail as well. -/
private theorem bind_pure_eq_error_iff {α β : Type} {attempt : Except Fault α} {add : α → β} :
    (attempt >>= fun answer => pure (add answer)) = .error fault ↔ attempt = .error fault := by
  cases attempt <;> simp [bind, Except.bind, pure, Except.pure]

section Reading

variable (escapes : Text.backslash ∈ reader.separators)

/-- Behind a separator or an escape no character is escaped. -/
theorem not_escapesNext_lexeme {lexeme : Lexeme} (other : lexeme.isWord = false) (fits : reader.Fits lexeme)
    (unescaped : ¬ EscapesNext passed) : ¬ EscapesNext (passed ++ lexeme.codes) := by
  cases lexeme with
  | word codes => cases other
  | separator code =>
    rw [Lexeme.codes, escapesNext_append_singleton]
    exact fun given => fits.2 given.1
  | escape code =>
    rw [Lexeme.codes, ← List.singleton_append, ← List.append_assoc, escapesNext_append_singleton,
      escapesNext_append_singleton]
    exact fun given => given.2 ⟨rfl, unescaped⟩

include escapes

/-- No character of a separator or of an escape is refused. -/
theorem refusesFirst_lexeme_iff {lexeme : Lexeme} (other : lexeme.isWord = false) (fits : reader.Fits lexeme)
    (same : text = passed ++ (lexeme.codes ++ rest)) (unescaped : ¬ EscapesNext passed) :
    reader.RefusesFirst text (passed ++ lexeme.codes).length offset problem ↔
      reader.RefusesFirst text passed.length offset problem := by
  cases lexeme with
  | word codes => cases other
  | separator code =>
    have fine (other : ReadProblem) : ¬ reader.Refuses text passed.length other := by
      rw [refuses_length_iff same]
      simp [fits.1, fits.2]
    rw [Lexeme.codes, List.length_append]
    exact refusesFirst_succ_iff fine
  | escape code =>
    have begins (other : ReadProblem) : ¬ reader.Refuses text passed.length other := by
      rw [refuses_length_iff same]
      simp [escapes]
    have behind : text = passed ++ [Text.backslash] ++ code :: rest := by
      rw [same, Lexeme.codes, List.append_assoc]
      rfl
    have ends (other : ReadProblem) : ¬ reader.Refuses text (passed ++ [Text.backslash]).length other := by
      rw [refuses_length_iff behind, escapesNext_append_singleton]
      exact fun given => given.1 ⟨rfl, unescaped⟩
    rw [← refusesFirst_succ_iff begins]
    rw [List.length_append] at ends
    rw [Lexeme.codes, List.length_append]
    exact refusesFirst_succ_iff ends

variable (written : Text.AreCodes text) (bounded : text.length ≤ Number.exactLimit)
include written bounded

/-- What is asked of the text behind a separator or an escape is asked of it from there on. -/
theorem readFrom_lexeme_eq_error_iff (lexeme : Lexeme) (same : text = before ++ run ++ (lexeme.codes ++ rest))
    (other : lexeme.isWord = false) (fits : reader.Fits lexeme) (unescaped : ¬ EscapesNext (before ++ run))
    (behind : reader.readFrom text (Place.start.after (before ++ run ++ lexeme.codes)) none rest = .error fault ↔
      ∃ offset problem, reader.RefusesFirst text (before ++ run ++ lexeme.codes).length offset problem ∧
        fault = .unreadable (failure text (Place.start.after (text.take offset)) problem)) :
    reader.readFrom text (Place.start.after (before ++ run)) (openWord before run) (lexeme.codes ++ rest) =
      .error fault ↔ ∃ offset problem, reader.RefusesFirst text (before ++ run).length offset problem ∧
        fault = .unreadable (failure text (Place.start.after (text.take offset)) problem) := by
  rw [readFrom_lexeme written bounded other fits same, bind_pure_eq_error_iff, behind]
  simp only [refusesFirst_lexeme_iff escapes other fits same unescaped]

/-- From a place on that is not escaped, a reader fails exactly when it refuses a character, and it fails at the first
character that it refuses. -/
theorem readFrom_eq_error_iff (same : text = before ++ run ++ rest) (unescaped : ¬ EscapesNext (before ++ run)) :
    reader.readFrom text (Place.start.after (before ++ run)) (openWord before run) rest = .error fault ↔
      ∃ offset problem, reader.RefusesFirst text (before ++ run).length offset problem ∧
        fault = .unreadable (failure text (Place.start.after (text.take offset)) problem) := by
  generalize atPlace : Place.start.after (before ++ run) = place
  generalize isOpen : openWord before run = word
  induction place, word, rest using readFrom.induct reader generalizing before run with
  | case1 place word =>
    subst atPlace isOpen
    rw [readFrom_nil written bounded (same.trans (List.append_nil _))]
    constructor
    · intro fails
      cases fails
    · rintro ⟨offset, problem, refuses, -⟩
      have inside := refuses.refuses.offset_lt
      rw [same, List.append_nil] at inside
      exact absurd inside (Nat.not_lt_of_le refuses.since_le)
  | case2 place word rest ih =>
    subst atPlace isOpen
    cases rest with
    | nil =>
      rw [readFrom, if_pos rfl, finish_openWord reader same written bounded]
      refine failure_iff_of_refuses same fun other => ?_
      rw [refuses_length_iff same]
      simp [unescaped, escapes]
    | cons escaped rest =>
      have fits : reader.Fits (.escape escaped) := trivial
      refine readFrom_lexeme_eq_error_iff escapes written bounded (.escape escaped) same rfl fits unescaped ?_
      have read := @ih (before ++ run ++ (Lexeme.escape escaped).codes) [] (by simp [same, Lexeme.codes])
        (by simpa using not_escapesNext_lexeme rfl fits unescaped) (by simp [Place.after_append, Lexeme.codes]) rfl
      rw [List.append_nil] at read
      rwa [Place.after_append _ (before ++ run)]
  | case3 place word code rest plain separates ih =>
    subst atPlace isOpen
    have fits : reader.Fits (.separator code) := ⟨List.contains_iff_mem.mp separates, plain⟩
    refine readFrom_lexeme_eq_error_iff escapes written bounded (.separator code) same rfl fits unescaped ?_
    have read := @ih (before ++ run ++ (Lexeme.separator code).codes) [] (by simp [same, Lexeme.codes])
      (by simpa using not_escapesNext_lexeme rfl fits unescaped) (by simp [Place.after_append, Lexeme.codes]) rfl
    rw [List.append_nil] at read
    rwa [Place.after_append _ (before ++ run)]
  | case4 place word code rest plain separates allowed ih =>
    subst atPlace isOpen
    have fine (other : ReadProblem) : ¬ reader.Refuses text (before ++ run).length other := by
      rw [refuses_length_iff same]
      simp [plain, allowed]
    have goesOn : ¬ EscapesNext (before ++ (run ++ [code])) := by
      rw [← List.append_assoc, escapesNext_append_singleton]
      exact fun given => plain given.1
    rw [readFrom, if_neg plain, if_neg separates, if_pos allowed, extend_openWord]
    have read := @ih before (run ++ [code]) (by simp [same]) goesOn (by simp [Place.after_append])
    rw [extend_openWord, ← List.append_assoc, List.length_append] at read
    simp only [← refusesFirst_succ_iff fine]
    exact read rfl
  | case5 place word code rest plain separates allowed =>
    subst atPlace isOpen
    have joins : code ∉ reader.separators := fun member => separates (List.contains_iff_mem.mpr member)
    rw [readFrom, if_neg plain, if_neg separates, if_neg allowed]
    refine failure_iff_of_refuses same fun other => ?_
    rw [refuses_length_iff same]
    simp [unescaped, plain, joins, allowed]

end Reading

/-- Where a reader refuses a character, there is a first one. -/
theorem Refuses.exists_first (refuses : reader.Refuses text offset problem) :
    ∃ first other, reader.RefusesFirst text 0 first other := by
  classical
  have some : ∃ offset, ∃ problem, reader.Refuses text offset problem := ⟨offset, problem, refuses⟩
  obtain ⟨other, refuses⟩ := Nat.find_spec some
  exact ⟨Nat.find some, other, Nat.zero_le _, refuses, fun earlier _ before other refused =>
    Nat.find_min some before ⟨other, refused⟩⟩

/-- A reader fails at the first character that it refuses, if there is one. -/
theorem read_eq_error_iff (escapes : Text.backslash ∈ reader.separators) {text : Text}
    (bounded : text.length ≤ Number.exactLimit) :
    reader.read text = .error fault ↔ ∃ offset problem, reader.RefusesFirst text.codes 0 offset problem ∧
      fault = .unreadable (failure text.codes (Place.start.after (text.codes.take offset)) problem) :=
  @readFrom_eq_error_iff reader text.codes [] [] text.codes fault escapes text.areCodes_codes bounded rfl
    (by simp [EscapesNext])

end TokenReader

/-- The coordinates of a failure at an offset of a text: the offset, one more than the line feeds before it, and one
more than the characters behind the last of them. -/
structure ReadFailure.IsAt (failure : ReadFailure) (text : List Nat) (offset : Nat) : Prop where
  absoluteCharacter_eq : failure.absoluteCharacter = offset
  lineNumber_eq : failure.lineNumber = 1 + (text.take offset).count Text.lineFeed
  columnNumber_eq : failure.columnNumber = 1 + ((text.take offset).reverse.takeWhile (· ≠ Text.lineFeed)).length

namespace TokenReader

variable {reader : TokenReader} {text : List Nat} {offset : Nat}

theorem failure_isAt (problem : ReadProblem) (inside : offset < text.length) :
    (failure text (Place.start.after (text.take offset)) problem).IsAt text offset := by
  have place := Place.start_after (text.take offset)
  constructor
  · rw [failure, place, List.length_take_of_le (Nat.le_of_lt inside)]
  · rw [ReadFailure.lineNumber, failure, place, Nat.add_comm]
  · rw [ReadFailure.columnNumber, failure, place, Nat.add_comm]

/-- A reader rejects a text exactly when it refuses one of its characters: one that is not escaped, does not separate
and is not allowed, or a backslash at the end that is not escaped. It then fails because of the first such character,
with the coordinates of that one, and in no other way. -/
theorem read_rejects {data : Pattern.CharacterData} {definitions : List Definition}
    {allowed : AllowedCharacters} {separators : List Text}
    {text : Text} (made : create data definitions allowed separators = .ok reader)
    (bounded : text.length ≤ Number.exactLimit) :
    ((∃ fault, reader.read text = .error fault) ↔ ∃ offset problem, reader.Refuses text.codes offset problem) ∧
      ∀ fault, reader.read text = .error fault → ∃ failure offset, fault = .unreadable failure ∧
        fault.name = "TokenReadError" ∧ reader.Refuses text.codes offset failure.problem ∧
        (∀ earlier, earlier < offset → ∀ problem, ¬ reader.Refuses text.codes earlier problem) ∧
        failure.IsAt text.codes offset := by
  have escapes := backslash_mem_separators made
  constructor
  · constructor
    · rintro ⟨fault, rejected⟩
      obtain ⟨offset, problem, refuses, -⟩ := (read_eq_error_iff escapes bounded).mp rejected
      exact ⟨offset, problem, refuses.refuses⟩
    · rintro ⟨offset, problem, refuses⟩
      obtain ⟨first, other, refuses⟩ := refuses.exists_first
      exact ⟨_, (read_eq_error_iff escapes bounded).mpr ⟨first, other, refuses, rfl⟩⟩
  · intro fault rejected
    obtain ⟨offset, problem, refuses, rfl⟩ := (read_eq_error_iff escapes bounded).mp rejected
    exact ⟨_, offset, rfl, rfl, refuses.refuses, fun earlier => refuses.first earlier (Nat.zero_le earlier),
      failure_isAt problem refuses.refuses.offset_lt⟩

/-- The second of two digits is the first character that the reader of brackets refuses, since the first one is
escaped. -/
theorem read_rejects_behind_escape :
    create Brackets.asciiOnly [.char "(", .char ")"] (.predicate Brackets.isLetters) [" ", "(", ")"] = .ok Brackets.reader ∧
      ∃ failure, Brackets.reader.read "(\\1\n2" = .error (.unreadable failure) ∧ failure.problem = .unexpected "2" ∧
        failure.IsAt ['('.toNat, Text.backslash, '1'.toNat, Text.lineFeed, '2'.toNat] 4 := by
  have made : create Brackets.asciiOnly [.char "(", .char ")"] (.predicate Brackets.isLetters) [" ", "(", ")"] =
      .ok Brackets.reader := rfl
  have bounded : (Text.ofString "(\\1\n2").length ≤ Number.exactLimit := by decide
  have codes_eq : (Text.ofString "(\\1\n2").codes =
      ['('.toNat, Text.backslash, '1'.toNat, Text.lineFeed, '2'.toNat] := by decide
  refine ⟨made, ?_⟩
  obtain ⟨rejects, fails⟩ := read_rejects made bounded
  rw [codes_eq] at rejects fails
  generalize inCodes : ['('.toNat, Text.backslash, '1'.toNat, Text.lineFeed, '2'.toNat] = codes at *
  have refuses : Brackets.reader.Refuses codes 4 (.unexpected "2") := by
    subst inCodes
    exact .unexpected rfl (by decide) (by decide) (by decide)
  have fine : ∀ earlier, earlier < 4 → ∀ problem, ¬ Brackets.reader.Refuses codes earlier problem := by
    intro earlier before problem refuses
    have separate : ∀ code ∈ ['('.toNat, Text.backslash, Text.lineFeed], code ∈ Brackets.reader.separators := by decide
    subst inCodes
    cases refuses with
    | danglingEscape _ _ last => exact absurd before (by simp at last; omega)
    | unexpected found unescaped joins =>
      obtain rfl | rfl | rfl | rfl : earlier = 0 ∨ earlier = 1 ∨ earlier = 2 ∨ earlier = 3 := by omega
      · cases found
        exact joins (separate _ (by simp))
      · cases found
        exact joins (separate _ (by simp))
      · exact unescaped (by decide)
      · cases found
        exact joins (separate _ (by simp))
  obtain ⟨fault, rejected⟩ := rejects.mpr ⟨4, _, refuses⟩
  obtain ⟨failure, offset, rfl, -, refuses', first, isAt⟩ := fails fault rejected
  obtain before | rfl | behind := Nat.lt_trichotomy offset 4
  · exact absurd refuses' (fine offset before _)
  · refine ⟨failure, rejected, ?_, isAt⟩
    generalize failure.problem = problem at refuses' ⊢
    subst inCodes
    cases refuses' with
    | unexpected found =>
      cases found
      rfl
    | danglingEscape found => cases found
  · exact absurd refuses (first 4 behind _)

end TokenReader

end TokenGrammar
