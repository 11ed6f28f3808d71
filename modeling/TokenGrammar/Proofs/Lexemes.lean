import Mathlib.Data.List.Chain
import TokenGrammar.Proofs.Places

namespace TokenGrammar

/-- A piece of a text: the characters of a word, a separator, or a backslash and the character behind it. -/
inductive Lexeme where
  | word (codes : List Nat)
  | separator (code : Nat)
  | escape (code : Nat)

namespace Lexeme

def codes : Lexeme → List Nat
  | .word codes => codes
  | .separator code => [code]
  | .escape code => [Text.backslash, code]

def isWord : Lexeme → Bool
  | .word _ => true
  | _ => false

/-- The word of a run of characters, if there are any. -/
def ofRun : List Nat → List Lexeme
  | [] => []
  | run => [.word run]

theorem ofRun_of_ne_nil {run : List Nat} (nonempty : run ≠ []) : ofRun run = [.word run] := by
  cases run with
  | nil => contradiction
  | cons _ _ => rfl

end Lexeme

namespace TokenReader

/-- Whether a reader takes a character into a word, unless it is escaped. -/
def takes (reader : TokenReader) (code : Nat) : Bool :=
  reader.allows code && !reader.separators.contains code

/-- What a lexeme may be: a run of characters that the reader takes, or a separator that does not escape the
character behind it, or an escape. -/
def Fits (reader : TokenReader) : Lexeme → Prop
  | .word codes => codes ≠ [] ∧ ∀ code ∈ codes, reader.takes code = true
  | .separator code => code ∈ reader.separators ∧ code ≠ Text.backslash
  | .escape _ => True

/-- A text splits into lexemes that spell it, and in which no word borders on another one. -/
structure Splits (reader : TokenReader) (text : List Nat) (lexemes : List Lexeme) : Prop where
  spells : lexemes.flatMap Lexeme.codes = text
  fits : ∀ lexeme ∈ lexemes, reader.Fits lexeme
  maximal : lexemes.IsChain fun first second => first.isWord = true → second.isWord = false

variable {reader : TokenReader} {text run rest : List Nat} {lexeme : Lexeme} {lexemes more : List Lexeme}
  {code : Nat}

theorem takes_eq_false_of_mem (separates : code ∈ reader.separators) : reader.takes code = false := by
  simp [takes, separates]

theorem splits_nil_iff : reader.Splits text [] ↔ text = [] :=
  ⟨fun splits => splits.spells.symm, fun same => ⟨same.symm, by simp, .nil⟩⟩

theorem splits_cons_iff : reader.Splits text (lexeme :: more) ↔
    ∃ rest, text = lexeme.codes ++ rest ∧ reader.Fits lexeme ∧
      (∀ next ∈ more.head?, lexeme.isWord = true → next.isWord = false) ∧ reader.Splits rest more := by
  constructor
  · intro splits
    obtain ⟨borders, maximal⟩ := List.isChain_cons.mp splits.maximal
    obtain ⟨fits, others⟩ := List.forall_mem_cons.mp splits.fits
    exact ⟨_, splits.spells.symm, fits, borders, rfl, others, maximal⟩
  · intro given
    obtain ⟨rest, rfl, fits, borders, splits⟩ := given
    refine ⟨?_, List.forall_mem_cons.mpr ⟨fits, splits.fits⟩, List.isChain_cons.mpr ⟨borders, splits.maximal⟩⟩
    rw [List.flatMap_cons, splits.spells]

theorem Splits.eq_nil (splits : reader.Splits [] lexemes) : lexemes = [] := by
  cases lexemes with
  | nil => rfl
  | cons lexeme more =>
    obtain ⟨rest, spells, fits, -, -⟩ := splits_cons_iff.mp splits
    cases lexeme with
    | word codes => exact absurd (List.append_eq_nil_iff.mp spells.symm).1 fits.1
    | separator code | escape code => cases spells

/-- A character that a reader does not take is a separator or begins an escape. -/
theorem Splits.begins (splits : reader.Splits (code :: rest) lexemes)
    (refused : reader.takes code = false) :
    (∃ more, lexemes = .separator code :: more ∧ (code ∈ reader.separators ∧ code ≠ Text.backslash) ∧
      reader.Splits rest more) ∨
    ∃ escaped behind more, code = Text.backslash ∧ rest = escaped :: behind ∧ lexemes = .escape escaped :: more ∧
      reader.Splits behind more := by
  cases lexemes with
  | nil => cases splits_nil_iff.mp splits
  | cons lexeme more =>
    obtain ⟨behind, spells, fits, -, others⟩ := splits_cons_iff.mp splits
    cases lexeme with
    | word codes =>
      obtain ⟨nonempty, taken⟩ := fits
      obtain ⟨first, tail, rfl⟩ := List.exists_cons_of_ne_nil nonempty
      cases spells
      rw [taken code (List.mem_cons_self ..)] at refused
      cases refused
    | separator separator =>
      cases spells
      exact .inl ⟨more, rfl, fits, others⟩
    | escape escaped =>
      cases spells
      exact .inr ⟨escaped, behind, more, rfl, rfl, rfl, others⟩

/-- Where a text begins with no character that the reader takes, no word begins its split. -/
theorem Splits.head_of_refused (splits : reader.Splits rest more)
    (refused : ∀ code ∈ rest.head?, reader.takes code = false) :
    ∀ next ∈ more.head?, next.isWord = false := by
  cases rest with
  | nil => simp [splits.eq_nil]
  | cons code rest =>
    obtain ⟨_, rfl, -⟩ | ⟨_, _, _, -, -, rfl, -⟩ := splits.begins (refused code rfl) <;> simp [Lexeme.isWord]

/-- What a reader takes from the front of a text is a run that ends where it does not take a character. -/
theorem takeWhile_takes (taken : ∀ code ∈ run, reader.takes code = true)
    (refused : ∀ code ∈ rest.head?, reader.takes code = false) :
    (run ++ rest).takeWhile reader.takes = run := by
  rw [List.takeWhile_append_of_pos taken]
  cases rest with
  | nil => simp
  | cons code rest => simp [refused code rfl]

section Escapes

variable (escapes : Text.backslash ∈ reader.separators)
include escapes

/-- A separator or an escape in front of a text is a lexeme by itself. -/
theorem splits_lexeme_iff (other : lexeme.isWord = false) (fits : reader.Fits lexeme) :
    reader.Splits (lexeme.codes ++ rest) lexemes ↔
      ∃ more, lexemes = lexeme :: more ∧ reader.Splits rest more := by
  constructor
  · intro splits
    cases lexeme with
    | word codes => cases other
    | separator code =>
      obtain ⟨more, same, -, others⟩ | ⟨_, _, _, escape, -⟩ := splits.begins (takes_eq_false_of_mem fits.1)
      · exact ⟨more, same, others⟩
      · exact absurd escape fits.2
    | escape code =>
      obtain ⟨_, _, ⟨-, plain⟩, -⟩ | ⟨_, _, more, -, spells, same, others⟩ :=
        splits.begins (takes_eq_false_of_mem escapes)
      · contradiction
      · cases spells
        exact ⟨more, same, others⟩
  · intro given
    obtain ⟨more, rfl, others⟩ := given
    exact splits_cons_iff.mpr ⟨rest, rfl, fits, by simp [other], others⟩

theorem not_splits_backslash : ¬ reader.Splits [Text.backslash] lexemes := by
  intro splits
  obtain ⟨_, _, ⟨-, plain⟩, -⟩ | ⟨_, _, _, -, spells, -⟩ := splits.begins (takes_eq_false_of_mem escapes)
  · contradiction
  · cases spells

/-- Where no word begins a split, the text begins with no character that the reader takes. -/
theorem Splits.refused_of_head (splits : reader.Splits rest more)
    (stops : ∀ next ∈ more.head?, next.isWord = false) : ∀ code ∈ rest.head?, reader.takes code = false := by
  cases more with
  | nil => simp [splits_nil_iff.mp splits]
  | cons lexeme more =>
    obtain ⟨behind, rfl, fits, -, -⟩ := splits_cons_iff.mp splits
    cases lexeme with
    | word codes => cases stops _ rfl
    | separator code => simpa [Lexeme.codes] using takes_eq_false_of_mem fits.1
    | escape code => simpa [Lexeme.codes] using takes_eq_false_of_mem escapes

/-- A run of characters that a reader takes, up to one that it does not take, is a word by itself. -/
theorem splits_run_iff (taken : ∀ code ∈ run, reader.takes code = true)
    (refused : ∀ code ∈ rest.head?, reader.takes code = false) :
    reader.Splits (run ++ rest) lexemes ↔ ∃ more, lexemes = Lexeme.ofRun run ++ more ∧ reader.Splits rest more := by
  cases run with
  | nil => simp [Lexeme.ofRun]
  | cons first tail =>
    simp only [Lexeme.ofRun, List.singleton_append]
    constructor
    · intro splits
      cases lexemes with
      | nil => cases splits_nil_iff.mp splits
      | cons lexeme more =>
        cases isWord : lexeme.isWord with
        | false =>
          have refusedFirst := splits.refused_of_head escapes (by simpa using isWord) first rfl
          rw [taken first (List.mem_cons_self ..)] at refusedFirst
          cases refusedFirst
        | true =>
          obtain ⟨behind, spells, fits, borders, others⟩ := splits_cons_iff.mp splits
          cases lexeme with
          | word codes =>
            have stops := others.refused_of_head escapes fun next found => borders next found isWord
            have same : first :: tail = codes := by
              rw [← takeWhile_takes taken refused, spells]
              exact takeWhile_takes fits.2 stops
            subst same
            rw [List.append_cancel_left spells]
            exact ⟨more, rfl, others⟩
          | separator code | escape code => cases isWord
    · intro given
      obtain ⟨more, rfl, others⟩ := given
      refine splits_cons_iff.mpr ⟨rest, rfl, ⟨List.cons_ne_nil first tail, taken⟩, ?_, others⟩
      intro next found _
      exact others.head_of_refused refused next found

/-- A text splits in one way at most. -/
theorem Splits.unique {others : List Lexeme} (splits : reader.Splits text lexemes)
    (split : reader.Splits text others) : lexemes = others := by
  induction lexemes generalizing text others with
  | nil =>
    rw [splits_nil_iff.mp splits] at split
    exact split.eq_nil.symm
  | cons lexeme more ih =>
    obtain ⟨rest, rfl, fits, borders, tail⟩ := splits_cons_iff.mp splits
    cases lexeme with
    | word codes =>
      have stops := tail.refused_of_head escapes fun next found => borders next found rfl
      obtain ⟨more', rfl, split'⟩ := (splits_run_iff escapes fits.2 stops).mp split
      rw [Lexeme.ofRun_of_ne_nil fits.1, ih tail split', List.singleton_append]
    | separator code | escape code =>
      obtain ⟨more', rfl, split'⟩ := (splits_lexeme_iff escapes rfl fits).mp split
      rw [ih tail split']

end Escapes

end TokenReader

end TokenGrammar
