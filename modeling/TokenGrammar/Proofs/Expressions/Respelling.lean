import Mathlib.Data.Option.Basic
import Mathlib.Logic.Relator
import TokenGrammar.Pattern

namespace TokenGrammar.Pattern

/-- A code that may be written as an escape, and what its escape has behind the backslash. -/
inductive Spells : Nat → List Nat → Prop
  | slash : Spells (codeOf '/') [codeOf '/']
  | lineFeed : Spells (codeOf '\n') [codeOf 'n']
  | carriageReturn : Spells (codeOf '\r') [codeOf 'r']
  | lineSeparator : Spells (codeOf '\u2028') ("u2028".toList.map codeOf)
  | paragraphSeparator : Spells (codeOf '\u2029') ("u2029".toList.map codeOf)

/-- What stands behind an expression between the ends of a text. -/
def closing : List Nat := [codeOf ')', codeOf '$']

/-- Codes and their respelling in front of the closing: escapes stay together, and codes that may be written as escapes
may be written so, with a backslash of their own or with the one that they have. -/
inductive Respelled : List Nat → List Nat → Prop
  | done : Respelled [] closing
  | same {code : Nat} {codes codes' : List Nat} (plain : code ≠ codeOf '\\') (rest : Respelled codes codes') :
      Respelled (code :: codes) (code :: codes')
  | escaped {code : Nat} {codes codes' : List Nat} (rest : Respelled codes codes') :
      Respelled (codeOf '\\' :: code :: codes) (codeOf '\\' :: code :: codes')
  | spelled {code : Nat} {spelling codes codes' : List Nat} (spells : Spells code spelling)
      (rest : Respelled codes codes') : Respelled (code :: codes) (codeOf '\\' :: (spelling ++ codes'))
  | spelledEscape {code : Nat} {spelling codes codes' : List Nat} (spells : Spells code spelling)
      (rest : Respelled codes codes') :
      Respelled (codeOf '\\' :: code :: codes) (codeOf '\\' :: (spelling ++ codes'))
  | dangling : Respelled [codeOf '\\'] (codeOf '\\' :: closing)

/-- The codes at which an expression and its respelling may come apart. -/
def inertCodes : List Nat :=
  [codeOf ')', codeOf '\\', codeOf '/', codeOf '\n', codeOf '\r', codeOf '\u2028', codeOf '\u2029']

/-- At inert codes an expression and its respelling may come apart. No reader takes one of them for a digit, a sign or a
letter that it knows. -/
def IsInert (code : Nat) : Prop := code ∈ inertCodes

instance (code : Nat) : Decidable (IsInert code) := inferInstanceAs (Decidable (code ∈ inertCodes))

/-- What is ahead of a reader of codes and of a reader of their respelling: the same code that is no backslash, or inert
codes, or an inert code where the codes end. -/
inductive Ahead : List Nat → List Nat → Prop
  | step {code : Nat} {codes codes' : List Nat} (plain : code ≠ codeOf '\\') (rest : Respelled codes codes') :
      Ahead (code :: codes) (code :: codes')
  | ended {code : Nat} {codes : List Nat} (inert : IsInert code) : Ahead [] (code :: codes)
  | halted {code code' : Nat} {codes codes' : List Nat} (inert : IsInert code) (inert' : IsInert code') :
      Ahead (code :: codes) (code' :: codes')

variable {codes codes' rest rest' spelling : List Nat} {code sign : Nat} {mode : Mode}

theorem Spells.isInert (spells : Spells code spelling) : IsInert code := by
  cases spells <;> decide

theorem Spells.ne_backslash (spells : Spells code spelling) : code ≠ codeOf '\\' := by
  cases spells <;> decide

theorem ne_of_inert (inert : IsInert code) (active : ¬IsInert sign) : code ≠ sign := by
  rintro rfl
  exact active inert

theorem Respelled.ahead (respelled : Respelled codes codes') : Ahead codes codes' := by
  have backslash : IsInert (codeOf '\\') := by decide
  cases respelled with
  | done => exact .ended (by decide)
  | same plain rest => exact .step plain rest
  | escaped => exact .halted backslash backslash
  | spelled spells => exact .halted spells.isInert backslash
  | spelledEscape => exact .halted backslash backslash
  | dangling => exact .halted backslash backslash

theorem Spells.length_pos (spells : Spells code spelling) : 0 < spelling.length := by
  cases spells <;> decide

theorem Respelled.length_le (respelled : Respelled codes codes') : codes.length + 2 ≤ codes'.length := by
  induction respelled with
  | done | dangling => decide
  | same _ _ ih | escaped _ ih =>
    simp only [List.length_cons]
    omega
  | spelled spells _ ih | spelledEscape spells _ ih =>
    have := spells.length_pos
    simp only [List.length_cons, List.length_append]
    omega

/-- A sign at which nothing comes apart is ahead of both or of neither. -/
theorem Respelled.skips (respelled : Respelled codes codes') (active : ¬IsInert sign) :
    (skip? sign codes = none ∧ skip? sign codes' = none) ∨
      ∃ rest rest', skip? sign codes = some rest ∧ skip? sign codes' = some rest' ∧ Respelled rest rest' := by
  cases respelled.ahead with
  | ended inert => exact .inl ⟨rfl, if_neg (ne_of_inert inert active)⟩
  | halted inert inert' => exact .inl ⟨if_neg (ne_of_inert inert active), if_neg (ne_of_inert inert' active)⟩
  | @step code codes codes' plain rest =>
    by_cases here : code = sign
    · exact .inr ⟨codes, codes', if_pos here, if_pos here, rest⟩
    · exact .inl ⟨if_neg here, if_neg here⟩

theorem Respelled.isSome_skip? (respelled : Respelled codes codes') (active : ¬IsInert sign) :
    (skip? sign codes).isSome = (skip? sign codes').isSome := by
  obtain ⟨none, none'⟩ | ⟨rest, rest', ahead, ahead', -⟩ := respelled.skips active
  · rw [none, none']
  · rw [ahead, ahead', Option.isSome_some, Option.isSome_some]

/-- What was read agrees: the same was read, and what remains is respelled. -/
def Agree {α : Type} (read read' : α × List Nat) : Prop := read.1 = read'.1 ∧ Respelled read.2 read'.2

/-- Readers of two values agree when both values do, and what remains is respelled. -/
def AgreeTwice {α β : Type} (read read' : α × β × List Nat) : Prop := read.1 = read'.1 ∧ Agree read.2 read'.2

theorem AgreeTwice.exists_eq {α β : Type} {read read' : α × β × List Nat} (agree : AgreeTwice read read') :
    ∃ rest', read' = (read.1, read.2.1, rest') ∧ Respelled read.2.2 rest' := by
  obtain ⟨first, second, rest'⟩ := read'
  obtain ⟨rfl, rfl, again⟩ := agree
  exact ⟨rest', rfl, again⟩

/-- A result follows another one when it is a value wherever that one is, and a related one. -/
def Follows {α β : Type} (related : α → β → Prop) (result : Except Problem α) (result' : Except Problem β) : Prop :=
  ∀ value, result = .ok value → ∃ value', result' = .ok value' ∧ related value value'

namespace Follows

variable {α β γ δ : Type} {related : α → β → Prop} {related' : γ → δ → Prop} {result : Except Problem α}
  {result' : Except Problem β}

theorem ok {value : α} {value' : β} (relates : related value value') : Follows related (.ok value) (.ok value') := by
  intro other same
  cases same
  exact ⟨value', rfl, relates⟩

theorem error {problem : Problem} : Follows related (.error problem) result' := by
  intro other same
  cases same

theorem bind {next : α → Except Problem γ} {next' : β → Except Problem δ} (first : Follows related result result')
    (second : ∀ value value', related value value' → Follows related' (next value) (next' value')) :
    Follows related' (result >>= next) (result' >>= next') := by
  intro other reads
  cases outcome : result with
  | error problem =>
    rw [outcome] at reads
    cases reads
  | ok value =>
    rw [outcome] at reads
    obtain ⟨value', rfl, relates⟩ := first value outcome
    exact second value value' relates other reads

theorem map {apply : α → γ} {apply' : β → δ} (first : Follows related result result')
    (second : ∀ value value', related value value' → related' (apply value) (apply' value')) :
    Follows related' (result.map apply) (result'.map apply') := by
  intro other reads
  cases outcome : result with
  | error problem =>
    rw [outcome] at reads
    cases reads
  | ok value =>
    rw [outcome] at reads
    cases reads
    obtain ⟨value', rfl, relates⟩ := first value outcome
    exact ⟨_, rfl, second value value' relates⟩

end Follows

section Digits

variable {count value : Nat} {digit : Bool}

theorem decimalDigit?_of_inert (inert : IsInert code) : decimalDigit? code = none := by
  have each : ∀ code ∈ inertCodes, decimalDigit? code = none := by decide
  exact each code inert

theorem hexDigit?_of_inert (inert : IsInert code) : hexDigit? code = none := by
  have each : ∀ code ∈ inertCodes, hexDigit? code = none := by decide
  exact each code inert

theorem readDecimal_of_inert (inert : IsInert code) :
    readDecimal digit count (code :: codes) = (digit, count, code :: codes) := by
  rw [readDecimal, decimalDigit?_of_inert inert]

theorem Respelled.readDecimal (respelled : Respelled codes codes') (digit : Bool) (count : Nat) :
    AgreeTwice (readDecimal digit count codes) (Pattern.readDecimal digit count codes') := by
  induction codes generalizing codes' digit count with
  | nil =>
    cases respelled
    exact ⟨rfl, rfl, .done⟩
  | cons code rest ih =>
    cases respelled.ahead with
    | step plain again =>
      rw [Pattern.readDecimal, Pattern.readDecimal]
      cases decimalDigit? code with
      | none => exact ⟨rfl, rfl, respelled⟩
      | some value => exact ih again true _
    | halted inert inert' =>
      rw [readDecimal_of_inert inert, readDecimal_of_inert inert']
      exact ⟨rfl, rfl, respelled⟩

theorem Respelled.readHex? (respelled : Respelled codes codes') (count value : Nat) :
    Option.Rel Agree (readHex? count value codes) (Pattern.readHex? count value codes') := by
  induction count generalizing codes codes' value with
  | zero => exact .some ⟨rfl, respelled⟩
  | succ count ih =>
    cases respelled.ahead with
    | ended inert =>
      rw [Pattern.readHex?, Pattern.readHex?, hexDigit?_of_inert inert]
      exact .none
    | halted inert inert' =>
      rw [Pattern.readHex?, Pattern.readHex?, hexDigit?_of_inert inert, hexDigit?_of_inert inert']
      exact .none
    | @step code _ _ plain rest =>
      rw [Pattern.readHex?, Pattern.readHex?]
      cases hexDigit? code with
      | none => exact .none
      | some digit => exact ih rest _

theorem Respelled.readBraced? (respelled : Respelled codes codes') (digit : Bool) (value : Nat) :
    Option.Rel Agree (readBraced? digit value codes) (Pattern.readBraced? digit value codes') := by
  have brace : ¬IsInert (codeOf '\x7d') := by decide
  induction codes generalizing codes' digit value with
  | nil =>
    cases respelled
    rw [Pattern.readBraced?, closing, Pattern.readBraced?]
    exact .none
  | cons code rest ih =>
    cases respelled.ahead with
    | step plain again =>
      rw [Pattern.readBraced?, Pattern.readBraced?]
      split
      · split
        · exact .some ⟨rfl, again⟩
        · exact .none
      · cases hexDigit? code with
        | none => exact .none
        | some digit => exact ih again true _
    | halted inert inert' =>
      rw [Pattern.readBraced?, Pattern.readBraced?, if_neg (ne_of_inert inert brace), if_neg (ne_of_inert inert' brace),
        hexDigit?_of_inert inert, hexDigit?_of_inert inert']
      exact .none

theorem not_octal_of_inert (inert : IsInert code) : ¬(codeOf '0' ≤ code ∧ code ≤ codeOf '7') := by
  have each : ∀ code ∈ inertCodes, ¬(codeOf '0' ≤ code ∧ code ≤ codeOf '7') := by decide
  exact each code inert

theorem Respelled.readOctal (respelled : Respelled codes codes') (count value : Nat) :
    Agree (readOctal count value codes) (Pattern.readOctal count value codes') := by
  induction count generalizing codes codes' value with
  | zero => exact ⟨rfl, respelled⟩
  | succ count ih =>
    cases respelled.ahead with
    | @ended code codes inert =>
      rw [Pattern.readOctal, Pattern.readOctal, if_neg fun octal => not_octal_of_inert inert ⟨octal.1, octal.2.1⟩]
      exact ⟨rfl, respelled⟩
    | halted inert inert' =>
      rw [Pattern.readOctal, Pattern.readOctal, if_neg fun octal => not_octal_of_inert inert ⟨octal.1, octal.2.1⟩,
        if_neg fun octal => not_octal_of_inert inert' ⟨octal.1, octal.2.1⟩]
      exact ⟨rfl, respelled⟩
    | step plain rest =>
      rw [Pattern.readOctal, Pattern.readOctal]
      split
      · exact ih rest _
      · exact ⟨rfl, respelled⟩

end Digits

end TokenGrammar.Pattern
