import TokenGrammar.Proofs.Expressions.Classes

namespace TokenGrammar.Pattern

variable {codes codes' rest : List Nat} {code : Nat}

theorem Respelled.closeBounds? (respelled : Respelled codes codes') (least : Nat) (most : Option Nat) :
    Option.Rel AgreeTwice (closeBounds? least most codes) (Pattern.closeBounds? least most codes') := by
  rw [Pattern.closeBounds?, Pattern.closeBounds?]
  obtain ⟨none, none'⟩ | ⟨rest, rest', ahead, ahead', again⟩ := respelled.skips (by decide : ¬IsInert (codeOf '\x7d'))
  · rw [none, none']
    exact .none
  · rw [ahead, ahead']
    exact .some ⟨rfl, rfl, again⟩

theorem Respelled.readUpper? (respelled : Respelled codes codes') (lower : Nat) :
    Option.Rel AgreeTwice (readUpper? lower codes) (Pattern.readUpper? lower codes') := by
  rw [Pattern.readUpper?, Pattern.readUpper?]
  obtain ⟨none, none'⟩ | ⟨rest, rest', ahead, ahead', again⟩ := respelled.skips (by decide : ¬IsInert (codeOf ','))
  · rw [none, none']
    exact respelled.closeBounds? _ _
  · rw [ahead, ahead']
    obtain ⟨rest', same, further⟩ := (again.readDecimal false 0).exists_eq
    dsimp only
    rw [same]
    exact further.closeBounds? _ _

theorem Respelled.readBounds? (respelled : Respelled codes codes') :
    Option.Rel AgreeTwice (readBounds? codes) (Pattern.readBounds? codes') := by
  obtain ⟨rest', same, again⟩ := (respelled.readDecimal false 0).exists_eq
  rw [Pattern.readBounds?, Pattern.readBounds?, same]
  dsimp only
  split
  · exact again.readUpper? _
  · exact .none

theorem Respelled.isSome_readBounds? (respelled : Respelled codes codes') :
    (Pattern.readBounds? codes).isSome = (Pattern.readBounds? codes').isSome := by
  have bounds := respelled.readBounds?
  generalize Pattern.readBounds? codes = read at bounds ⊢
  generalize Pattern.readBounds? codes' = read' at bounds ⊢
  cases bounds <;> rfl

theorem readRepetition?_of_inert (inert : IsInert code) : readRepetition? (code :: rest) = none := by
  rw [readRepetition?, if_neg (ne_of_inert inert (by decide)), if_neg (ne_of_inert inert (by decide)),
    if_neg (ne_of_inert inert (by decide)), if_neg (ne_of_inert inert (by decide))]

theorem Respelled.readRepetition? (respelled : Respelled codes codes') :
    Option.Rel AgreeTwice (readRepetition? codes) (Pattern.readRepetition? codes') := by
  cases respelled.ahead with
  | ended inert =>
    rw [readRepetition?_of_inert inert]
    exact .none
  | halted inert inert' =>
    rw [readRepetition?_of_inert inert, readRepetition?_of_inert inert']
    exact .none
  | step plain rest =>
    rw [Pattern.readRepetition?, Pattern.readRepetition?]
    split
    · exact .some ⟨rfl, rfl, rest⟩
    split
    · exact .some ⟨rfl, rfl, rest⟩
    split
    · exact .some ⟨rfl, rfl, rest⟩
    split
    · exact rest.readBounds?
    · exact .none

theorem Respelled.readGreed (respelled : Respelled codes codes') :
    Agree (readGreed codes) (Pattern.readGreed codes') := by
  rw [Pattern.readGreed, Pattern.readGreed]
  obtain ⟨none, none'⟩ | ⟨rest, rest', ahead, ahead', again⟩ := respelled.skips (by decide : ¬IsInert (codeOf '?'))
  · rw [none, none']
    exact ⟨rfl, respelled⟩
  · rw [ahead, ahead']
    exact ⟨rfl, again⟩

/-- Where the quantifier of a term can be read, that of its respelling is read in step with it. -/
theorem Respelled.readQuantifier (respelled : Respelled codes codes') :
    Follows Agree (readQuantifier codes) (Pattern.readQuantifier codes') := by
  have bounds := respelled.readRepetition?
  rw [Pattern.readQuantifier, Pattern.readQuantifier]
  generalize Pattern.readRepetition? codes = read at bounds ⊢
  generalize Pattern.readRepetition? codes' = read' at bounds ⊢
  cases bounds with
  | none => exact .ok ⟨rfl, respelled⟩
  | @some read read' agree =>
    obtain ⟨rest', rfl, again⟩ := agree.exists_eq
    dsimp only
    split
    · obtain ⟨greedy, again⟩ := again.readGreed
      refine .ok ⟨?_, again⟩
      rw [greedy]
    · exact .error

end TokenGrammar.Pattern
