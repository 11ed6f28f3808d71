import TokenGrammar.Proofs.Expressions.Respelling

namespace TokenGrammar.Pattern

variable {codes codes' rest rest' spelling : List Nat} {code sign : Nat} {mode : Mode} {inClass codePoints first : Bool}
  {data : CharacterData}

theorem skip?_cons_self : skip? code (code :: rest) = some rest := if_pos rfl

theorem skip?_cons_of_ne (other : code ≠ sign) : skip? sign (code :: rest) = none := if_neg other

theorem readTrailing?_of_ne (plain : code ≠ codeOf '\\') : readTrailing? (code :: rest) = none := by
  rw [readTrailing?, skip?_cons_of_ne plain]
  rfl

theorem readTrailing?_of_escape (other : code ≠ codeOf 'u') : readTrailing? (codeOf '\\' :: code :: rest) = none := by
  rw [readTrailing?, skip?_cons_self, Option.bind_eq_bind, Option.bind_some, skip?_cons_of_ne other]
  rfl

/-- No spelling of a code is the second half of a pair. -/
theorem Spells.readTrailing? (spells : Spells code spelling) (rest : List Nat) :
    readTrailing? (codeOf '\\' :: (spelling ++ rest)) = none := by
  have digits (last : Char) (value : Nat) (named : hexDigit? (codeOf last) = some value) (small : value < 16) :
      Pattern.readTrailing? (codeOf '\\' :: (['u', '2', '0', '2', last].map codeOf ++ rest)) = none := by
    have hex : readHex? 4 0 (codeOf '2' :: codeOf '0' :: codeOf '2' :: codeOf last :: rest) =
        some (0x2020 + value, rest) := by
      simp only [readHex?, named]
      rfl
    change ((readHex? 4 0 (codeOf '2' :: codeOf '0' :: codeOf '2' :: codeOf last :: rest)).bind fun read =>
      if Text.isTrailing read.1 then some read else none) = none
    rw [hex]
    refine if_neg ?_
    simp only [Text.isTrailing, Bool.and_eq_true, decide_eq_true_eq]
    omega
  cases spells with
  | slash | lineFeed | carriageReturn => exact readTrailing?_of_escape (by decide)
  | lineSeparator => exact digits '8' 8 rfl (by decide)
  | paragraphSeparator => exact digits '9' 9 rfl (by decide)

theorem Respelled.readTrailing? (respelled : Respelled codes codes') :
    Option.Rel Agree (readTrailing? codes) (Pattern.readTrailing? codes') := by
  cases respelled with
  | done => exact .none
  | same plain rest =>
    rw [readTrailing?_of_ne plain, readTrailing?_of_ne plain]
    exact .none
  | dangling => exact .none
  | spelled spells rest =>
    rw [readTrailing?_of_ne spells.ne_backslash, spells.readTrailing?]
    exact .none
  | spelledEscape spells rest =>
    rw [readTrailing?_of_escape (ne_of_inert spells.isInert (by decide)), spells.readTrailing?]
    exact .none
  | @escaped mark digits digits' rest =>
    by_cases unit : mark = codeOf 'u'
    · subst unit
      have hexes := rest.readHex? 4 0
      rw [Pattern.readTrailing?, Pattern.readTrailing?, skip?_cons_self, skip?_cons_self]
      simp only [Option.bind_eq_bind, Option.bind_some, skip?_cons_self]
      generalize Pattern.readHex? 4 0 digits = read at hexes ⊢
      generalize Pattern.readHex? 4 0 digits' = read' at hexes ⊢
      cases hexes with
      | none => exact .none
      | some agree =>
        simp only [Option.bind_some, agree.1]
        split
        · exact .some agree
        · exact .none
    · rw [readTrailing?_of_escape unit, readTrailing?_of_escape unit]
      exact .none

theorem joinUnits_agree {read read' : Nat × List Nat} (agree : Agree read read') :
    Agree (joinUnits codePoints read) (joinUnits codePoints read') := by
  obtain ⟨leading, rest⟩ := read
  obtain ⟨leading', rest'⟩ := read'
  obtain ⟨rfl, again⟩ := agree
  have trailing := again.readTrailing?
  simp only [joinUnits]
  dsimp only at again
  generalize readTrailing? rest = trail at trailing ⊢
  generalize readTrailing? rest' = trail' at trailing ⊢
  cases codePoints && Text.isLeading leading with
  | false => exact ⟨rfl, again⟩
  | true =>
    cases trailing with
    | none => exact ⟨rfl, again⟩
    | @some read read' same =>
      obtain ⟨trailing, after⟩ := read
      obtain ⟨trailing', after'⟩ := read'
      obtain ⟨rfl, further⟩ := same
      exact ⟨rfl, further⟩

theorem Respelled.readUnitEscape? (respelled : Respelled codes codes') (codePoints : Bool) :
    Option.Rel Agree (readUnitEscape? codePoints codes) (Pattern.readUnitEscape? codePoints codes') := by
  have plain : Option.Rel Agree ((Pattern.readHex? 4 0 codes).map (joinUnits codePoints))
      ((Pattern.readHex? 4 0 codes').map (joinUnits codePoints)) := by
    have hexes := respelled.readHex? 4 0
    generalize Pattern.readHex? 4 0 codes = read at hexes ⊢
    generalize Pattern.readHex? 4 0 codes' = read' at hexes ⊢
    cases hexes with
    | none => exact .none
    | some agree => exact .some (joinUnits_agree agree)
  rw [Pattern.readUnitEscape?, Pattern.readUnitEscape?]
  cases codePoints with
  | false => exact plain
  | true =>
    rw [if_pos rfl, if_pos rfl]
    obtain ⟨none, none'⟩ | ⟨digits, digits', ahead, ahead', again⟩ := respelled.skips (by decide : ¬IsInert (codeOf '\x7b'))
    · rw [none, none']
      exact plain
    · rw [ahead, ahead']
      exact again.readBraced? false 0

theorem isLetter_of_inert (inert : IsInert code) : isLetter code = false := by
  have each : ∀ code ∈ inertCodes, isLetter code = false := by decide
  exact each code inert

/-- No code at which anything comes apart stands in a name. -/
theorem CharacterData.isInName_of_inert (data : CharacterData) (inert : IsInert code) : data.isInName code = false := by
  have ascii : ∀ code ∈ inertCodes, isOneOf "$_" code = false ∧ code ≠ 0x200C ∧ code ≠ 0x200D ∧
      (decide (0x80 ≤ code) && !isLineEnd code) = false := by decide
  obtain ⟨sign, joiner, joiner', small⟩ := ascii code inert
  simp [isInName, beginsName, isLetter_of_inert inert, decimalDigit?_of_inert inert, sign, joiner, joiner', small]

/-- Whether a code may come next in a name. -/
theorem CharacterData.not_comesNext_of_inert (data : CharacterData) (first : Bool) (inert : IsInert code) :
    (if first then data.beginsName code else data.isInName code) = false := by
  have inside := data.isInName_of_inert inert
  cases first with
  | false => exact inside
  | true =>
    simp only [isInName, Bool.or_eq_false_iff] at inside
    exact inside.1.1.1.1

theorem not_isTrailing_of_inert (inert : IsInert code) : Text.isTrailing code = false := by
  have each : ∀ code ∈ inertCodes, Text.isTrailing code = false := by decide
  exact each code inert

theorem not_isLeading_of_inert (inert : IsInert code) : Text.isLeading code = false := by
  have each : ∀ code ∈ inertCodes, Text.isLeading code = false := by decide
  exact each code inert

theorem readNameCode?_of_plain (plain : code ≠ codeOf '\\')
    (apart : Text.isLeading code = false ∨ ∀ next ∈ rest.head?, Text.isTrailing next = false) :
    readNameCode? (code :: rest) = some (code, rest) := by
  rw [readNameCode?.eq_def]
  dsimp only
  rw [if_neg plain]
  cases rest with
  | nil => rfl
  | cons next after =>
    refine if_neg ?_
    rcases apart with leads | trails
    · simp [leads]
    · simp [trails next rfl]

theorem readNamePart?_of_inert (inert : IsInert code) (plain : code ≠ codeOf '\\') :
    readNamePart? data first (code :: rest) = none := by
  rw [readNamePart?, readNameCode?_of_plain plain (.inl (not_isLeading_of_inert inert))]
  exact if_neg (by rw [data.not_comesNext_of_inert first inert]; exact Bool.false_ne_true)

theorem Spells.readNamePart? (spells : Spells code spelling) (rest : List Nat) :
    readNamePart? data first (codeOf '\\' :: (spelling ++ rest)) = none := by
  have other (read : readNameCode? (codeOf '\\' :: (spelling ++ rest)) = none) :
      Pattern.readNamePart? data first (codeOf '\\' :: (spelling ++ rest)) = none := by
    rw [Pattern.readNamePart?, read]
    rfl
  have escaped (inert : IsInert code) (read : readNameCode? (codeOf '\\' :: (spelling ++ rest)) = some (code, rest)) :
      Pattern.readNamePart? data first (codeOf '\\' :: (spelling ++ rest)) = none := by
    rw [Pattern.readNamePart?, read]
    exact if_neg (by rw [data.not_comesNext_of_inert first inert]; exact Bool.false_ne_true)
  cases spells with
  | slash | lineFeed | carriageReturn => exact other rfl
  | lineSeparator | paragraphSeparator => exact escaped (by decide) rfl

theorem readNamePart?_of_escape (other : code ≠ codeOf 'u') :
    readNamePart? data first (codeOf '\\' :: code :: rest) = none := by
  rw [readNamePart?, readNameCode?, if_pos rfl, skip?_cons_of_ne other]
  rfl

/-- A part of a name is read in step. -/
theorem Respelled.readNamePart? (respelled : Respelled codes codes') (data : CharacterData) (first : Bool) :
    Option.Rel Agree (readNamePart? data first codes) (Pattern.readNamePart? data first codes') := by
  have checked {read read' : Option (Nat × List Nat)} (agree : Option.Rel Agree read read') : Option.Rel Agree
      (do let part ← read; if (if first then data.beginsName part.1 else data.isInName part.1) then some part else none)
      (do let part ← read'; if (if first then data.beginsName part.1 else data.isInName part.1) then some part else none) := by
    cases agree with
    | none => exact .none
    | some agree =>
      simp only [Option.bind_eq_bind, Option.bind_some, agree.1]
      generalize (if first then _ else _) = allowed
      cases allowed with
      | false => exact .none
      | true => exact .some agree
  have closes : Pattern.readNamePart? data first closing = none := readNamePart?_of_inert (by decide) (by decide)
  cases respelled with
  | done =>
    rw [closes]
    exact .none
  | dangling => exact checked .none
  | spelled spells rest =>
    rw [readNamePart?_of_inert spells.isInert spells.ne_backslash, spells.readNamePart?]
    exact .none
  | spelledEscape spells rest =>
    rw [readNamePart?_of_escape (ne_of_inert spells.isInert (by decide)), spells.readNamePart?]
    exact .none
  | @escaped mark digits digits' rest =>
    by_cases unit : mark = codeOf 'u'
    · subst unit
      exact checked (rest.readUnitEscape? true)
    · rw [readNamePart?_of_escape unit, readNamePart?_of_escape unit]
      exact .none
  | @same code codes codes' plain rest =>
    refine checked ?_
    have alone (apart : Text.isLeading code = false ∨ ∀ next ∈ codes.head?, Text.isTrailing next = false)
        (apart' : Text.isLeading code = false ∨ ∀ next ∈ codes'.head?, Text.isTrailing next = false) :
        Option.Rel Agree (readNameCode? (code :: codes)) (readNameCode? (code :: codes')) := by
      rw [readNameCode?_of_plain plain apart, readNameCode?_of_plain plain apart']
      exact .some ⟨rfl, rest⟩
    have inertly {code : Nat} {codes : List Nat} (inert : IsInert code) :
        ∀ next ∈ (code :: codes).head?, Text.isTrailing next = false := by
      intro next ahead
      obtain rfl := Option.some.inj ahead
      exact not_isTrailing_of_inert inert
    cases rest.ahead with
    | ended inert => exact alone (.inr (by simp)) (.inr (inertly inert))
    | halted inert inert' => exact alone (.inr (inertly inert)) (.inr (inertly inert'))
    | step plain' again =>
      rw [readNameCode?, readNameCode?, if_neg plain, if_neg plain]
      split
      · exact .some ⟨rfl, again⟩
      · exact .some ⟨rfl, rest⟩

theorem length_of_skip? (skips : skip? sign codes = some rest) : codes.length = rest.length + 1 := by
  cases codes with
  | nil => cases skips
  | cons code codes =>
    rw [skip?] at skips
    split at skips
    · cases skips
      rfl
    · cases skips

section Lengths

variable {read : Nat × List Nat}

theorem length_of_readHex? {count value : Nat} (reads : readHex? count value codes = some read) :
    read.2.length ≤ codes.length := by
  induction count generalizing codes value with
  | zero =>
    cases reads
    exact Nat.le_refl _
  | succ count ih =>
    cases codes with
    | nil => cases reads
    | cons code codes =>
      obtain ⟨digit, -, reads⟩ := Option.bind_eq_some_iff.mp reads
      exact Nat.le_succ_of_le (ih reads)

theorem length_of_readBraced? {digit : Bool} {value : Nat} (reads : readBraced? digit value codes = some read) :
    read.2.length ≤ codes.length := by
  induction codes generalizing digit value with
  | nil => cases reads
  | cons code codes ih =>
    rw [readBraced?] at reads
    split at reads
    · split at reads
      · cases reads
        exact Nat.le_succ _
      · cases reads
    · split at reads
      · exact Nat.le_succ_of_le (ih reads)
      · cases reads

theorem length_of_readTrailing? (reads : readTrailing? codes = some read) : read.2.length ≤ codes.length := by
  obtain ⟨rest, first, reads⟩ := Option.bind_eq_some_iff.mp reads
  obtain ⟨digits, second, reads⟩ := Option.bind_eq_some_iff.mp reads
  obtain ⟨read', hexes, reads⟩ := Option.bind_eq_some_iff.mp reads
  have := length_of_skip? first
  have := length_of_skip? second
  have := length_of_readHex? hexes
  split at reads
  · cases reads
    omega
  · cases reads

theorem length_joinUnits : (joinUnits codePoints read).2.length ≤ read.2.length := by
  rw [joinUnits]
  split
  · split
    · rename_i trailing reads
      dsimp only
      exact length_of_readTrailing? reads
    · exact Nat.le_refl _
  · exact Nat.le_refl _

theorem length_of_readUnitEscape? (reads : readUnitEscape? codePoints codes = some read) :
    read.2.length ≤ codes.length := by
  rw [readUnitEscape?] at reads
  split at reads
  · rename_i digits ahead
    have braced := length_of_readBraced? reads
    split at ahead
    · have := length_of_skip? ahead
      omega
    · cases ahead
  · obtain ⟨read', hexes, rfl⟩ := Option.map_eq_some_iff.mp reads
    exact Nat.le_trans length_joinUnits (length_of_readHex? hexes)

theorem length_of_readNamePart? (reads : readNamePart? data first codes = some read) :
    read.2.length < codes.length := by
  have reads : readNameCode? codes = some read := by
    obtain ⟨part, reads, allowed⟩ := Option.bind_eq_some_iff.mp reads
    generalize (if first then _ else _) = allows at allowed
    cases allows with
    | false => cases allowed
    | true => exact Option.some.inj allowed ▸ reads
  rw [readNameCode?.eq_def] at reads
  cases codes with
  | nil => cases reads
  | cons code codes =>
    dsimp only at reads
    split at reads
    · obtain ⟨digits, ahead, reads⟩ := Option.bind_eq_some_iff.mp reads
      have := length_of_skip? ahead
      have := length_of_readUnitEscape? reads
      simp only [List.length_cons]
      omega
    · cases codes with
      | nil =>
        cases reads
        exact Nat.zero_lt_one
      | cons next after =>
        dsimp only at reads
        split at reads <;> obtain rfl := Option.some.inj reads <;> simp only [List.length_cons] <;> omega

end Lengths

/-- A name is read in step, whatever fuel is left over. -/
theorem Respelled.readName? (respelled : Respelled codes codes') {fuel fuel' : Nat} (enough : codes.length < fuel)
    (enough' : codes'.length < fuel') (read : List Nat) :
    Option.Rel Agree (readName? data fuel read codes) (Pattern.readName? data fuel' read codes') := by
  induction fuel generalizing fuel' read codes codes' with
  | zero => exact absurd enough (Nat.not_lt_zero _)
  | succ fuel ih =>
    obtain ⟨fuel', rfl⟩ : ∃ less, fuel' = less + 1 := Nat.exists_eq_add_of_le' (Nat.zero_lt_of_lt enough')
    rw [Pattern.readName?, Pattern.readName?]
    obtain ⟨none, none'⟩ | ⟨rest, rest', ahead, ahead', again⟩ := respelled.skips (by decide : ¬IsInert (codeOf '>'))
    · rw [none, none']
      have parts := respelled.readNamePart? data read.isEmpty
      cases part : Pattern.readNamePart? data read.isEmpty codes with
      | none =>
        rw [part] at parts
        cases part' : Pattern.readNamePart? data read.isEmpty codes' with
        | none => exact .none
        | some _ =>
          rw [part'] at parts
          cases parts
      | some found =>
        rw [part] at parts
        cases part' : Pattern.readNamePart? data read.isEmpty codes' with
        | none =>
          rw [part'] at parts
          cases parts
        | some found' =>
          rw [part'] at parts
          obtain ⟨same, again⟩ : Agree found found' := by
            cases parts
            assumption
          have less := length_of_readNamePart? part
          have less' := length_of_readNamePart? part'
          simp only [Option.bind_eq_bind, Option.bind_some, same]
          exact ih again (by omega) (by omega) _
    · rw [ahead, ahead']
      dsimp only
      split
      · exact .none
      · exact .some ⟨rfl, again⟩

theorem Respelled.readGroupName? (respelled : Respelled codes codes') (data : CharacterData) :
    Option.Rel Agree (readGroupName? data codes) (Pattern.readGroupName? data codes') :=
  respelled.readName? (Nat.lt_succ_self _) (Nat.lt_succ_self _) []

theorem namesControl_of_inert (inert : IsInert code) : namesControl mode inClass code = false := by
  have other : code ≠ codeOf '_' := ne_of_inert inert (by decide)
  simp [namesControl, isLetter_of_inert inert, decimalDigit?_of_inert inert, other]

theorem Respelled.readControl (respelled : Respelled codes codes') (mode : Mode) (inClass : Bool) :
    Follows Agree (readControl mode inClass codes) (Pattern.readControl mode inClass codes') := by
  have unnamed : Follows Agree
      (if mode.codePoints then .error .invalidEscape else .ok (codeOf '\\', codeOf 'c' :: codes))
      (if mode.codePoints then .error .invalidEscape else .ok (codeOf '\\', codeOf 'c' :: codes')) := by
    split
    · exact .error
    · exact .ok ⟨rfl, .same (by decide) respelled⟩
  cases respelled.ahead with
  | ended inert =>
    rw [Pattern.readControl, Pattern.readControl, namesControl_of_inert inert]
    exact unnamed
  | halted inert inert' =>
    rw [Pattern.readControl, Pattern.readControl, namesControl_of_inert inert, namesControl_of_inert inert']
    exact unnamed
  | step plain rest =>
    rw [Pattern.readControl, Pattern.readControl]
    split
    · exact .ok ⟨rfl, rest⟩
    · exact unnamed

theorem Respelled.digitAhead_eq (respelled : Respelled codes codes') : digitAhead codes = digitAhead codes' := by
  cases respelled.ahead with
  | step => rfl
  | ended inert => simp [digitAhead, decimalDigit?_of_inert inert]
  | halted inert inert' => simp [digitAhead, decimalDigit?_of_inert inert, decimalDigit?_of_inert inert']

theorem Respelled.readDigits (respelled : Respelled codes codes') (mode : Mode) (plain : code ≠ codeOf '\\') :
    Follows Agree (readDigits mode code codes) (Pattern.readDigits mode code codes') := by
  rw [Pattern.readDigits, Pattern.readDigits, respelled.digitAhead_eq]
  split
  · split
    · exact .ok ⟨rfl, respelled⟩
    · exact .error
  · split
    · exact .ok ((Respelled.same plain respelled).readOctal 3 0)
    · exact .ok ⟨rfl, respelled⟩

theorem Respelled.readNumbered? (respelled : Respelled codes codes') (mode : Mode) (code : Nat) :
    Option.Rel Agree (readNumbered? mode code codes) (Pattern.readNumbered? mode code codes') := by
  rw [Pattern.readNumbered?, Pattern.readNumbered?]
  split
  · exact respelled.readHex? 2 0
  split
  · exact respelled.readUnitEscape? mode.codePoints
  · exact .none

theorem Respelled.readIdentity (respelled : Respelled codes codes') (mode : Mode) (inClass : Bool) (code : Nat) :
    Follows Agree (readIdentity mode inClass code codes) (Pattern.readIdentity mode inClass code codes') := by
  rw [Pattern.readIdentity, Pattern.readIdentity]
  split
  · split
    · exact .ok ⟨rfl, respelled⟩
    · exact .error
  · split
    · exact .error
    · exact .ok ⟨rfl, respelled⟩

/-- What an escape names behind its backslash is read in step, whatever code it begins with. -/
theorem Respelled.readCodeEscape (respelled : Respelled codes codes') (mode : Mode) (inClass : Bool) (code : Nat) :
    Follows Agree (readCodeEscape mode inClass code codes) (Pattern.readCodeEscape mode inClass code codes') := by
  rw [Pattern.readCodeEscape, Pattern.readCodeEscape]
  cases controlOf? code with
  | some control => exact .ok ⟨rfl, respelled⟩
  | none =>
    dsimp only
    split
    · exact .ok ⟨rfl, respelled⟩
    split
    · exact respelled.readControl mode inClass
    split
    case isTrue digit =>
      refine respelled.readDigits mode ?_
      rintro rfl
      exact absurd digit (by decide)
    have numbered := respelled.readNumbered? mode code
    generalize Pattern.readNumbered? mode code codes = read at numbered ⊢
    generalize Pattern.readNumbered? mode code codes' = read' at numbered ⊢
    cases numbered with
    | none => exact respelled.readIdentity mode inClass code
    | some agree => exact .ok agree

/-- The spelling of a code is read as that code. -/
theorem Spells.readCodeEscape_spelling (spells : Spells code spelling) (mode : Mode) (inClass : Bool) (rest : List Nat) :
    ∃ mark others, spelling = mark :: others ∧ readCodeEscape mode inClass mark (others ++ rest) = .ok (code, rest) := by
  obtain ⟨data, codePoints, sets, groups⟩ := mode
  cases spells with
  | slash => exact ⟨_, _, rfl, by cases inClass <;> cases codePoints <;> rfl⟩
  | lineFeed | carriageReturn => exact ⟨_, _, rfl, rfl⟩
  | lineSeparator | paragraphSeparator => exact ⟨_, _, rfl, by cases inClass <;> cases codePoints <;> rfl⟩

/-- A code that may be written as an escape stands for itself behind a backslash, where it may stand there. -/
theorem Spells.follows_self (spells : Spells code spelling) (respelled : Respelled codes codes') (mode : Mode)
    (inClass : Bool) : Follows Agree (readCodeEscape mode inClass code codes) (.ok (code, codes')) := by
  have identity : readCodeEscape mode inClass code codes = readIdentity mode inClass code codes := by
    cases spells <;> cases inClass <;> rfl
  rw [identity, readIdentity]
  split
  · split
    · exact .ok ⟨rfl, respelled⟩
    · exact .error
  · split
    · exact .error
    · exact .ok ⟨rfl, respelled⟩

end TokenGrammar.Pattern
