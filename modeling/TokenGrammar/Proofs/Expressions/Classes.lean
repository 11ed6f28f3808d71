import TokenGrammar.Proofs.Expressions.Escapes

namespace TokenGrammar.Pattern

variable {codes codes' rest rest' spelling : List Nat} {code : Nat} {mode : Mode} {inClass : Bool}

theorem isPropertyCode_of_inert (inert : IsInert code) : isPropertyCode code = false := by
  have other : code ≠ codeOf '_' := ne_of_inert inert (by decide)
  simp [isPropertyCode, isLetter_of_inert inert, decimalDigit?_of_inert inert, other]

/-- The letters of a property are the same, and what follows them is respelled. -/
theorem Respelled.propertyCodes (respelled : Respelled codes codes') :
    codes.takeWhile isPropertyCode = codes'.takeWhile isPropertyCode ∧
      Respelled (codes.dropWhile isPropertyCode) (codes'.dropWhile isPropertyCode) := by
  induction codes generalizing codes' with
  | nil =>
    cases respelled
    exact ⟨rfl, .done⟩
  | cons code codes ih =>
    cases respelled.ahead with
    | step plain rest =>
      rw [List.takeWhile_cons, List.takeWhile_cons, List.dropWhile_cons, List.dropWhile_cons]
      cases isPropertyCode code with
      | false => exact ⟨rfl, respelled⟩
      | true => exact ⟨congrArg (code :: ·) (ih rest).1, (ih rest).2⟩
    | halted inert inert' =>
      rw [List.takeWhile_cons, List.takeWhile_cons, List.dropWhile_cons, List.dropWhile_cons,
        isPropertyCode_of_inert inert, isPropertyCode_of_inert inert']
      exact ⟨rfl, respelled⟩

theorem Respelled.readPropertyValue? (respelled : Respelled codes codes') :
    Option.Rel Agree (readPropertyValue? codes) (Pattern.readPropertyValue? codes') := by
  have brace : ¬IsInert (codeOf '\x7d') := by decide
  rw [Pattern.readPropertyValue?, Pattern.readPropertyValue?]
  obtain ⟨none, none'⟩ | ⟨rest, rest', ahead, ahead', again⟩ := respelled.skips (by decide : ¬IsInert (codeOf '='))
  · rw [none, none']
    dsimp only
    obtain ⟨none, none'⟩ | ⟨rest, rest', ahead, ahead', again⟩ := respelled.skips brace
    · rw [none, none']
      exact .none
    · rw [ahead, ahead']
      exact .some ⟨rfl, again⟩
  · rw [ahead, ahead']
    dsimp only
    obtain ⟨value, further⟩ := again.propertyCodes
    obtain ⟨none, none'⟩ | ⟨rest, rest', ahead, ahead', again⟩ := further.skips brace
    · rw [none, none']
      exact .none
    · rw [ahead, ahead', value]
      exact .some ⟨rfl, again⟩

theorem Respelled.readProperty (respelled : Respelled codes codes') (mode : Mode) (negated : Bool) :
    Follows Agree (readProperty mode negated codes) (Pattern.readProperty mode negated codes') := by
  rw [Pattern.readProperty, Pattern.readProperty]
  obtain ⟨none, none'⟩ | ⟨rest, rest', ahead, ahead', again⟩ := respelled.skips (by decide : ¬IsInert (codeOf '\x7b'))
  · rw [none]
    exact .error
  · rw [ahead, ahead']
    dsimp only
    obtain ⟨name, further⟩ := again.propertyCodes
    have values := further.readPropertyValue?
    generalize Pattern.readPropertyValue? (rest.dropWhile isPropertyCode) = read at values ⊢
    generalize Pattern.readPropertyValue? (rest'.dropWhile isPropertyCode) = read' at values ⊢
    cases values with
    | none => exact .error
    | @some read read' agree =>
      obtain ⟨value?, after⟩ := read
      obtain ⟨value?', after'⟩ := read'
      obtain ⟨rfl, behind⟩ := agree
      rw [name]
      dsimp only
      cases propertyOf? mode negated (rest'.takeWhile isPropertyCode) value? with
      | none => exact .error
      | some escape => exact .ok ⟨rfl, behind⟩

theorem isSetSyntax_cons (respelled : Respelled codes codes') (code : Nat) (plain : ¬IsInert code) :
    isSetSyntax code codes = isSetSyntax code codes' := by
  rw [isSetSyntax, isSetSyntax, respelled.isSome_skip? plain]

/-- No inert code but a slash or a closing parenthesis means anything in a set of texts. -/
theorem isSetSyntax_of_inert (inert : IsInert code) (rest : List Nat) :
    isSetSyntax code rest = isOneOf "()[]\x7b\x7d/-|" code := by
  have each : ∀ code ∈ inertCodes, isOneOf "&!#$%*+,.:;<=>?@^`~" code = false := by decide
  rw [isSetSyntax, each code inert, Bool.false_and, Bool.or_false]

theorem Respelled.isSetSyntax_eq (respelled : Respelled codes codes') (code : Nat) :
    isSetSyntax code codes = isSetSyntax code codes' := by
  by_cases inert : IsInert code
  · rw [isSetSyntax_of_inert inert, isSetSyntax_of_inert inert]
  · exact isSetSyntax_cons respelled code inert

theorem readSetCode_cons_plain (plain : code ≠ codeOf '\\') : readSetCode mode (code :: rest) =
    if isSetSyntax code rest then .error .invalidClass else .ok (code, rest) := by
  rw [readSetCode.eq_def]
  exact if_neg plain

theorem Respelled.readSetCode (respelled : Respelled codes codes') (mode : Mode) :
    Follows Agree (readSetCode mode codes) (Pattern.readSetCode mode codes') := by
  cases respelled with
  | done => exact .error
  | same plain rest =>
    rw [readSetCode_cons_plain plain, readSetCode_cons_plain plain, rest.isSetSyntax_eq]
    split
    · exact .error
    · exact .ok ⟨rfl, rest⟩
  | escaped rest => exact rest.readCodeEscape mode true _
  | @spelled code spelling codes codes' spells rest =>
    obtain ⟨mark, others, rfl, reads⟩ := spells.readCodeEscape_spelling mode true codes'
    have reads' : Pattern.readSetCode mode (codeOf '\\' :: (mark :: others ++ codes')) = .ok (code, codes') := reads
    rw [reads', readSetCode_cons_plain spells.ne_backslash]
    split
    · exact .error
    · exact .ok ⟨rfl, rest⟩
  | @spelledEscape code spelling codes codes' spells rest =>
    obtain ⟨mark, others, rfl, reads⟩ := spells.readCodeEscape_spelling mode true codes'
    have reads' : Pattern.readSetCode mode (codeOf '\\' :: (mark :: others ++ codes')) = .ok (code, codes') := reads
    rw [reads']
    exact spells.follows_self rest mode true
  | dangling => exact .error

/-- Words are read in step. More fuel does no harm. -/
theorem Respelled.readWords (respelled : Respelled codes codes') {fuel fuel' : Nat} (enough : fuel ≤ fuel')
    (words : List (List Nat)) (word : List Nat) :
    Follows Agree (readWords mode fuel words word codes) (Pattern.readWords mode fuel' words word codes') := by
  induction fuel generalizing fuel' words word codes codes' with
  | zero => exact .error
  | succ fuel ih =>
    obtain ⟨fuel', rfl⟩ : ∃ less, fuel' = less + 1 := Nat.exists_eq_add_of_le' (by omega : 1 ≤ fuel')
    rw [Pattern.readWords, Pattern.readWords]
    obtain ⟨none, none'⟩ | ⟨rest, rest', ahead, ahead', again⟩ := respelled.skips (by decide : ¬IsInert (codeOf '\x7d'))
    · rw [none, none']
      dsimp only
      obtain ⟨none, none'⟩ | ⟨rest, rest', ahead, ahead', again⟩ := respelled.skips (by decide : ¬IsInert (codeOf '|'))
      · rw [none, none']
        refine (respelled.readSetCode mode).bind fun read read' agree => ?_
        rw [agree.1]
        exact ih agree.2 (by omega) _ _
      · rw [ahead, ahead']
        exact ih again (by omega) _ _
    · rw [ahead, ahead']
      exact .ok ⟨rfl, again⟩

/-- What follows a backslash is read in step, whatever code it begins with. -/
theorem Respelled.readEscape (respelled : Respelled codes codes') (mode : Mode) (inClass : Bool) (code : Nat) :
    Follows Agree (readEscape mode inClass code codes) (Pattern.readEscape mode inClass code codes') := by
  rw [Pattern.readEscape, Pattern.readEscape]
  cases setOf? code with
  | some item => exact .ok ⟨rfl, respelled⟩
  | none =>
    dsimp only
    split
    · exact respelled.readProperty mode false
    split
    · exact respelled.readProperty mode true
    split
    · obtain ⟨none, none'⟩ | ⟨rest, rest', ahead, ahead', again⟩ := respelled.skips (by decide : ¬IsInert (codeOf '\x7b'))
      · rw [none]
        exact .error
      · rw [ahead, ahead']
        have longer := again.length_le
        exact (again.readWords (by omega) [] []).map fun read read' agree =>
          ⟨congrArg (Escape.set ∘ ClassSet.words) agree.1, agree.2⟩
    · exact (respelled.readCodeEscape mode inClass code).map fun read read' agree =>
        ⟨congrArg Escape.code agree.1, agree.2⟩

/-- An escape that names no set is read as a code. -/
theorem readEscape_of_code (plain : code ∉ ['d', 'D', 'w', 'W', 's', 'S', 'p', 'P', 'q'].map codeOf) :
    readEscape mode inClass code rest = (readCodeEscape mode inClass code rest).map fun read => (.code read.1, read.2) := by
  simp only [List.map_cons, List.map_nil, List.mem_cons, List.not_mem_nil, or_false, not_or] at plain
  obtain ⟨d, d', w, w', s, s', p, p', q⟩ := plain
  simp [readEscape, setOf?, d, d', w, w', s, s', p, p', q]

/-- The spelling of a code is read as that code behind a backslash. -/
theorem Spells.readEscape (spells : Spells code spelling) (mode : Mode) (inClass : Bool) (rest : List Nat) :
    ∃ mark others, spelling = mark :: others ∧
      Pattern.readEscape mode inClass mark (others ++ rest) = .ok (.code code, rest) := by
  obtain ⟨mark, others, rfl, reads⟩ := spells.readCodeEscape_spelling mode inClass rest
  have plain : mark ∉ ['d', 'D', 'w', 'W', 's', 'S', 'p', 'P', 'q'].map codeOf := by
    cases spells <;> decide
  exact ⟨mark, others, rfl, by rw [readEscape_of_code plain, reads]; rfl⟩

theorem Spells.follows_readEscape (spells : Spells code spelling) (respelled : Respelled codes codes') (mode : Mode)
    (inClass : Bool) : Follows Agree (Pattern.readEscape mode inClass code codes) (.ok (.code code, codes')) := by
  have plain : code ∉ ['d', 'D', 'w', 'W', 's', 'S', 'p', 'P', 'q'].map codeOf := by
    cases spells <;> decide
  rw [readEscape_of_code plain]
  change Follows Agree _ ((Except.ok (code, codes')).map fun read => (Escape.code read.1, read.2))
  exact (spells.follows_self respelled mode inClass).map fun read read' agree =>
    ⟨congrArg Escape.code agree.1, agree.2⟩

section Classes

variable {read : List ClassItem} {member : Escape} {fuel fuel' : Nat}

theorem readClassMember_cons_plain (plain : code ≠ codeOf '\\') : readClassMember mode (code :: rest) =
    if mode.sets && isSetSyntax code rest then .error .invalidClass else .ok (.code code, rest) := by
  rw [readClassMember.eq_def]
  exact if_neg plain

theorem Respelled.readClassMember (respelled : Respelled codes codes') (mode : Mode) :
    Follows Agree (readClassMember mode codes) (Pattern.readClassMember mode codes') := by
  cases respelled with
  | done => exact .error
  | same plain rest =>
    rw [readClassMember_cons_plain plain, readClassMember_cons_plain plain, rest.isSetSyntax_eq]
    split
    · exact .error
    · exact .ok ⟨rfl, rest⟩
  | escaped rest => exact rest.readEscape mode true _
  | @spelled code spelling codes codes' spells rest =>
    obtain ⟨mark, others, rfl, reads⟩ := spells.readEscape mode true codes'
    have reads' : Pattern.readClassMember mode (codeOf '\\' :: (mark :: others ++ codes')) = .ok (.code code, codes') :=
      reads
    rw [reads', readClassMember_cons_plain spells.ne_backslash]
    split
    · exact .error
    · exact .ok ⟨rfl, rest⟩
  | @spelledEscape code spelling codes codes' spells rest =>
    obtain ⟨mark, others, rfl, reads⟩ := spells.readEscape mode true codes'
    have reads' : Pattern.readClassMember mode (codeOf '\\' :: (mark :: others ++ codes')) = .ok (.code code, codes') :=
      reads
    rw [reads']
    exact spells.follows_readEscape rest mode true
  | dangling => exact .error

/-- The end of a range is ahead of both or of neither. -/
theorem Respelled.rangeAhead? (respelled : Respelled codes codes') :
    Option.Rel Respelled (rangeAhead? codes) (Pattern.rangeAhead? codes') := by
  rw [Pattern.rangeAhead?, Pattern.rangeAhead?]
  obtain ⟨none, none'⟩ | ⟨rest, rest', ahead, ahead', again⟩ := respelled.skips (by decide : ¬IsInert (codeOf '-'))
  · rw [none, none']
    exact .none
  · rw [ahead, ahead']
    simp only [Option.bind_eq_bind, Option.bind_some]
    rw [again.isSome_skip? (by decide)]
    split
    · exact .none
    · exact .some again

theorem Respelled.readRange (respelled : Respelled codes codes') (mode : Mode) (member : Escape) :
    Follows Agree (readRange mode member codes) (Pattern.readRange mode member codes') := by
  rw [Pattern.readRange, Pattern.readRange]
  have ranges := respelled.rangeAhead?
  generalize Pattern.rangeAhead? codes = ahead at ranges ⊢
  generalize Pattern.rangeAhead? codes' = ahead' at ranges ⊢
  cases ranges with
  | none => exact .ok ⟨rfl, respelled⟩
  | some rest =>
    refine (rest.readClassMember mode).bind fun upper upper' agree => ?_
    obtain ⟨upper, after⟩ := upper
    obtain ⟨same, again⟩ := agree
    dsimp only at same ⊢
    rw [← same]
    cases rangeBetween mode member upper with
    | error problem => exact .error
    | ok items => exact .ok ⟨rfl, again⟩

/-- A class of codes is read in step. More fuel does no harm, and the closing does not close the class. -/
theorem Respelled.readClass (respelled : Respelled codes codes') (enough : fuel ≤ fuel') :
    Follows Agree (readClass mode fuel read codes) (Pattern.readClass mode fuel' read codes') := by
  induction fuel generalizing fuel' read codes codes' with
  | zero => exact .error
  | succ fuel ih =>
    obtain ⟨fuel', rfl⟩ : ∃ less, fuel' = less + 1 := Nat.exists_eq_add_of_le' (by omega : 1 ≤ fuel')
    rw [Pattern.readClass, Pattern.readClass]
    obtain ⟨none, none'⟩ | ⟨rest, rest', ahead, ahead', again⟩ := respelled.skips (by decide : ¬IsInert (codeOf ']'))
    · rw [none, none']
      refine (respelled.readClassMember mode).bind fun member member' agree => ?_
      rw [agree.1]
      refine (agree.2.readRange mode member'.1).bind fun items items' again => ?_
      rw [again.1]
      exact ih again.2 (by omega)
    · rw [ahead, ahead']
      exact .ok ⟨rfl, again⟩

end Classes

section Sets

variable {nested nested' : List Nat → Except Problem (ClassSet × List Nat)} {set : ClassSet} {reading : SetReading}
  {fuel fuel' : Nat}

theorem Respelled.skipsTwice (respelled : Respelled codes codes') (active : ¬IsInert code) :
    Option.Rel Respelled (skipTwice? code codes) (skipTwice? code codes') := by
  rw [skipTwice?, skipTwice?]
  obtain ⟨none, none'⟩ | ⟨rest, rest', ahead, ahead', again⟩ := respelled.skips active
  · rw [none, none']
    exact .none
  · rw [ahead, ahead']
    dsimp only [Option.bind_some]
    obtain ⟨none, none'⟩ | ⟨rest, rest', ahead, ahead', further⟩ := again.skips active
    · rw [none, none']
      exact .none
    · rw [ahead, ahead']
      exact .some further

theorem Respelled.setRangeAhead? (respelled : Respelled codes codes') :
    Option.Rel Respelled (setRangeAhead? codes) (Pattern.setRangeAhead? codes') := by
  rw [Pattern.setRangeAhead?, Pattern.setRangeAhead?]
  obtain ⟨none, none'⟩ | ⟨rest, rest', ahead, ahead', again⟩ := respelled.skips (by decide : ¬IsInert (codeOf '-'))
  · rw [none, none']
    exact .none
  · rw [ahead, ahead']
    simp only [Option.bind_eq_bind, Option.bind_some]
    rw [again.isSome_skip? (by decide)]
    split
    · exact .none
    · exact .some again

/-- Inner sets are read in step. -/
def InStep (nested nested' : List Nat → Except Problem (ClassSet × List Nat)) : Prop :=
  ∀ codes codes', Respelled codes codes' → Follows Agree (nested codes) (nested' codes')

variable (inner : InStep nested nested') (respelled : Respelled codes codes')

include inner respelled

theorem readOperand_follows : Follows Agree (readOperand mode nested codes) (readOperand mode nested' codes') := by
  rw [readOperand, readOperand]
  obtain ⟨none, none'⟩ | ⟨rest, rest', ahead, ahead', again⟩ := respelled.skips (by decide : ¬IsInert (codeOf '['))
  · rw [none, none']
    exact respelled.readClassMember mode
  · rw [ahead, ahead']
    exact (inner _ _ again).map fun read read' agree => ⟨congrArg Escape.set agree.1, agree.2⟩

theorem readSetMember_follows :
    Follows AgreeTwice (readSetMember mode nested codes) (readSetMember mode nested' codes') := by
  refine (readOperand_follows inner respelled).bind fun part part' agree => ?_
  obtain ⟨part, rest⟩ := part
  obtain ⟨part', rest'⟩ := part'
  obtain ⟨rfl, again⟩ := agree
  have ranges := again.setRangeAhead?
  dsimp only at again ranges ⊢
  generalize Pattern.setRangeAhead? rest = ahead at ranges ⊢
  generalize Pattern.setRangeAhead? rest' = ahead' at ranges ⊢
  cases ranges with
  | none => cases part <;> exact .ok ⟨rfl, rfl, again⟩
  | some further =>
    cases part with
    | code first =>
      refine (further.readSetCode mode).bind fun last last' agree => ?_
      obtain ⟨last, after⟩ := last
      obtain ⟨last', after'⟩ := last'
      obtain ⟨rfl, behind⟩ := agree
      dsimp only
      split
      · exact .ok ⟨rfl, rfl, behind⟩
      · exact .error
    | item | set => exact .ok ⟨rfl, rfl, again⟩

theorem readUnion_follows (set : ClassSet) :
    Follows Agree (readUnion mode nested set codes) (readUnion mode nested' set codes') :=
  (readSetMember_follows inner respelled).map fun _ _ agree =>
    ⟨congrArg (SetReading.union ∘ ClassSet.union set) agree.1, agree.2.2⟩

theorem readIntersection_follows (set : ClassSet) :
    Follows Agree (readIntersection mode nested set codes) (readIntersection mode nested' set codes') := by
  rw [readIntersection, readIntersection, respelled.isSome_skip? (by decide)]
  split
  · exact .error
  · exact (readOperand_follows inner respelled).map fun _ _ agree =>
      ⟨congrArg (fun part : Escape => SetReading.intersection (.intersection set (part.asSet true))) agree.1, agree.2⟩

theorem readDifference_follows (set : ClassSet) :
    Follows Agree (readDifference mode nested set codes) (readDifference mode nested' set codes') :=
  (readOperand_follows inner respelled).map fun _ _ agree =>
    ⟨congrArg (fun part : Escape => SetReading.difference (.difference set (part.asSet true))) agree.1, agree.2⟩

/-- A part of a set of texts is read in step. -/
theorem readSetPart_follows (reading : SetReading) :
    Follows Agree (readSetPart mode nested codes reading) (readSetPart mode nested' codes' reading) := by
  have both := respelled.skipsTwice (by decide : ¬IsInert (codeOf '&'))
  have less := respelled.skipsTwice (by decide : ¬IsInert (codeOf '-'))
  cases reading with
  | nothing =>
    refine (readSetMember_follows inner respelled).map fun member member' agree => ⟨?_, agree.2.2⟩
    dsimp only
    rw [agree.1, agree.2.1]
  | union set => exact readUnion_follows inner respelled set
  | operand set =>
    rw [readSetPart, readSetPart]
    generalize skipTwice? (codeOf '&') codes = ahead at both ⊢
    generalize skipTwice? (codeOf '&') codes' = ahead' at both ⊢
    generalize skipTwice? (codeOf '-') codes = behind at less ⊢
    generalize skipTwice? (codeOf '-') codes' = behind' at less ⊢
    cases both with
    | some again => exact readIntersection_follows inner again set
    | none =>
      cases less with
      | some again => exact readDifference_follows inner again set
      | none => exact readUnion_follows inner respelled set
  | intersection set =>
    rw [readSetPart, readSetPart]
    generalize skipTwice? (codeOf '&') codes = ahead at both ⊢
    generalize skipTwice? (codeOf '&') codes' = ahead' at both ⊢
    cases both with
    | some again => exact readIntersection_follows inner again set
    | none => exact .error
  | difference set =>
    rw [readSetPart, readSetPart]
    generalize skipTwice? (codeOf '-') codes = ahead at less ⊢
    generalize skipTwice? (codeOf '-') codes' = ahead' at less ⊢
    cases less with
    | some again => exact readDifference_follows inner again set
    | none => exact .error

theorem openClass_follows : Follows Agree (openClass nested codes) (openClass nested' codes') := by
  rw [openClass, openClass]
  obtain ⟨none, none'⟩ | ⟨rest, rest', ahead, ahead', again⟩ := respelled.skips (by decide : ¬IsInert (codeOf '^'))
  · rw [none, none']
    exact inner _ _ respelled
  · rw [ahead, ahead']
    refine (inner _ _ again).bind fun read read' agree => ?_
    obtain ⟨set, after⟩ := read
    obtain ⟨set', after'⟩ := read'
    obtain ⟨rfl, behind⟩ := agree
    dsimp only
    split
    · exact .error
    · exact .ok ⟨rfl, behind⟩

omit inner respelled

/-- A set of texts is read in step. More fuel does no harm, and the closing does not close the set. -/
theorem Respelled.readSet (respelled : Respelled codes codes') (enough : fuel ≤ fuel') (reading : SetReading) :
    Follows Agree (readSet mode fuel reading codes) (Pattern.readSet mode fuel' reading codes') := by
  induction fuel generalizing fuel' reading codes codes' with
  | zero => exact .error
  | succ fuel ih =>
    obtain ⟨fuel', rfl⟩ : ∃ less, fuel' = less + 1 := Nat.exists_eq_add_of_le' (by omega : 1 ≤ fuel')
    rw [Pattern.readSet, Pattern.readSet]
    obtain ⟨none, none'⟩ | ⟨rest, rest', ahead, ahead', again⟩ := respelled.skips (by decide : ¬IsInert (codeOf ']'))
    · rw [none, none']
      have contents : InStep (Pattern.readSet mode fuel .nothing) (Pattern.readSet mode fuel' .nothing) :=
        fun _ _ inside => ih inside (by omega) .nothing
      have inner : InStep (openClass (Pattern.readSet mode fuel .nothing)) (openClass (Pattern.readSet mode fuel' .nothing)) :=
        fun _ _ inside => openClass_follows contents inside
      refine (readSetPart_follows inner respelled reading).bind fun next next' agree => ?_
      rw [agree.1]
      exact ih agree.2 (by omega) _
    · rw [ahead, ahead']
      exact .ok ⟨rfl, again⟩

/-- A class is read in step behind its opening bracket. -/
theorem Respelled.readBrackets (respelled : Respelled codes codes') (mode : Mode) :
    Follows Agree (readBrackets mode codes) (Pattern.readBrackets mode codes') := by
  have longer := respelled.length_le
  refine openClass_follows (fun inside inside' again => ?_) respelled
  split
  · exact again.readSet (by omega) .nothing
  · exact (again.readClass (by omega)).map fun items items' agree => ⟨congrArg ClassSet.items agree.1, agree.2⟩

end Sets

end TokenGrammar.Pattern
