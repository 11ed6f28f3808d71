import TokenGrammar.Proofs.Expressions.Quantifiers

namespace TokenGrammar.Pattern

variable {codes codes' rest rest' spelling : List Nat} {code code' : Nat} {mode : Mode}

theorem readLetters?_of_inert (inert : IsInert code) (value : Bool) (modifiers : Modifiers) :
    readLetters? value modifiers (code :: rest) = some (modifiers, code :: rest) := by
  rw [readLetters?, if_neg (ne_of_inert inert (by decide)), if_neg (ne_of_inert inert (by decide)),
    if_neg (ne_of_inert inert (by decide))]

theorem Respelled.readLetters? (respelled : Respelled codes codes') (value : Bool) (modifiers : Modifiers) :
    Option.Rel Agree (readLetters? value modifiers codes) (Pattern.readLetters? value modifiers codes') := by
  induction codes generalizing codes' modifiers with
  | nil =>
    cases respelled
    exact .some ⟨rfl, .done⟩
  | cons code codes ih =>
    cases respelled.ahead with
    | halted inert inert' =>
      rw [readLetters?_of_inert inert, readLetters?_of_inert inert']
      exact .some ⟨rfl, respelled⟩
    | @step _ _ codes' plain rest =>
      have once (given : Option Bool) (modifiers : Modifiers) : Option.Rel Agree
          (if given.isSome then none else Pattern.readLetters? value modifiers codes)
          (if given.isSome then none else Pattern.readLetters? value modifiers codes') := by
        split
        · exact .none
        · exact ih rest modifiers
      rw [Pattern.readLetters?, Pattern.readLetters?]
      split
      · exact once _ _
      split
      · exact once _ _
      split
      · exact once _ _
      · exact .some ⟨rfl, respelled⟩

theorem Respelled.readRemoved? (respelled : Respelled codes codes') (added : Modifiers) :
    Option.Rel Agree (readRemoved? added codes) (Pattern.readRemoved? added codes') := by
  rw [Pattern.readRemoved?, Pattern.readRemoved?]
  obtain ⟨none, none'⟩ | ⟨rest, rest', ahead, ahead', again⟩ := respelled.skips (by decide : ¬IsInert (codeOf '-'))
  · rw [none, none']
    exact .some ⟨rfl, respelled⟩
  · rw [ahead, ahead']
    exact again.readLetters? false added

/-- Readers that agree go on to readers that agree. -/
theorem rel_bind {α β : Type} {read read' : Option (α × List Nat)} {next next' : α × List Nat → Option (β × List Nat)}
    (agree : Option.Rel Agree read read') (further : ∀ value codes codes', Respelled codes codes' →
      Option.Rel Agree (next (value, codes)) (next' (value, codes'))) :
    Option.Rel Agree (read.bind next) (read'.bind next') := by
  cases agree with
  | none => exact .none
  | @some read read' agree =>
    obtain ⟨value, codes⟩ := read
    obtain ⟨value', codes'⟩ := read'
    obtain ⟨rfl, again⟩ := agree
    exact further _ _ _ again

theorem Respelled.readModifiers? (respelled : Respelled codes codes') :
    Option.Rel Agree (readModifiers? codes) (Pattern.readModifiers? codes') := by
  refine rel_bind (respelled.readLetters? true {}) fun added rest rest' again => ?_
  refine rel_bind (again.readRemoved? added) fun modifiers rest rest' again => ?_
  obtain ⟨none, none'⟩ | ⟨inside, inside', ahead, ahead', further⟩ := again.skips (by decide : ¬IsInert (codeOf ':'))
  · simp only [none, none']
    exact .none
  · simp only [ahead, ahead', Option.bind_eq_bind, Option.bind_some]
    split
    · exact .none
    · exact .some ⟨rfl, further⟩

theorem Respelled.readAngle (respelled : Respelled codes codes') (mode : Mode) (opened : Nat) :
    Follows AgreeTwice (readAngle mode opened codes) (Pattern.readAngle mode opened codes') := by
  rw [Pattern.readAngle, Pattern.readAngle]
  obtain ⟨none, none'⟩ | ⟨inside, inside', ahead, ahead', again⟩ := respelled.skips (by decide : ¬IsInert (codeOf '='))
  · rw [none, none']
    obtain ⟨none, none'⟩ | ⟨inside, inside', ahead, ahead', again⟩ := respelled.skips (by decide : ¬IsInert (codeOf '!'))
    · rw [none, none']
      have names := respelled.readGroupName? mode.data
      dsimp only
      generalize Pattern.readGroupName? mode.data codes = read at names ⊢
      generalize Pattern.readGroupName? mode.data codes' = read' at names ⊢
      cases names with
      | none => exact .error
      | some agree => exact .ok ⟨rfl, rfl, agree.2⟩
    · rw [ahead, ahead']
      exact .ok ⟨rfl, rfl, again⟩
  · rw [ahead, ahead']
    exact .ok ⟨rfl, rfl, again⟩

theorem readKind_of_inert (inert : IsInert code) {opened : Nat} :
    readKind mode opened (code :: rest) = .error .invalidGroup := by
  have none : readModifiers? (code :: rest) = none := by
    have colon : skip? (codeOf ':') (code :: rest) = none := skip?_cons_of_ne (ne_of_inert inert (by decide))
    have dash : readRemoved? {} (code :: rest) = some ({}, code :: rest) := by
      rw [readRemoved?, skip?_cons_of_ne (ne_of_inert inert (by decide))]
    rw [readModifiers?, readLetters?_of_inert inert]
    simp only [Option.bind_eq_bind, Option.bind_some, dash, colon, Option.bind_none]
  rw [readKind, if_neg (ne_of_inert inert (by decide)), if_neg (ne_of_inert inert (by decide)),
    if_neg (ne_of_inert inert (by decide)), if_neg (ne_of_inert inert (by decide)), none]

theorem Respelled.readKind (respelled : Respelled codes codes') (mode : Mode) (opened : Nat) :
    Follows AgreeTwice (readKind mode opened codes) (Pattern.readKind mode opened codes') := by
  cases respelled.ahead with
  | ended => exact .error
  | halted inert =>
    rw [readKind_of_inert inert]
    exact .error
  | step plain rest =>
    have modifiers := respelled.readModifiers?
    rw [Pattern.readKind, Pattern.readKind]
    split
    · exact .ok ⟨rfl, rfl, rest⟩
    split
    · exact .ok ⟨rfl, rfl, rest⟩
    split
    · exact .ok ⟨rfl, rfl, rest⟩
    split
    · exact rest.readAngle mode opened
    · generalize Pattern.readModifiers? _ = read at modifiers ⊢
      generalize Pattern.readModifiers? _ = read' at modifiers ⊢
      cases modifiers with
      | none => exact .error
      | some agree => exact .ok ⟨congrArg Opening.modified agree.1, rfl, agree.2⟩

theorem Respelled.readOpening (respelled : Respelled codes codes') (mode : Mode) (opened : Nat) :
    Follows AgreeTwice (readOpening mode opened codes) (Pattern.readOpening mode opened codes') := by
  rw [Pattern.readOpening, Pattern.readOpening]
  obtain ⟨none, none'⟩ | ⟨rest, rest', ahead, ahead', again⟩ := respelled.skips (by decide : ¬IsInert (codeOf '?'))
  · rw [none, none']
    exact .ok ⟨rfl, rfl, respelled⟩
  · rw [ahead, ahead']
    exact again.readKind mode opened

theorem Respelled.readReference (respelled : Respelled codes codes') (mode : Mode) :
    Follows AgreeTwice (readReference mode codes) (Pattern.readReference mode codes') := by
  rw [Pattern.readReference, Pattern.readReference]
  obtain ⟨none, none'⟩ | ⟨rest, rest', ahead, ahead', again⟩ := respelled.skips (by decide : ¬IsInert (codeOf '<'))
  · rw [none]
    exact .error
  · rw [ahead, ahead']
    have names := again.readGroupName? mode.data
    simp only [Option.bind_some]
    generalize Pattern.readGroupName? mode.data rest = read at names ⊢
    generalize Pattern.readGroupName? mode.data rest' = read' at names ⊢
    cases names with
    | none => exact .error
    | @some read read' agree =>
      obtain ⟨name, after⟩ := read
      obtain ⟨name', after'⟩ := read'
      obtain ⟨rfl, behind⟩ := agree
      dsimp only
      split
      · exact .error
      · exact .ok ⟨rfl, rfl, behind⟩

/-- What an escape outside of classes stands for is read in step, whatever code it begins with. -/
theorem Respelled.readEscapedTerm (respelled : Respelled codes codes') (mode : Mode) (code : Nat) :
    Follows AgreeTwice (readEscapedTerm mode (code :: codes)) (Pattern.readEscapedTerm mode (code :: codes')) := by
  have escape : Follows AgreeTwice
      ((Pattern.readEscape mode false code codes).map fun escape => (escape.1.term mode, true, escape.2))
      ((Pattern.readEscape mode false code codes').map fun escape => (escape.1.term mode, true, escape.2)) :=
    (respelled.readEscape mode false code).map fun _ _ agree => ⟨congrArg (Escape.term mode) agree.1, rfl, agree.2⟩
  rw [Pattern.readEscapedTerm, Pattern.readEscapedTerm]
  split
  · exact .ok ⟨rfl, rfl, respelled⟩
  split
  · exact .ok ⟨rfl, rfl, respelled⟩
  split
  · exact respelled.readReference mode
  by_cases backslash : code = codeOf '\\'
  · have noDigit : ¬(codeOf '1' ≤ code ∧ code ≤ codeOf '9') := by
      rw [backslash]
      decide
    dsimp only
    rw [if_neg fun reference => noDigit ⟨reference.1, reference.2.1⟩,
      if_neg fun reference => noDigit ⟨reference.1, reference.2.1⟩]
    exact escape
  · obtain ⟨rest', same, again⟩ := ((Respelled.same backslash respelled).readDecimal false 0).exists_eq
    dsimp only
    rw [same]
    split
    · exact .ok ⟨rfl, rfl, again⟩
    · exact escape

/-- An escape that begins with no digit and no letter of its own is read as a code outside of classes too. -/
theorem readEscapedTerm_of_code (plain : code ∉ ['b', 'B', 'k'].map codeOf)
    (noDigit : ¬(codeOf '1' ≤ code ∧ code ≤ codeOf '9')) : readEscapedTerm mode (code :: rest) =
      (readEscape mode false code rest).map fun escape => (escape.1.term mode, true, escape.2) := by
  simp only [List.map_cons, List.map_nil, List.mem_cons, List.not_mem_nil, or_false, not_or] at plain
  obtain ⟨edge, inside, reference⟩ := plain
  rw [readEscapedTerm, if_neg edge, if_neg inside, if_neg (by simp [reference])]
  exact if_neg fun number => noDigit ⟨number.1, number.2.1⟩

/-- The spelling of a code is read as a term that takes that code. -/
theorem Spells.readEscapedTerm (spells : Spells code spelling) (mode : Mode) (rest : List Nat) :
    readEscapedTerm mode (spelling ++ rest) = .ok (.code code, true, rest) := by
  obtain ⟨mark, others, rfl, reads⟩ := spells.readEscape mode false rest
  have plain : mark ∉ ['b', 'B', 'k'].map codeOf ∧ ¬(codeOf '1' ≤ mark ∧ mark ≤ codeOf '9') := by
    cases spells <;> decide
  rw [List.cons_append, readEscapedTerm_of_code plain.1 plain.2, reads]
  rfl

theorem Spells.follows_readEscapedTerm (spells : Spells code spelling) (respelled : Respelled codes codes')
    (mode : Mode) : Follows AgreeTwice (Pattern.readEscapedTerm mode (code :: codes)) (.ok (.code code, true, codes')) := by
  have plain : code ∉ ['b', 'B', 'k'].map codeOf ∧ ¬(codeOf '1' ≤ code ∧ code ≤ codeOf '9') := by
    cases spells <;> decide
  rw [readEscapedTerm_of_code plain.1 plain.2]
  change Follows AgreeTwice _ ((Except.ok (Escape.code code, codes')).map fun escape => (escape.1.term mode, true, escape.2))
  exact (spells.follows_readEscape respelled mode false).map fun _ _ agree =>
    ⟨congrArg (Escape.term mode) agree.1, rfl, agree.2⟩

theorem Spells.readAtom (spells : Spells code spelling) (mode : Mode) (rest : List Nat) :
    readAtom mode code rest = .ok (.code code, true, rest) := by
  cases spells <;> rfl

/-- A term that is no group is read in step. -/
theorem Respelled.readAtom (respelled : Respelled (code :: codes) (code' :: codes')) (mode : Mode) :
    Follows AgreeTwice (readAtom mode code codes) (Pattern.readAtom mode code' codes') := by
  have backslash (codes : List Nat) : Pattern.readAtom mode (codeOf '\\') codes = Pattern.readEscapedTerm mode codes := rfl
  cases respelled with
  | same plain rest =>
    rw [Pattern.readAtom, Pattern.readAtom, rest.isSome_readBounds?]
    split
    · exact .ok ⟨rfl, rfl, rest⟩
    split
    · exact .ok ⟨rfl, rfl, rest⟩
    split
    · exact .ok ⟨rfl, rfl, rest⟩
    split
    · exact (rest.readBrackets mode).map fun _ _ agree => ⟨congrArg Node.class agree.1, rfl, agree.2⟩
    split
    · exact .error
    split
    · split
      · exact .error
      · exact .ok ⟨rfl, rfl, rest⟩
    split
    · split
      · exact .error
      · exact .ok ⟨rfl, rfl, rest⟩
    · exact .ok ⟨rfl, rfl, rest⟩
  | escaped rest => exact rest.readEscapedTerm mode _
  | spelled spells rest =>
    rw [spells.readAtom, backslash, spells.readEscapedTerm]
    exact .ok ⟨rfl, rfl, rest⟩
  | spelledEscape spells rest =>
    rw [backslash, backslash, spells.readEscapedTerm]
    exact spells.follows_readEscapedTerm rest mode
  | dangling => exact .error

namespace Reading

variable {reading : Reading} {fuel firstGroup : Nat} {term root : Node} {mayRepeat : Bool} {outer : List Frame}

theorem finish_cons : finish mode (fuel + 1) (reading, code :: codes) =
    reading.next mode code codes >>= finish mode fuel := rfl

/-- What has been read of an expression inside of more groups. -/
def within (outer : List Frame) (reading : Reading) : Reading := { reading with frames := reading.frames ++ outer }

/-- The same was read inside of more groups, and what remains is respelled. -/
def Within (outer : List Frame) (read read' : Reading × List Nat) : Prop :=
  read'.1 = read.1.within outer ∧ Respelled read.2 read'.2

theorem append_follows (respelled : Respelled codes codes') : Follows (Within outer)
    (reading.append firstGroup term mayRepeat codes) ((reading.within outer).append firstGroup term mayRepeat codes') := by
  rw [append, append]
  split
  · refine respelled.readQuantifier.bind fun quantifier quantifier' agree => ?_
    rw [agree.1]
    exact .ok ⟨rfl, agree.2⟩
  · exact .ok ⟨rfl, respelled⟩

theorem close_follows (respelled : Respelled codes codes') : Follows (Within outer) (reading.close mode codes)
    ((reading.within outer).close mode codes') := by
  obtain ⟨opened, frames, read⟩ := reading
  cases frames with
  | nil => exact .error
  | cons frame frames => exact append_follows respelled

/-- One term, or one end of a group or an alternative, is read in step inside of more groups. -/
theorem next_follows (respelled : Respelled (code :: codes) (code' :: codes')) : Follows (Within outer)
    (reading.next mode code codes) ((reading.within outer).next mode code' codes') := by
  have atom (plain : code ≠ codeOf '|' ∧ code ≠ codeOf '(' ∧ code ≠ codeOf ')')
      (plain' : code' ≠ codeOf '|' ∧ code' ≠ codeOf '(' ∧ code' ≠ codeOf ')') : Follows (Within outer)
      (reading.next mode code codes) ((reading.within outer).next mode code' codes') := by
    rw [next, next, if_neg plain.1, if_neg plain.2.1, if_neg plain.2.2, if_neg plain'.1, if_neg plain'.2.1,
      if_neg plain'.2.2]
    refine (respelled.readAtom mode).bind fun atom atom' agree => ?_
    rw [← agree.1, ← agree.2.1]
    exact append_follows agree.2.2
  cases respelled with
  | same _ rest =>
    by_cases alternative : code = codeOf '|'
    · rw [next, next, if_pos alternative, if_pos alternative]
      exact .ok ⟨rfl, rest⟩
    by_cases opens : code = codeOf '('
    · rw [next, next, if_neg alternative, if_neg alternative, if_pos opens, if_pos opens]
      refine (rest.readOpening mode _).bind fun group group' agree => ?_
      rw [← agree.1, ← agree.2.1]
      exact .ok ⟨rfl, agree.2.2⟩
    by_cases closes : code = codeOf ')'
    · rw [next, next, if_neg alternative, if_neg alternative, if_neg opens, if_neg opens, if_pos closes, if_pos closes]
      exact close_follows rest
    · exact atom ⟨alternative, opens, closes⟩ ⟨alternative, opens, closes⟩
  | escaped | spelledEscape | dangling => exact atom (by decide) (by decide)
  | spelled spells =>
    refine atom ?_ (by decide)
    cases spells <;> decide

/-- Where an expression can be read, its respelling inside of more groups is read in step with it up to the closing. -/
theorem finish_follows (respelled : Respelled codes codes') (reads : finish mode fuel (reading, codes) = .ok root) :
    ∃ used < fuel, ∃ reading' : Reading, reading'.frames = [] ∧ reading'.read.finish = root ∧
      ∀ left, finish mode (used + left) (reading.within outer, codes') =
        finish mode left (reading'.within outer, closing) := by
  induction fuel generalizing reading codes codes' with
  | zero => cases reads
  | succ fuel ih =>
    cases codes with
    | nil =>
      cases respelled
      have ends : (if reading.frames.isEmpty then Except.ok reading.read.finish else .error Problem.unterminatedGroup) =
          .ok root := reads
      cases frames : reading.frames with
      | nil =>
        rw [frames] at ends
        refine ⟨0, Nat.succ_pos fuel, reading, frames, Except.ok.inj ends, fun left => ?_⟩
        rw [Nat.zero_add]
      | cons frame frames' =>
        rw [frames] at ends
        cases ends
    | cons code codes =>
      have longer := respelled.length_le
      cases codes' with
      | nil => simp at longer
      | cons code' codes' =>
        rw [finish_cons] at reads
        cases step : reading.next mode code codes with
        | error problem =>
          rw [step] at reads
          cases reads
        | ok next =>
          rw [step] at reads
          obtain ⟨⟨next', rest'⟩, step', rfl, again⟩ := next_follows respelled _ step
          obtain ⟨used, less, reading', closed, finished, ends⟩ := ih again reads
          refine ⟨used + 1, Nat.succ_lt_succ less, reading', closed, finished, fun left => ?_⟩
          rw [Nat.succ_add, finish_cons, step']
          exact ends left

end Reading

end TokenGrammar.Pattern
