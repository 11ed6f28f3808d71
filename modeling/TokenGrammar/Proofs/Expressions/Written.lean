import Mathlib.Tactic.SplitIfs
import TokenGrammar.Proofs.Codes
import TokenGrammar.Proofs.Expressions.Wrapped

namespace TokenGrammar.Pattern

variable {codes codes' spelling : List Nat} {code : Nat} {flags : Flags} {data : CharacterData} {escaped inClass : Bool}

/-- The codes of a text that stand for one of its codes. -/
def codesOfCode (flags : Flags) (code : Nat) : List Nat :=
  if flags.codePoints then [code] else (Text.unitsOf code).map UInt16.toNat

theorem codesOf_eq (flags : Flags) (content : Text) : codesOf flags content = content.codes.flatMap (codesOfCode flags) := by
  have each : codesOfCode flags = if flags.codePoints then fun code => [code]
      else fun code => (Text.unitsOf code).map UInt16.toNat := by
    funext code
    rw [codesOfCode]
    split <;> rfl
  rw [codesOf, each]
  split
  · exact (List.flatMap_singleton' _).symm
  · rw [← List.map_flatMap]
    exact congrArg (fun text : Text => text.units.map UInt16.toNat) content.ofCodes_codes.symm

theorem codesOf_ofCodes (flags : Flags) (written : Text.AreCodes codes) :
    codesOf flags (.ofCodes codes) = codes.flatMap (codesOfCode flags) := by
  rw [codesOf_eq, written]

theorem codesOfCode_of_small (flags : Flags) (small : code < 0x10000) : codesOfCode flags code = [code] := by
  rw [codesOfCode]
  split
  · rfl
  · rw [Text.unitsOf, if_pos small, List.map_singleton, Text.toNat_ofNat small]

theorem flatMap_codesOfCode_of_small (flags : Flags) (small : ∀ code ∈ codes, code < 0x10000) :
    codes.flatMap (codesOfCode flags) = codes := by
  induction codes with
  | nil => rfl
  | cons code rest ih =>
    obtain ⟨first, others⟩ := List.forall_mem_cons.mp small
    rw [List.flatMap_cons, codesOfCode_of_small flags first, ih others, List.singleton_append]

/-- A code is one code of a text, or two that are no backslash. -/
theorem codesOfCode_eq_or (flags : Flags) (bounded : code < 0x110000) : codesOfCode flags code = [code] ∨
    ∃ leading trailing, codesOfCode flags code = [leading, trailing] ∧
      leading ≠ codeOf '\\' ∧ trailing ≠ codeOf '\\' := by
  by_cases small : code < 0x10000
  · exact .inl (codesOfCode_of_small flags small)
  rw [codesOfCode]
  split
  · exact .inl rfl
  · rw [Text.unitsOf, if_neg small]
    have backslash : codeOf '\\' = 0x5C := rfl
    refine .inr ⟨_, _, rfl, ?_, ?_⟩
    · rw [Text.toNat_ofNat (by omega), backslash]
      omega
    · rw [Text.toNat_ofNat (by omega), backslash]
      omega

theorem codesOf_append {first second : Text} (apart : ¬Text.MeetInPair first second) :
    codesOf flags (first ++ second) = codesOf flags first ++ codesOf flags second := by
  rw [codesOf_eq, codesOf_eq, codesOf_eq, Text.codes_append_of_not_meetInPair apart, List.flatMap_append]

theorem respelled_append_closing : (codes : List Nat) → Respelled codes (codes ++ closing)
  | [] => .done
  | code :: rest => by
    by_cases backslash : code = codeOf '\\'
    · subst backslash
      cases rest with
      | nil => exact .dangling
      | cons next after => exact .escaped (respelled_append_closing after)
    · exact .same backslash (respelled_append_closing rest)

theorem spells_of_lineEndSpelling? (isEnd : lineEndSpelling? code = some spelling) : Spells code spelling := by
  unfold lineEndSpelling? at isEnd
  split_ifs at isEnd with here here here here <;> cases isEnd <;> subst here
  · exact .lineFeed
  · exact .carriageReturn
  · exact .lineSeparator
  · exact .paragraphSeparator

/-- Codes of ASCII are units that are no part of a pair. -/
theorem Spells.ascii (spells : Spells code spelling) : code < 0x10000 ∧ ∀ letter ∈ spelling, letter < 0x80 := by
  cases spells <;> exact ⟨by decide, by decide⟩

/-- A code is written as it is, or by codes of ASCII. -/
theorem writtenAs_eq_or (escaped inClass : Bool) (code : Nat) : writtenAs escaped inClass code = [code] ∨
    writtenAs escaped inClass code ≠ [] ∧ ∀ letter ∈ writtenAs escaped inClass code, letter < 0x80 := by
  rw [writtenAs]
  cases isEnd : lineEndSpelling? code with
  | some spelling =>
    have spells := spells_of_lineEndSpelling? isEnd
    have letters := spells.ascii.2
    refine .inr ?_
    dsimp only
    split
    · exact ⟨List.ne_nil_of_length_pos spells.length_pos, letters⟩
    · exact ⟨List.cons_ne_nil _ _, List.forall_mem_cons.mpr ⟨by decide, letters⟩⟩
  | none =>
    dsimp only
    split
    · exact .inr ⟨List.cons_ne_nil _ _, by decide⟩
    · exact .inl rfl

theorem writtenAs_ne_nil : writtenAs escaped inClass code ≠ [] := by
  rcases writtenAs_eq_or escaped inClass code with same | ⟨filled, -⟩
  · rw [same]
    exact List.cons_ne_nil _ _
  · exact filled

theorem not_pairUnit_of_ascii (ascii : code < 0x80) : Text.isLeading code = false ∧ Text.isTrailing code = false := by
  simp only [Text.isLeading, Text.isTrailing, Bool.and_eq_false_iff, decide_eq_false_iff_not]
  omega

theorem areCodes_append_of_ascii {front : List Nat} (ascii : ∀ code ∈ front, code < 0x80) (written : Text.AreCodes codes) :
    Text.AreCodes (front ++ codes) := by
  induction front with
  | nil => exact written
  | cons code front ih =>
    obtain ⟨first, others⟩ := List.forall_mem_cons.mp ascii
    exact (ih others).cons (by omega) (.inl (not_pairUnit_of_ascii first).1)

/-- A written source begins with a second unit of a pair only where the source does. -/
theorem head?_escapeSource {next : Nat} (first : (escapeSource escaped inClass codes).head? = some next)
    (trails : Text.isTrailing next = true) : codes.head? = some next := by
  cases codes with
  | nil => cases first
  | cons code rest =>
    rw [escapeSource] at first
    rcases writtenAs_eq_or escaped inClass code with same | ⟨filled, ascii⟩
    · rw [same] at first
      exact first
    · cases written : writtenAs escaped inClass code with
      | nil => exact absurd written filled
      | cons letter letters =>
        rw [written] at first ascii
        obtain rfl := Option.some.inj first
        have plain := (not_pairUnit_of_ascii (ascii letter (List.mem_cons_self ..))).2
        rw [trails] at plain
        cases plain

/-- A written source has the codes of a text. -/
theorem areCodes_escapeSource (written : Text.AreCodes codes) (escaped inClass : Bool) :
    Text.AreCodes (escapeSource escaped inClass codes) := by
  induction codes generalizing escaped inClass with
  | nil => exact written
  | cons code rest ih =>
    rw [escapeSource]
    rcases writtenAs_eq_or escaped inClass code with same | ⟨-, ascii⟩
    · rw [same]
      refine (ih written.tail _ _).cons (written.lt code (List.mem_cons_self ..)) ?_
      rw [or_iff_not_imp_left, Bool.not_eq_false]
      intro leads next first
      rw [Bool.eq_false_iff]
      intro trails
      obtain ⟨others, rfl⟩ : ∃ others, rest = next :: others := by
        have begins := head?_escapeSource first trails
        cases rest with
        | nil => cases begins
        | cons head others =>
          obtain rfl := Option.some.inj begins
          exact ⟨others, rfl⟩
      exact written.not_pair leads trails
    · exact areCodes_append_of_ascii ascii (ih written.tail _ _)

section Written

variable (rest : Respelled codes codes') (bounded : code < 0x110000)

include rest bounded

/-- A code by itself is respelled as it is written in the text of an expression. -/
theorem respelled_written (plain : code ≠ codeOf '\\') : Respelled (codesOfCode flags code ++ codes)
    ((writtenAs false inClass code).flatMap (codesOfCode flags) ++ codes') := by
  rw [writtenAs]
  cases isEnd : lineEndSpelling? code with
  | some spelling =>
    have spells := spells_of_lineEndSpelling? isEnd
    have letters : ∀ letter ∈ codeOf '\\' :: spelling, letter < 0x10000 :=
      List.forall_mem_cons.mpr ⟨by decide, fun letter inside => Nat.lt_trans (spells.ascii.2 letter inside) (by decide)⟩
    dsimp only
    rw [if_neg Bool.false_ne_true, flatMap_codesOfCode_of_small flags letters, codesOfCode_of_small flags spells.ascii.1]
    exact .spelled spells rest
  | none =>
    dsimp only
    split
    case isTrue slash =>
      obtain rfl : code = codeOf '/' := by simp at slash; exact slash.1
      rw [flatMap_codesOfCode_of_small flags (by decide), codesOfCode_of_small flags (by decide)]
      exact .spelled .slash rest
    case isFalse =>
      rw [List.flatMap_singleton]
      rcases codesOfCode_eq_or flags bounded with single | ⟨leading, trailing, pair, plain, plain'⟩
      · rw [single]
        exact .same plain rest
      · rw [pair]
        exact .same plain (.same plain' rest)

/-- A code behind a backslash is respelled as it is written there in the text of an expression. -/
theorem respelled_escaped : Respelled (codeOf '\\' :: (codesOfCode flags code ++ codes))
    (codeOf '\\' :: ((writtenAs true inClass code).flatMap (codesOfCode flags) ++ codes')) := by
  rw [writtenAs]
  cases isEnd : lineEndSpelling? code with
  | some spelling =>
    have spells := spells_of_lineEndSpelling? isEnd
    have letters : ∀ letter ∈ spelling, letter < 0x10000 :=
      fun letter inside => Nat.lt_trans (spells.ascii.2 letter inside) (by decide)
    dsimp only
    rw [if_pos rfl, flatMap_codesOfCode_of_small flags letters, codesOfCode_of_small flags spells.ascii.1]
    exact .spelledEscape spells rest
  | none =>
    dsimp only
    rw [if_neg (by simp), List.flatMap_singleton]
    rcases codesOfCode_eq_or flags bounded with single | ⟨leading, trailing, pair, -, plain⟩
    · rw [single]
      exact .escaped rest
    · rw [pair]
      exact .escaped (.same plain rest)

end Written

/-- A written source is a respelling of the source. -/
theorem respelled_escapeSource (flags : Flags) : (codes : List Nat) → (∀ code ∈ codes, code < 0x110000) →
    (inClass : Bool) → Respelled (codes.flatMap (codesOfCode flags))
      ((escapeSource false inClass codes).flatMap (codesOfCode flags) ++ closing)
  | [], _, _ => .done
  | code :: rest, bounded, inClass => by
    obtain ⟨first, others⟩ := List.forall_mem_cons.mp bounded
    rw [escapeSource, List.flatMap_append, List.append_assoc, List.flatMap_cons]
    by_cases backslash : code = codeOf '\\'
    · subst backslash
      have same : classBehind false inClass (codeOf '\\') = inClass := by cases inClass <;> rfl
      have written : writtenAs false inClass (codeOf '\\') = [codeOf '\\'] := rfl
      rw [same, written, List.flatMap_singleton, codesOfCode_of_small flags (by decide)]
      cases rest with
      | nil => exact .dangling
      | cons next after =>
        obtain ⟨second, others⟩ := List.forall_mem_cons.mp others
        have ends : (decide (next = codeOf '\\') && !(decide (codeOf '\\' = codeOf '\\') && !false)) = false := by simp
        rw [escapeSource, List.flatMap_append, List.append_assoc, List.flatMap_cons, ends]
        exact respelled_escaped (respelled_escapeSource flags after others inClass) second
    · have starts : (decide (code = codeOf '\\') && !false) = false := by simp [backslash]
      rw [starts]
      exact respelled_written (respelled_escapeSource flags rest others _) first backslash

theorem codesOf_ascii (flags : Flags) {content : Text} (ascii : ∀ code ∈ content.codes, code < 0x10000) :
    codesOf flags content = content.codes := by
  rw [codesOf_eq, flatMap_codesOfCode_of_small flags ascii]

theorem codesOf_between (source : Text) :
    codesOf flags ("^(?:" ++ source ++ ")$") = opening ++ (codesOf flags source ++ closing) := by
  have front : codesOf flags ("^(?:" : Text) = opening := codesOf_ascii flags (by decide)
  have back : codesOf flags (")$" : Text) = closing := codesOf_ascii flags (by decide)
  rw [codesOf_append, codesOf_append, front, back, List.append_assoc]
  · rintro ⟨leading, trailing, last, -, leads, -⟩
    obtain rfl : (58 : UInt16) = leading := Option.some.inj last
    exact absurd leads (by decide)
  · rintro ⟨leading, trailing, -, first, -, trails⟩
    obtain rfl : (41 : UInt16) = trailing := Option.some.inj first
    exact absurd trails (by decide)

/-- A pattern between the ends of a text is made of the expression that its text is by itself. -/
theorem whole_of_readPattern {source text : Text} {root : Node}
    (reads : readPattern (.of data flags (codesOf flags source)) (codesOf flags source) = .ok root)
    (respelled : Respelled (codesOf flags source) (codesOf flags text ++ closing)) :
    whole data text flags = .ok ⟨"^(?:" ++ text ++ ")$", flags.forTest, root.between,
      (Mode.of data flags (codesOf flags source)).groups.length⟩ := by
  have codes_eq (content : Text) : codesOf flags.forTest content = codesOf flags content := rfl
  have mode : Mode.of data flags.forTest (opening ++ (codesOf flags text ++ closing)) =
      .of data flags (codesOf flags source) :=
    congrArg (Mode.mk data flags.codePoints flags.unicodeSets) respelled.groupsIn_opening
  rw [whole, ofSource, codes_eq, codesOf_between, mode]
  simp only [respelled.readPattern reads]
  rfl

theorem of_ofSource_eq_ok {source : Text} {pattern : Pattern} (reads : ofSource data source flags = .ok pattern) :
    readPattern (.of data flags (codesOf flags source)) (codesOf flags source) = .ok pattern.root ∧
      pattern.flags = flags ∧ pattern.groups = (Mode.of data flags (codesOf flags source)).groups.length := by
  rw [ofSource] at reads
  cases tree : readPattern (.of data flags (codesOf flags source)) (codesOf flags source) with
  | error problem =>
    simp only [tree] at reads
    cases reads
  | ok root =>
    simp only [tree] at reads
    cases reads
    exact ⟨rfl, rfl, rfl⟩

end TokenGrammar.Pattern

namespace TokenGrammar.PatternSource

open Pattern (codesOf readPattern CharacterData)

/-- The pattern that a source is by itself: what a text is read as, or the compiled pattern without the flags that steer
a search. -/
inductive IsOf (data : CharacterData) : PatternSource → Pattern → Prop
  | text {source : Text} {expression : Pattern} (reads : Pattern.ofSource data source {} = .ok expression) :
      IsOf data (.text source) expression
  | compiled {pattern : Pattern} (reads : Pattern.ofSource data pattern.source pattern.flags = .ok pattern) :
      IsOf data (.compiled pattern) { pattern with flags := pattern.flags.forTest }

/-- A pattern between the ends of a text is made of the expression that its source is by itself. -/
theorem IsOf.whole_eq {data : CharacterData} {source : PatternSource} {expression : Pattern}
    (isOf : source.IsOf data expression) : Pattern.whole data source.source source.flags = .ok
      ⟨"^(?:" ++ source.source ++ ")$", expression.flags, expression.root.between, expression.groups⟩ := by
  cases isOf with
  | text reads =>
    obtain ⟨tree, flags, groups⟩ := Pattern.of_ofSource_eq_ok reads
    rw [flags, groups]
    exact Pattern.whole_of_readPattern tree (Pattern.respelled_append_closing _)
  | @compiled pattern reads =>
    obtain ⟨tree, -, groups⟩ := Pattern.of_ofSource_eq_ok reads
    rw [groups]
    by_cases empty : pattern.source.isEmpty = true
    · -- The empty pattern is shown as a group without anything in it, which is read as the same expression.
      have text : pattern.text = "(?:)" := if_pos empty
      have spelled : codesOf pattern.flags ("(?:)" : Text) = "(?:)".toList.map Pattern.codeOf :=
        Pattern.codesOf_ascii _ (by decide)
      have nothing : codesOf pattern.flags pattern.source = [] := by
        have units : pattern.source.units = [] := List.isEmpty_iff.mp empty
        simp [codesOf, Text.codes, units]
      have root : pattern.root = .empty := by
        rw [nothing] at tree
        exact (Except.ok.inj tree).symm
      have group : readPattern (.of data pattern.flags (codesOf pattern.flags ("(?:)" : Text)))
          (codesOf pattern.flags ("(?:)" : Text)) = .ok pattern.root := by
        rw [spelled, root]
        cases codePoints : pattern.flags.codePoints <;> simp only [Pattern.Mode.of, codePoints] <;> rfl
      have whole := Pattern.whole_of_readPattern group (Pattern.respelled_append_closing _)
      rw [spelled] at whole
      rw [nothing, source, text]
      exact whole
    · have written : pattern.text = .ofCodes (Pattern.escapeSource false false pattern.source.codes) := if_neg empty
      refine Pattern.whole_of_readPattern tree ?_
      rw [source, written, Pattern.codesOf_eq,
        Pattern.codesOf_ofCodes _ (Pattern.areCodes_escapeSource pattern.source.areCodes_codes _ _)]
      exact Pattern.respelled_escapeSource pattern.flags _ pattern.source.codes_lt false

end TokenGrammar.PatternSource
