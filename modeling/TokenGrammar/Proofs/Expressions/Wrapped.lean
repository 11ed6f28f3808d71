import TokenGrammar.Proofs.Expressions.Terms

namespace TokenGrammar.Pattern

open Reading (finish finish_cons)

variable {codes codes' spelling : List Nat} {code : Nat} {flags : Flags} {data : CharacterData} {sets : Bool} {depth : Nat}

theorem groupsIn_escape : groupsIn data sets depth (codeOf '\\' :: code :: codes) = groupsIn data sets depth codes := by
  rw [groupsIn.eq_def]
  exact if_pos rfl

/-- How many classes are open behind a code. -/
def depthBehind (sets : Bool) (depth code : Nat) : Nat :=
  if 0 < depth then (if code = codeOf ']' then depth - 1 else if sets && code = codeOf '[' then depth + 1 else depth)
  else if code = codeOf '[' then 1 else 0

theorem groupsIn_cons (plain : code ≠ codeOf '\\') : groupsIn data sets depth (code :: codes) =
    (if depth = 0 ∧ code = codeOf '(' then groupAhead data codes else []) ++
      groupsIn data sets (depthBehind sets depth code) codes := by
  rw [groupsIn.eq_def]
  dsimp only
  rw [if_neg plain, depthBehind]
  by_cases inside : 0 < depth
  · rw [if_pos inside, if_pos inside, @if_neg (depth = 0 ∧ _) _ fun opens => Nat.ne_of_gt inside opens.1,
      List.nil_append]
  · obtain rfl : depth = 0 := Nat.eq_zero_of_not_pos inside
    rw [if_neg inside, if_neg inside]
    by_cases class' : code = codeOf '['
    · rw [if_pos class', if_pos class', if_neg fun opens => absurd (class'.symm.trans opens.2) (by decide),
        List.nil_append]
    · rw [if_neg class', if_neg class']
      simp only [true_and]

theorem groupsIn_plain (plain : code ∉ ['\\', '[', ']', '('].map codeOf) :
    groupsIn data sets depth (code :: codes) = groupsIn data sets depth codes := by
  simp only [List.map_cons, List.map_nil, List.mem_cons, List.not_mem_nil, or_false, not_or] at plain
  obtain ⟨noEscape, opensNoClass, closesNoClass, opensNoGroup⟩ := plain
  have depth_eq : depthBehind sets depth code = depth := by
    rw [depthBehind]
    simp only [closesNoClass, opensNoClass, decide_false, Bool.and_false, if_false, Bool.false_eq_true]
    split <;> omega
  rw [groupsIn_cons noEscape, if_neg fun opens => opensNoGroup opens.2, List.nil_append, depth_eq]

theorem Spells.groupsIn_self (spells : Spells code spelling) :
    groupsIn data sets depth (code :: codes) = groupsIn data sets depth codes := by
  refine groupsIn_plain ?_
  cases spells <;> decide

/-- The spelling of a code has no group. -/
theorem Spells.groupsIn_spelling (spells : Spells code spelling) :
    groupsIn data sets depth (codeOf '\\' :: (spelling ++ codes)) = groupsIn data sets depth codes := by
  have digits (last : Char) (plain : codeOf last ∉ ['\\', '[', ']', '('].map codeOf) :
      groupsIn data sets depth (['2', '0', '2', last].map codeOf ++ codes) = groupsIn data sets depth codes := by
    simp only [List.map_cons, List.map_nil, List.cons_append, List.nil_append]
    rw [groupsIn_plain (by decide), groupsIn_plain (by decide), groupsIn_plain (by decide), groupsIn_plain plain]
  cases spells with
  | slash | lineFeed | carriageReturn => exact groupsIn_escape
  | lineSeparator => exact groupsIn_escape.trans (digits '8' (by decide))
  | paragraphSeparator => exact groupsIn_escape.trans (digits '9' (by decide))

/-- The same group is ahead of codes and of their respelling. -/
theorem Respelled.groupAhead_eq (respelled : Respelled codes codes') : groupAhead data codes = groupAhead data codes' := by
  rw [groupAhead, groupAhead]
  obtain ⟨none, none'⟩ | ⟨rest, rest', ahead, ahead', again⟩ := respelled.skips (by decide : ¬IsInert (codeOf '?'))
  · rw [none, none']
  · rw [ahead, ahead']
    dsimp only
    obtain ⟨none, none'⟩ | ⟨inside, inside', ahead, ahead', further⟩ := again.skips (by decide : ¬IsInert (codeOf '<'))
    · rw [none, none']
    · rw [ahead, ahead']
      dsimp only
      rw [further.isSome_skip? (by decide), further.isSome_skip? (by decide)]
      have names := further.readGroupName? data
      have name : (Pattern.readGroupName? data inside).map Prod.fst =
          (Pattern.readGroupName? data inside').map Prod.fst := by
        generalize Pattern.readGroupName? data inside = read at names ⊢
        generalize Pattern.readGroupName? data inside' = read' at names ⊢
        cases names with
        | none => rfl
        | some agree => exact congrArg some agree.1
      rw [name]

/-- An expression and its respelling have the same groups. -/
theorem Respelled.groupsIn_eq (respelled : Respelled codes codes') (depth : Nat) :
    groupsIn data sets depth codes' = groupsIn data sets depth codes := by
  induction respelled generalizing depth with
  | done => rw [closing, groupsIn_plain (by decide), groupsIn_plain (by decide)]
  | same plain rest ih => rw [groupsIn_cons plain, groupsIn_cons plain, ih, rest.groupAhead_eq]
  | escaped rest ih => rw [groupsIn_escape, groupsIn_escape, ih]
  | spelled spells rest ih => rw [spells.groupsIn_spelling, spells.groupsIn_self, ih]
  | spelledEscape spells rest ih => rw [spells.groupsIn_spelling, groupsIn_escape, ih]
  | dangling =>
    rw [closing, groupsIn_escape, groupsIn_plain (by decide), groupsIn, groupsIn.eq_def]
    exact (if_pos rfl).symm

/-- What stands in front of an expression between the ends of a text. -/
def opening : List Nat := [codeOf '^', codeOf '(', codeOf '?', codeOf ':']

/-- An expression between the ends of a text. -/
def Node.between (root : Node) : Node := .sequence (.sequence .lineStart root) .lineEnd

theorem Respelled.groupsIn_opening (respelled : Respelled codes codes') :
    groupsIn data sets 0 (opening ++ codes') = groupsIn data sets 0 codes := by
  have group : groupsIn data sets 0 (codeOf '(' :: codeOf '?' :: codeOf ':' :: codes') =
      groupsIn data sets 0 (codeOf '?' :: codeOf ':' :: codes') := by
    rw [groupsIn_cons (by decide)]
    rfl
  rw [← respelled.groupsIn_eq 0]
  simp only [opening, List.cons_append, List.nil_append]
  rw [groupsIn_plain (by decide), group, groupsIn_plain (by decide), groupsIn_plain (by decide)]

theorem Node.namesApart_between (root : Node) (names : List (Option (List Nat))) :
    root.between.namesApart names = root.namesApart names := by
  simp [between, namesApart, groups, shareName]

/-- Where an expression can be read, its respelling between the ends of a text is read as that expression between them. -/
theorem Respelled.readPattern (respelled : Respelled codes codes') {mode : Mode} {root : Node}
    (reads : readPattern mode codes = .ok root) : Pattern.readPattern mode (opening ++ codes') = .ok root.between := by
  rw [Pattern.readPattern] at reads
  cases tree : finish mode (codes.length + 1) (⟨0, [], .start⟩, codes) with
  | error problem =>
    rw [tree] at reads
    cases reads
  | ok root' =>
  rw [tree] at reads
  obtain ⟨apart, rfl⟩ : root'.namesApart mode.groups = true ∧ root' = root := by
    by_cases apart : root'.namesApart mode.groups = true
    · have same : Except.ok root' = Except.ok root := (if_pos apart).symm.trans reads
      exact ⟨apart, Except.ok.inj same⟩
    · cases (if_neg apart).symm.trans reads
  let outside : Partial := Partial.start.append .lineStart
  obtain ⟨used, less, inside, closed, finished, ends⟩ :=
    @Reading.finish_follows _ _ mode ⟨0, [], .start⟩ _ root' [⟨.plain, outside, 0⟩] respelled tree
  have longer := respelled.length_le
  obtain ⟨left, enough⟩ : ∃ left, codes'.length + 5 = used + (left + 3) + 2 := ⟨codes'.length - used, by omega⟩
  have size : (opening ++ codes').length + 1 = codes'.length + 5 := by simp [opening]
  have whole := calc finish mode ((opening ++ codes').length + 1) (⟨0, [], .start⟩, opening ++ codes')
    _ = finish mode (used + (left + 3) + 2) (⟨0, [], .start⟩, opening ++ codes') := by
      rw [size, enough]
    _ = finish mode (used + (left + 3) + 1) (⟨0, [], outside⟩, [codeOf '(', codeOf '?', codeOf ':'] ++ codes') := by
      rw [opening, List.cons_append, finish_cons]
      rfl
    _ = finish mode (used + (left + 3)) (⟨0, [⟨.plain, outside, 0⟩], .start⟩, codes') := by
      rw [List.cons_append, finish_cons]
      rfl
    _ = finish mode (left + 3) (⟨inside.opened, [⟨.plain, outside, 0⟩], inside.read⟩, closing) := by
      refine (ends (left + 3)).trans ?_
      rw [Reading.within, closed]
      rfl
    _ = finish mode (left + 2) (⟨inside.opened, [], outside.append inside.read.finish⟩, [codeOf '$']) := by
      rw [closing, finish_cons]
      rfl
    _ = finish mode (left + 1) (⟨inside.opened, [], (outside.append root').append .lineEnd⟩, []) := by
      rw [finished, finish_cons]
      rfl
    _ = .ok root'.between := rfl
  rw [Pattern.readPattern, whole]
  exact if_pos ((root'.namesApart_between mode.groups).trans apart)

end TokenGrammar.Pattern
