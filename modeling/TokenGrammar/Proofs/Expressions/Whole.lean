import TokenGrammar.Proofs.Expressions.Written
import TokenGrammar.Proofs.Subsumption
import TokenGrammar.Proofs.Undivided

namespace TokenGrammar

namespace Pattern

variable {pattern expression : Pattern} {subject : Subject} {root : Node} {progress reached : Progress} {content : Text}
  {place : Nat}

/-- A pattern matches a whole text when some way through its expression leads from the start of the text to its end. -/
def MatchesWhole (pattern : Pattern) (content : Text) : Prop :=
  ∃ reached ∈ pattern.root.ways (pattern.subjectOf content) (pattern.start 0),
    reached.place = (codesOf pattern.flags content).length

/-- A pattern matches whole lines of a text when some way through its expression leads from the start of the text, or of
a line where lines count, to the end of the text or of a line. -/
def MatchesLines (pattern : Pattern) (content : Text) : Prop :=
  ∃ place ≤ (codesOf pattern.flags content).length, (pattern.subjectOf content).atLineStart place = true ∧
    ∃ reached ∈ pattern.root.ways (pattern.subjectOf content) (pattern.start place),
      (pattern.subjectOf content).atLineEnd reached.place = true

/-- Whether a text has several lines under a pattern: lines count, and one of them ends in the text. -/
def SeesLines (pattern : Pattern) (content : Text) : Prop :=
  pattern.flags.multiline = true ∧ ∃ code ∈ codesOf pattern.flags content, isLineEnd code = true

instance (pattern : Pattern) (content : Text) : Decidable (pattern.MatchesWhole content) :=
  inferInstanceAs (Decidable (∃ reached ∈ _, _))

instance (pattern : Pattern) (content : Text) : Decidable (pattern.SeesLines content) :=
  inferInstanceAs (Decidable (_ ∧ ∃ code ∈ _, _))

theorem isSome_matchAt?_iff : (pattern.matchAt? subject place).isSome = true ↔
    ∃ reached, reached ∈ pattern.root.ways subject (pattern.start place) := by
  rw [matchAt?_eq_head?]
  cases pattern.root.ways subject (pattern.start place) <;> simp

/-- A pattern occurs in a text when some way leads on from one of the places in it. -/
theorem occursIn_iff : pattern.occursIn content = true ↔
    ∃ place ≤ (codesOf pattern.flags content).length, ∃ reached,
      reached ∈ pattern.root.ways (pattern.subjectOf content) (pattern.start place) := by
  simp only [occursIn, ← isSome_matchAt?_iff, size_subjectOf]
  constructor
  · intro occurs
    obtain ⟨found, finds⟩ := Option.isSome_iff_exists.mp occurs
    obtain ⟨reached, matched, -⟩ := exists_matchAt?_of_searchFrom? finds
    have bounds := searchFrom?_bounds finds
    exact ⟨found.1, by omega, by rw [matched]; rfl⟩
  · rintro ⟨place, inside, matched⟩
    by_contra fails
    have none := matchAt?_eq_none_of_searchFrom?_eq_none (Option.not_isSome_iff_eq_none.mp fails) (Nat.zero_le place)
      (by omega)
    rw [none] at matched
    cases matched

theorem mem_ways_between (forward : subject.backward = false) : reached ∈ root.between.ways subject progress ↔
    subject.atLineStart progress.place = true ∧ reached ∈ root.ways subject progress ∧
      subject.atLineEnd reached.place = true := by
  have ends (way : Progress) : (reached ∈ if subject.atLineEnd way.place then [way] else []) ↔
      way = reached ∧ subject.atLineEnd reached.place = true := by
    split
    case isTrue atEnd =>
      rw [List.mem_singleton]
      exact ⟨fun same => ⟨same.symm, same ▸ atEnd⟩, fun same => same.1.symm⟩
    case isFalse inside =>
      refine ⟨fun member => absurd member (by simp), fun ⟨same, atEnd⟩ => absurd ?_ inside⟩
      rw [same, atEnd]
  simp only [Node.between, Node.ways, forward, Bool.false_eq_true, if_false, List.mem_flatMap, ends]
  cases subject.atLineStart progress.place <;> simp

/-- Between the ends of a text, a pattern occurs where its expression matches whole lines. -/
theorem occursIn_between_iff {source : Text} :
    occursIn ⟨source, expression.flags, expression.root.between, expression.groups⟩ content = true ↔
      expression.MatchesLines content := by
  rw [occursIn_iff, MatchesLines]
  refine exists_congr fun place => and_congr_right fun _ => ?_
  rw [exists_congr fun reached => mem_ways_between rfl]
  exact ⟨fun ⟨reached, starts, way, ends⟩ => ⟨starts, reached, way, ends⟩,
    fun ⟨starts, reached, way, ends⟩ => ⟨reached, starts, way, ends⟩⟩

theorem atLineStart_zero : subject.atLineStart 0 = true := by
  simp [Subject.atLineStart]

theorem atLineEnd_size : subject.atLineEnd subject.codes.size = true := by
  simp [Subject.atLineEnd]

theorem MatchesWhole.matchesLines (whole : pattern.MatchesWhole content) : pattern.MatchesLines content := by
  obtain ⟨reached, way, ends⟩ := whole
  refine ⟨0, Nat.zero_le _, atLineStart_zero, reached, way, ?_⟩
  rw [ends, ← size_subjectOf]
  exact atLineEnd_size

/-- No code of a text of one line ends a line where lines count. -/
theorem isLineEnd_of_single (single : ¬pattern.SeesLines content) {code : Nat}
    (isThere : (pattern.subjectOf content).codes[place]? = some code) :
    (pattern.subjectOf content).flags.multiline = true → isLineEnd code = false := by
  intro lines
  have isThere' : (codesOf pattern.flags content)[place]? = some code := by
    rw [← isThere, subjectOf, List.getElem?_toArray]
  by_contra ends
  exact single ⟨lines, code, List.mem_of_getElem? isThere', Bool.eq_true_of_not_eq_false ends⟩

/-- Where a text has one line, only its start is the start of a line. -/
theorem place_eq_zero_of_atLineStart (single : ¬pattern.SeesLines content)
    (starts : (pattern.subjectOf content).atLineStart place = true) : place = 0 := by
  by_contra inside
  simp only [Subject.atLineStart, inside, decide_false, Bool.false_or, Bool.and_eq_true] at starts
  obtain ⟨lines, ends⟩ := starts
  cases isThere : (pattern.subjectOf content).codes[place - 1]? with
  | none =>
    rw [isThere] at ends
    cases ends
  | some code =>
    rw [isThere] at ends
    exact Bool.false_ne_true ((isLineEnd_of_single single isThere lines).symm.trans ends)

/-- Where a text has one line, only its end is the end of a line. -/
theorem size_le_of_atLineEnd (single : ¬pattern.SeesLines content)
    (ends : (pattern.subjectOf content).atLineEnd place = true) : (pattern.subjectOf content).codes.size ≤ place := by
  rw [Subject.atLineEnd] at ends
  cases isThere : (pattern.subjectOf content).codes[place]? with
  | none => exact Array.getElem?_eq_none_iff.mp isThere
  | some code =>
    rw [isThere, Bool.and_eq_true] at ends
    exact absurd ((isLineEnd_of_single single isThere ends.1).symm.trans ends.2) Bool.false_ne_true

theorem MatchesLines.matchesWhole (lines : pattern.MatchesLines content) (single : ¬pattern.SeesLines content) :
    pattern.MatchesWhole content := by
  obtain ⟨place, inside, starts, reached, way, ends⟩ := lines
  obtain rfl := place_eq_zero_of_atLineStart single starts
  have within := (Node.ways_onward rfl way).2 (Nat.zero_le _)
  exact ⟨reached, way, (Nat.le_antisymm within (size_le_of_atLineEnd single ends)).trans (pattern.size_subjectOf content)⟩

/-- Whole lines are whole texts where a text has one line. -/
theorem matchesLines_iff_matchesWhole (single : ¬pattern.SeesLines content) :
    pattern.MatchesLines content ↔ pattern.MatchesWhole content :=
  ⟨fun lines => lines.matchesWhole single, MatchesWhole.matchesLines⟩

variable {searches : Pattern → Nat → Text → Bool × Nat}

/-- A test of a pattern that remembers a place from one test to the next. One that is global or sticky begins its search
there, in whatever way it does so; any other one tests the text alone and leaves the place as it is. -/
def testFrom (searches : Pattern → Nat → Text → Bool × Nat) (pattern : Pattern) (place : Nat) (content : Text) :
    Bool × Nat :=
  if pattern.flags.global || pattern.flags.sticky then searches pattern place content
  else (pattern.occursIn content, place)

/-- Tests of one pattern, one after the other. -/
def testAll (searches : Pattern → Nat → Text → Bool × Nat) (pattern : Pattern) (place : Nat) :
    List Text → List Bool × Nat
  | [] => ([], place)
  | content :: rest =>
    let first := pattern.testFrom searches place content
    let others := pattern.testAll searches first.2 rest
    (first.1 :: others.1, others.2)

/-- A pattern that does not steer its search answers the same whatever was tested before. -/
theorem testAll_eq (steady : pattern.flags.forTest = pattern.flags) (contents : List Text) :
    pattern.testAll searches place contents = (contents.map pattern.occursIn, place) := by
  have global : pattern.flags.global = false := by rw [← steady]; rfl
  have sticky : pattern.flags.sticky = false := by rw [← steady]; rfl
  induction contents with
  | nil => rfl
  | cons content rest ih => simp [testAll, testFrom, global, sticky, ih]

end Pattern

theorem Pattern.isEmpty_text (pattern : Pattern) : pattern.text.isEmpty = false := by
  by_cases empty : pattern.source.isEmpty = true
  · have text : pattern.text = "(?:)" := if_pos empty
    rw [text]
    decide
  · have text : pattern.text = .ofCodes (Pattern.escapeSource false false pattern.source.codes) := if_neg empty
    rw [text]
    refine Text.isEmpty_ofCodes fun nothing => ?_
    cases codes : pattern.source.codes with
    | nil =>
      have same := pattern.source.ofCodes_codes
      rw [codes] at same
      rw [← same] at empty
      exact empty rfl
    | cons code rest =>
      rw [codes, Pattern.escapeSource] at nothing
      exact Pattern.writtenAs_ne_nil (List.append_eq_nil_iff.mp nothing).1

namespace PatternSource

/-- Only the empty text has no text. -/
theorem isEmpty_source_iff {source : PatternSource} : source.source.isEmpty = true ↔ source = .text ⟨[]⟩ := by
  cases source with
  | text content =>
    refine ⟨fun empty => ?_, fun same => PatternSource.text.inj same ▸ rfl⟩
    exact congrArg (PatternSource.text ∘ Text.mk) (List.isEmpty_iff.mp empty)
  | compiled pattern =>
    exact ⟨fun empty => absurd (pattern.isEmpty_text.symm.trans empty) Bool.false_ne_true, fun same => by cases same⟩

theorem IsOf.forTest_flags {data : Pattern.CharacterData} {source : PatternSource} {expression : Pattern}
    (isOf : source.IsOf data expression) :
    expression.flags.forTest = expression.flags := by
  cases isOf with
  | text reads =>
    rw [(Pattern.of_ofSource_eq_ok reads).2.1]
    rfl
  | compiled => rfl

end PatternSource

namespace Rule

variable {data : Pattern.CharacterData} {world : World} {rule : Rule} {source : PatternSource} {expression : Pattern}
  {situation : Situation}

/-- A rule tests whole values under an expression: it matches where the expression matches whole lines of the next visible
token's value, which is the whole value unless several lines are seen in it, and fails elsewhere; and its tests of several
values, in whatever order and however often, answer for each value alone and remember nothing. -/
structure TestsWhole (world : World) (rule : Rule) (expression : Pattern) : Prop where
  matches_lines : ∀ situation, rule.Matches world situation ↔
    ∃ token, situation.stream.current? = some token ∧ expression.MatchesLines token.value
  matches_whole : ∀ situation token, situation.stream.current? = some token → ¬expression.SeesLines token.value →
    (rule.Matches world situation ↔ expression.MatchesWhole token.value)
  fails_iff : ∀ situation, rule.Fails world situation ↔ ¬rule.Matches world situation
  steady : ∃ tested, rule = .matcher (.pattern tested) false ∧ ∀ searches place contents, ∃ answers,
    tested.testAll searches place contents = (answers, place) ∧
      List.Forall₂ (fun content answer => answer = true ↔ expression.MatchesLines content) contents answers

theorem ofPattern_of_isOf (isOf : source.IsOf data expression) (written : source ≠ .text ⟨[]⟩) :
    ofPattern data source = .ok (.matcher (.pattern ⟨"^(?:" ++ source.source ++ ")$", expression.flags,
      expression.root.between, expression.groups⟩) false) := by
  rw [ofPattern, if_neg (mt PatternSource.isEmpty_source_iff.mp written), isOf.whole_eq]

theorem testsWhole_of_ofPattern (isOf : source.IsOf data expression) (world : World)
    (makes : ofPattern data source = .ok rule) : rule.TestsWhole world expression := by
  have written : source ≠ .text ⟨[]⟩ := by
    rintro rfl
    cases makes
  obtain rfl := Except.ok.inj (makes.symm.trans (ofPattern_of_isOf isOf written))
  have lines (situation : Situation) := @matches_matcher_iff world situation
    (.pattern ⟨"^(?:" ++ source.source ++ ")$", expression.flags, expression.root.between, expression.groups⟩) false
  simp only [TokenTest.accepts, Bool.bne_false, Pattern.occursIn_between_iff] at lines
  refine ⟨lines, fun situation token next single => ?_, fun situation => ?_, _, rfl, fun searches place contents => ?_⟩
  · rw [lines, ← Pattern.matchesLines_iff_matchesWhole single]
    constructor
    · intro holds
      obtain ⟨token', next', holds⟩ := holds
      obtain rfl := Option.some.inj (next.symm.trans next')
      exact holds
    · exact fun holds => ⟨token, next, holds⟩
  · obtain ⟨_, _, yields⟩ := exists_matcher_yields world (.pattern ⟨"^(?:" ++ source.source ++ ")$", expression.flags,
      expression.root.between, expression.groups⟩) false situation
    exact yields.fails_iff
  · refine ⟨_, Pattern.testAll_eq ?_ contents, ?_⟩
    · exact isOf.forTest_flags
    · rw [List.forall₂_map_right_iff, List.forall₂_same]
      exact fun content _ => Pattern.occursIn_between_iff

/-- A rule can be made of every pattern but the empty text, and it tests whole values under the expression that the
pattern is by itself. -/
theorem pattern_tests_whole (isOf : source.IsOf data expression) (world : World) :
    ((∃ rule, ofPattern data source = .ok rule) ↔ source ≠ .text ⟨[]⟩) ∧
      ∀ rule, ofPattern data source = .ok rule → rule.TestsWhole world expression := by
  refine ⟨⟨?_, fun written => ⟨_, ofPattern_of_isOf isOf written⟩⟩, fun rule => testsWhole_of_ofPattern isOf world⟩
  rintro ⟨rule, makes⟩ rfl
  cases makes

end Rule

namespace Brackets

/-- Round brackets that no dash precedes, or dashes, also at the ends of lines, and where several of them are searched
for. -/
def bracketOrDash : Pattern where
  source := "(?<!-)(?<round>[()])|-"
  flags := { global := true, multiline := true }
  root := .choice (.sequence (.look true true (.code 45))
    (.capturing 1 (.class (.items [.range 40 40, .range 41 41])))) (.code 45)
  groups := 1

def twoLines : Token :=
  .simple ⟨.predicate "anything" fun _ => true, ("a\nb" : String), .unpositioned, .unpositioned, []⟩

def letter : Pattern := { source := "a", flags := { multiline := true }, root := .code 97, groups := 0 }

theorem bracketOrDash_isOf : (PatternSource.compiled bracketOrDash).IsOf asciiOnly
    { bracketOrDash with flags := bracketOrDash.flags.forTest } := by
  have codes : Pattern.codesOf bracketOrDash.flags bracketOrDash.source =
      "(?<!-)(?<round>[()])|-".toList.map Pattern.codeOf := by decide
  have groups : Pattern.groupsIn asciiOnly false 0 ("(?<!-)(?<round>[()])|-".toList.map Pattern.codeOf) =
      [some ("round".toList.map Pattern.codeOf)] := by decide +kernel
  have mode : Pattern.Mode.of asciiOnly bracketOrDash.flags (Pattern.codesOf bracketOrDash.flags bracketOrDash.source) =
      ⟨asciiOnly, false, false, [some ("round".toList.map Pattern.codeOf)]⟩ := by
    rw [Pattern.Mode.of, codes]
    exact congrArg (Pattern.Mode.mk asciiOnly false false) groups
  refine .compiled ?_
  rw [Pattern.ofSource, mode, codes]
  rfl

theorem letter_isOf : (PatternSource.compiled letter).IsOf asciiOnly letter := .compiled rfl

end Brackets

namespace Rule

open Brackets

/-- A rule for brackets or dashes takes a bracket, and fails at a letter. -/
theorem ofPattern_matches_bracket_fails_letter : (PatternSource.compiled bracketOrDash).IsOf asciiOnly
      { bracketOrDash with flags := bracketOrDash.flags.forTest } ∧
    ∃ rule, ofPattern asciiOnly (.compiled bracketOrDash) = .ok rule ∧
      rule.Matches world ⟨.ofTokens [opening], {}⟩ ∧ rule.Fails world ⟨.ofTokens [word 97], {}⟩ := by
  obtain ⟨makes, tests⟩ := pattern_tests_whole bracketOrDash_isOf world
  obtain ⟨rule, made⟩ := makes.mpr (by simp)
  have taken := (tests rule made).matches_whole ⟨.ofTokens [opening], {}⟩ opening rfl (by decide)
  have passed := (tests rule made).matches_whole ⟨.ofTokens [word 97], {}⟩ (word 97) rfl (by decide)
  refine ⟨bracketOrDash_isOf, rule, made, taken.mpr (by decide), ((tests rule made).fails_iff _).mpr ?_⟩
  rw [passed]
  decide

/-- A text that closes the group around it makes a rule, although it is no expression by itself. -/
theorem exists_ofPattern_of_no_expression : ∃ rule, ofPattern asciiOnly (.text "a)|(?:b") = .ok rule ∧
    ∀ expression, ¬(PatternSource.text "a)|(?:b").IsOf asciiOnly expression := by
  have codes : Pattern.codesOf {} ("a)|(?:b" : Text) = [97, 41, 124, 40, 63, 58, 98] := rfl
  have whole : ∃ tested, Pattern.whole asciiOnly "a)|(?:b" {} = .ok tested := by
    have wrapped : Pattern.codesOf ({} : Pattern.Flags).forTest ("^(?:" ++ "a)|(?:b" ++ ")$") =
        Pattern.opening ++ ([97, 41, 124, 40, 63, 58, 98] ++ Pattern.closing) := by
      rw [Pattern.codesOf_between]
      exact congrArg (fun codes => Pattern.opening ++ (codes ++ Pattern.closing)) codes
    rw [Pattern.whole, Pattern.ofSource, wrapped]
    exact ⟨_, rfl⟩
  obtain ⟨tested, whole⟩ := whole
  refine ⟨.matcher (.pattern tested) false, ?_, fun expression isOf => ?_⟩
  · rw [ofPattern, if_neg (by decide), PatternSource.source, PatternSource.flags, whole]
  · cases isOf with
    | text reads =>
      obtain ⟨tree, -⟩ := Pattern.of_ofSource_eq_ok reads
      rw [codes] at tree
      cases tree

/-- Where lines count, a rule takes a token although its expression does not match the whole value; and a rule is made of a
text that is no expression. -/
theorem not_pattern_tests_whole : (¬ ∀ (data : Pattern.CharacterData) (source : PatternSource) (expression : Pattern)
      (rule : Rule) (world : World) (situation : Situation) (token : Token), source.IsOf data expression →
      ofPattern data source = .ok rule → situation.stream.current? = some token →
      (rule.Matches world situation ↔ expression.MatchesWhole token.value)) ∧
    ∃ rule, ofPattern asciiOnly (.text "a)|(?:b") = .ok rule ∧
      ∀ expression, ¬(PatternSource.text "a)|(?:b").IsOf asciiOnly expression := by
  refine ⟨fun tests => ?_, exists_ofPattern_of_no_expression⟩
  have made := ofPattern_of_isOf letter_isOf (by simp)
  have lines := (testsWhole_of_ofPattern letter_isOf world made).matches_lines ⟨.ofTokens [twoLines], {}⟩
  have whole := tests _ _ _ _ world ⟨.ofTokens [twoLines], {}⟩ twoLines letter_isOf made rfl
  have line : letter.MatchesLines twoLines.value :=
    ⟨0, Nat.zero_le _, rfl, ⟨1, #[]⟩, List.mem_singleton.mpr rfl, rfl⟩
  have matched := whole.mp (lines.mpr ⟨twoLines, rfl, line⟩)
  exact absurd matched (by decide)

end Rule

end TokenGrammar
