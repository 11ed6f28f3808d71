import TokenGrammar.Proofs.Codes
import TokenGrammar.Proofs.Composed

namespace TokenGrammar

theorem Text.append_left_cancel {front first second : Text} (same : front ++ first = front ++ second) : first = second :=
  congrArg Text.mk (List.append_cancel_left (congrArg Text.units same))

theorem Text.append_right_cancel {first second back : Text} (same : first ++ back = second ++ back) : first = second :=
  congrArg Text.mk (List.append_cancel_right (congrArg Text.units same))

namespace Definition

variable {definition : Definition} {definitions : List Definition} {word : Text}

/-- The literal definitions are what the factories make of a character or of a string. -/
inductive IsMade (definition : Definition) : Prop
  | char {content : Text} (made : ofCharacter content = .ok definition)
  | string {content : Text} {ignoreCase : Bool} (made : ofString content ignoreCase = .ok definition)
  | escaped {content : Text} (made : ofEscaped content = .ok definition)

/-- A definition accepts no two words. -/
def AcceptsOne (definition : Definition) : Prop :=
  ∀ ⦃first second : Text⦄, definition.accepts first = true → definition.accepts second = true → first = second

/-- Whether a definition accepts a word in any letter case. -/
def ignoresCase : Definition → Bool
  | .string _ ignoreCase => ignoreCase
  | _ => false

/-- The factories give every literal definition a spelling, and never the empty one. -/
theorem IsMade.exists_literal? (made : definition.IsMade) :
    ∃ spelling, definition.literal? = some spelling ∧ spelling.isEmpty = false := by
  cases made with
  | @char content made =>
    unfold ofCharacter at made
    split at made <;> cases made
    next single =>
      refine ⟨_, rfl, ?_⟩
      rw [← content.ofCodes_codes]
      exact Text.isEmpty_ofCodes (List.ne_nil_of_length_pos (Nat.lt_of_lt_of_eq Nat.one_pos single.symm))
  | string made =>
    unfold ofString at made
    split at made
    · cases made
    next named =>
      cases made
      exact ⟨_, rfl, Bool.eq_false_iff.mpr named⟩
  | escaped made =>
    unfold ofEscaped at made
    split at made <;> cases made
    exact ⟨_, rfl, rfl⟩

theorem exists_literal?_of_made (made : ∀ definition ∈ definitions, definition.IsMade) :
    ∀ definition ∈ definitions, ∃ spelling, definition.literal? = some spelling :=
  fun definition member => (made definition member).exists_literal?.imp fun _ named => named.1

/-- A literal definition accepts its own spelling. -/
theorem accepts_literal {spelling : Text} (literal : definition.literal? = some spelling) :
    definition.accepts spelling = true := by
  cases definition with
  | char | escaped =>
    cases literal
    exact beq_self_eq_true _
  | string expected ignoreCase =>
    cases literal
    simp [accepts, Text.agrees]
  | word | exactly | predicate => cases literal

/-- Only a definition that ignores case can accept more than its spelling. -/
theorem acceptsOne_of_ignoresCase_eq_false {spelling : Text} (literal : definition.literal? = some spelling)
    (minds : definition.ignoresCase = false) : definition.AcceptsOne := by
  intro first second acceptsFirst acceptsSecond
  cases definition with
  | char | escaped => exact (eq_of_beq acceptsFirst).trans (eq_of_beq acceptsSecond).symm
  | string expected ignoreCase =>
    cases show ignoreCase = false from minds
    simp only [accepts, Text.agrees] at acceptsFirst acceptsSecond
    exact (eq_of_beq acceptsFirst).trans (eq_of_beq acceptsSecond).symm
  | word | exactly | predicate => cases literal

/-- A word is made of words that the definitions accept, one for each and in their order. -/
inductive Concatenates : List Definition → Text → Prop
  | nil : Concatenates [] ⟨[]⟩
  | cons {definition : Definition} {rest : List Definition} {first behind : Text}
      (accepts : definition.accepts first = true) (others : Concatenates rest behind) :
      Concatenates (definition :: rest) (first ++ behind)

/-- The spellings of literal definitions one after the other. -/
def spelling (definitions : List Definition) : Text :=
  definitions.foldr (fun definition rest => definition.literal?.getD ⟨[]⟩ ++ rest) ⟨[]⟩

theorem spelling_cons {definition : Definition} {spelled : Text} (literal : definition.literal? = some spelled)
    (rest : List Definition) : spelling (definition :: rest) = spelled ++ spelling rest := by
  rw [spelling, List.foldr_cons, literal]
  rfl

theorem joinLiterals_eq (literals : ∀ definition ∈ definitions, ∃ spelling, definition.literal? = some spelling) :
    joinLiterals definitions = .ok (spelling definitions) := by
  induction definitions with
  | nil => rfl
  | cons definition rest ih =>
    obtain ⟨⟨spelled, literal⟩, others⟩ := List.forall_mem_cons.mp literals
    simp only [joinLiterals, literal, ih others]
    simp [spelling, literal, bind, Except.bind, pure, Except.pure]

/-- The spellings of the definitions make up a word of them. -/
theorem concatenates_spelling (literals : ∀ definition ∈ definitions, ∃ spelling, definition.literal? = some spelling) :
    Concatenates definitions (spelling definitions) := by
  induction definitions with
  | nil => exact .nil
  | cons definition rest ih =>
    obtain ⟨⟨spelled, literal⟩, others⟩ := List.forall_mem_cons.mp literals
    rw [spelling_cons literal]
    exact .cons (accepts_literal literal) (ih others)

/-- Definitions that accept one word each have one word one after the other. -/
theorem Concatenates.unique {first second : Text} (one : ∀ definition ∈ definitions, definition.AcceptsOne)
    (begins : Concatenates definitions first) (other : Concatenates definitions second) : first = second := by
  induction begins generalizing second with
  | nil =>
    cases other
    rfl
  | cons accepts _ ih =>
    obtain ⟨here, others⟩ := List.forall_mem_cons.mp one
    cases other with
    | cons acceptsOther rest => rw [here accepts acceptsOther, ih others rest]

/-- Definitions that all have a spelling and only one word one after the other accept one word each: any word of one of
them can stand between the spellings of the others. -/
theorem acceptsOne_of_unique (literals : ∀ definition ∈ definitions, ∃ spelling, definition.literal? = some spelling)
    (unique : ∀ word, Concatenates definitions word → word = spelling definitions) :
    ∀ definition ∈ definitions, definition.AcceptsOne := by
  induction definitions with
  | nil => exact List.forall_mem_nil _
  | cons definition rest ih =>
    obtain ⟨⟨spelled, literal⟩, others⟩ := List.forall_mem_cons.mp literals
    rw [spelling_cons literal] at unique
    have here (word : Text) (accepts : definition.accepts word = true) : word = spelled :=
      Text.append_right_cancel (unique _ (.cons accepts (concatenates_spelling others)))
    have behind (word : Text) (concatenates : Concatenates rest word) : word = spelling rest :=
      Text.append_left_cancel (unique _ (.cons (accepts_literal literal) concatenates))
    refine List.forall_mem_cons.mpr ⟨fun first second acceptsFirst acceptsSecond => ?_, ih others behind⟩
    rw [here first acceptsFirst, here second acceptsSecond]

theorem combine_eq (several : 2 ≤ definitions.length) (made : ∀ definition ∈ definitions, definition.IsMade) :
    combine definitions = .ok (.string (spelling definitions) false) := by
  have literals := exists_literal?_of_made made
  match definitions, several with
  | first :: second :: rest, _ =>
    obtain ⟨spelled, literal, named⟩ := (made first List.mem_cons_self).exists_literal?
    have nonempty : (spelling (first :: second :: rest)).isEmpty = false := by
      rw [spelling_cons literal]
      simpa [Text.isEmpty] using fun empty => absurd empty (by simpa [Text.isEmpty] using named)
    simp [combine, joinLiterals_eq literals, bind, Except.bind, ofString, nonempty]

theorem accepts_string_iff {expected : Text} :
    (Definition.string expected false).accepts word = true ↔ word = expected := by
  simp [accepts, Text.agrees]

/-- A combination accepts what its definitions accept one after the other exactly when each of them accepts one word. -/
theorem accepts_spelling_iff_concatenates
    (literals : ∀ definition ∈ definitions, ∃ spelling, definition.literal? = some spelling) :
    (∀ word, (Definition.string (spelling definitions) false).accepts word = true ↔ Concatenates definitions word) ↔
      ∀ definition ∈ definitions, definition.AcceptsOne := by
  constructor
  · intro agrees
    exact acceptsOne_of_unique literals fun word concatenates => accepts_string_iff.mp ((agrees word).mpr concatenates)
  · intro one word
    have spelled := concatenates_spelling literals
    refine accepts_string_iff.trans ⟨?_, fun concatenates => concatenates.unique one spelled⟩
    rintro rfl
    exact spelled

end Definition

namespace Token

variable {tokens : List Token} {definition : Definition}

/-- A group is made when it has members enough and the given definition accepts its value. -/
theorem ofGroup_eq_ok_iff (several : 2 ≤ tokens.length) :
    (∃ group, ofGroup tokens (some definition) = .ok group) ↔ definition.accepts (joinedValue tokens) = true := by
  simp only [ofGroup, check_bind_eq_ok_iff, checkAccepted, decide_eq_true_eq, Option.getD_some]
  constructor
  · rintro ⟨group, -, accepted, -⟩
    exact accepted
  · intro accepted
    exact ⟨_, several, accepted, rfl⟩

/-- The values of composed tokens make up a word of their definitions. -/
theorem concatenates_joinedValue (composed : ∀ token ∈ tokens, token.Composed) :
    Definition.Concatenates (tokens.map Token.definition) (joinedValue tokens) := by
  induction tokens with
  | nil => exact .nil
  | cons token rest ih =>
    obtain ⟨here, others⟩ := List.forall_mem_cons.mp composed
    rw [joinedValue_cons]
    exact .cons here.sound.here.accepted (ih others)

end Token

/-- Literal definitions, two or more, have a combination. It accepts their spellings one after the other and no other
word, which is a word made of words of them, and every word made of words of them if and only if each of them accepts
one word only, as it does when it does not ignore case. Tokens of these definitions form a group of the combination
exactly when their values are these spellings one after the other, and always when each definition accepts one word. -/
theorem Definition.combine_concatenates {definitions : List Definition} (several : 2 ≤ definitions.length)
    (made : ∀ definition ∈ definitions, definition.IsMade) :
    ∃ combined, combine definitions = .ok combined ∧
      (∀ word, combined.accepts word = true ↔ word = spelling definitions) ∧
      (∀ word, combined.accepts word = true → Concatenates definitions word) ∧
      ((∀ word, combined.accepts word = true ↔ Concatenates definitions word) ↔
        ∀ definition ∈ definitions, definition.AcceptsOne) ∧
      (∀ definition ∈ definitions, definition.ignoresCase = false → definition.AcceptsOne) ∧
      ∀ tokens : List Token, tokens.map Token.definition = definitions → (∀ token ∈ tokens, token.Composed) →
        ((∃ group, Token.ofGroup tokens (some combined) = .ok group) ↔
          Token.joinedValue tokens = spelling definitions) ∧
        ((∀ definition ∈ definitions, definition.AcceptsOne) →
          ∃ group, Token.ofGroup tokens (some combined) = .ok group) := by
  have literals := exists_literal?_of_made made
  have agrees := accepts_spelling_iff_concatenates literals
  refine ⟨.string (spelling definitions) false, combine_eq several made, fun word => accepts_string_iff, ?_, agrees,
    ?_, ?_⟩
  · intro word accepted
    rw [accepts_string_iff.mp accepted]
    exact concatenates_spelling literals
  · intro definition member minds
    obtain ⟨spelled, literal⟩ := literals definition member
    exact acceptsOne_of_ignoresCase_eq_false literal minds
  · rintro tokens rfl composed
    have members : 2 ≤ tokens.length := by rwa [List.length_map] at several
    refine ⟨(Token.ofGroup_eq_ok_iff members).trans accepts_string_iff, fun one => ?_⟩
    exact (Token.ofGroup_eq_ok_iff members).mpr ((agrees.mpr one _).mpr (Token.concatenates_joinedValue composed))

/-- A string, an escape and a character that are told from other letter cases combine to what they accept in turn. -/
theorem Definition.combine_with_escape_accepts_concatenation :
    ∃ combined, combine [.string "ab" false, .escaped "n", .char "c"] = .ok combined ∧
      ∀ word, combined.accepts word = true ↔ Concatenates [.string "ab" false, .escaped "n", .char "c"] word := by
  have made : ∀ definition ∈ [Definition.string "ab" false, .escaped "n", .char "c"], definition.IsMade := by
    simp only [List.forall_mem_cons]
    exact ⟨.string (show ofString "ab" false = _ from rfl), .escaped (show ofEscaped "n" = _ from rfl),
      .char (show ofCharacter "c" = _ from rfl), List.forall_mem_nil _⟩
  obtain ⟨combined, combines, -, -, agrees, minds, -⟩ := combine_concatenates (by decide) made
  refine ⟨combined, combines, agrees.mpr fun definition member => minds definition member ?_⟩
  revert definition
  decide

/-- A string in any letter case and a character combine to less than they accept in turn, and two tokens of theirs form
no group of the combination. -/
theorem Definition.not_combine_concatenates :
    (¬ ∀ definitions : List Definition, 2 ≤ definitions.length → (∀ definition ∈ definitions, definition.IsMade) →
      ∃ combined, combine definitions = .ok combined ∧
        ∀ word, combined.accepts word = true ↔ Concatenates definitions word) ∧
    ¬ ∀ tokens : List Token, 2 ≤ tokens.length → (∀ token ∈ tokens, token.Composed) →
      (∀ token ∈ tokens, token.definition.IsMade) →
      ∃ combined group, combine (tokens.map Token.definition) = .ok combined ∧
        Token.ofGroup tokens (some combined) = .ok group := by
  let loose : Definition := .string "ab" true
  have made : ∀ definition ∈ [loose, .char "c"], definition.IsMade := by
    simp only [List.forall_mem_cons]
    exact ⟨.string (show ofString "ab" true = _ from rfl), .char (show ofCharacter "c" = _ from rfl),
      List.forall_mem_nil _⟩
  have combines : combine [loose, .char "c"] = .ok (.string "abc" false) := rfl
  have accepts : loose.accepts "AB" = true := by decide +kernel
  have refused : (Definition.string "abc" false).accepts "ABc" = false := by decide +kernel
  constructor
  · intro claim
    obtain ⟨combined, given, agrees⟩ := claim [loose, .char "c"] (by decide) made
    cases combines.symm.trans given
    have joins : Text.ofString "ABc" = Text.ofString "AB" ++ (Text.ofString "c" ++ ⟨[]⟩) := by decide +kernel
    have word : Concatenates [loose, .char "c"] "ABc" := by
      rw [joins]
      exact .cons accepts (.cons (accepts_literal rfl) .nil)
    exact Bool.false_ne_true (refused.symm.trans ((agrees _).mpr word))
  · intro claim
    let first : Token := .simple ⟨loose, "AB", .unpositioned, .unpositioned, []⟩
    let second : Token := .simple ⟨.char "c", "c", .unpositioned, .unpositioned, []⟩
    have composed : ∀ token ∈ [first, second], token.Composed := by
      have firstMade : Token.ofWord loose "AB" .unpositioned = .ok first := by
        refine check_bind_eq_ok_iff.mpr ⟨accepts, ?_⟩
        rfl
      have secondMade : Token.ofWord (.char "c") "c" .unpositioned = .ok second := rfl
      exact List.forall_mem_cons.mpr ⟨.word firstMade, List.forall_mem_singleton.mpr (.word secondMade)⟩
    obtain ⟨combined, group, given, grouped⟩ := claim [first, second] (by decide) composed (by
      simpa [first, second, Token.definition] using made)
    cases combines.symm.trans given
    have accepted := (Token.ofGroup_eq_ok_iff (by decide)).mp ⟨group, grouped⟩
    exact Bool.false_ne_true (refused.symm.trans accepted)

end TokenGrammar
