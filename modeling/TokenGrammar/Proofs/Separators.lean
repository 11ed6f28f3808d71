/-
This file cuts texts between codes, which are characters under some flags and units under others.
-/

import TokenGrammar.Action
import TokenGrammar.Proofs.Expressions.Ways
import TokenGrammar.Proofs.Lexing

namespace TokenGrammar

namespace Pattern

/-- A place among codes is inside of a pair when the two units of the pair are on both sides of it. -/
def InsidePair (codes : List Nat) (place : Nat) : Prop :=
  ∃ front leading trailing rest, codes = front ++ leading :: trailing :: rest ∧ place = front.length + 1 ∧
    Text.isLeading leading = true ∧ Text.isTrailing trailing = true

/-- A separator spares the pairs of a text when nothing that it matches there begins or ends inside of a pair; an empty
match separates nothing. -/
def SparesPairsIn (separator : Pattern) (content : Text) : Prop :=
  ∀ found ∈ separator.allMatches (separator.subjectOf content), found.1 ≠ found.2 →
    ¬ InsidePair (codesOf separator.flags content) found.1 ∧ ¬ InsidePair (codesOf separator.flags content) found.2

/-- A separator spares pairs when it does so in every text. -/
def SparesPairs (separator : Pattern) : Prop := ∀ content, separator.SparesPairsIn content

variable {flags : Flags} {codes others : List Nat} {code place : Nat}

/-- The codes of a text tell everything about it, under all flags. -/
theorem ofCodes_codesOf (flags : Flags) (content : Text) : Text.ofCodes (codesOf flags content) = content := by
  unfold codesOf
  split
  · exact Text.ofCodes_codes content
  · refine congrArg Text.mk ?_
    rw [List.flatMap_map]
    simp only [Text.unitsOf_toNat]
    exact List.flatMap_singleton' _

theorem InsidePair.append_left (inside : InsidePair codes place) (others : List Nat) :
    InsidePair (others ++ codes) (others.length + place) := by
  obtain ⟨front, leading, trailing, rest, rfl, rfl, first, second⟩ := inside
  refine ⟨others ++ front, leading, trailing, rest, ?_, ?_, first, second⟩
  · rw [List.append_assoc]
  · rw [List.length_append, Nat.add_assoc]

theorem not_insidePair_zero : ¬ InsidePair codes 0 := by
  intro inside
  obtain ⟨front, leading, trailing, rest, -, place_eq, -, -⟩ := inside
  cases place_eq

theorem not_insidePair_length : ¬ InsidePair codes codes.length := by
  intro inside
  obtain ⟨front, leading, trailing, rest, rfl, place_eq, -, -⟩ := inside
  simp at place_eq

variable {pattern : Pattern} {subject : Subject} {tries fuel : Nat} {found : Nat × Nat}

/-- A match is found at one of the places that are tried. -/
theorem searchFrom?_bounds (finds : pattern.searchFrom? subject tries place = some found) :
    place ≤ found.1 ∧ found.1 < place + tries := by
  induction tries generalizing place with
  | zero => cases finds
  | succ tries ih =>
    rw [searchFrom?] at finds
    split at finds
    · cases finds
      omega
    · have later := ih finds
      omega

/-- No match begins behind the end of a text. -/
theorem fst_le_of_mem_matchesFrom (member : found ∈ pattern.matchesFrom subject fuel place) :
    found.1 ≤ subject.codes.size := by
  induction fuel generalizing place with
  | zero => cases member
  | succ fuel ih =>
    rw [matchesFrom] at member
    split at member
    · cases member
    · rename_i finds
      rcases List.mem_cons.mp member with rfl | later
      · have bounds := searchFrom?_bounds finds
        omega
      · exact ih later

theorem InsidePair.getElem?_eq (inside : InsidePair codes place) :
    ∃ leading trailing, codes[place - 1]? = some leading ∧ codes[place]? = some trailing ∧
      Text.isLeading leading = true ∧ Text.isTrailing trailing = true := by
  obtain ⟨front, leading, trailing, rest, rfl, rfl, first, second⟩ := inside
  refine ⟨leading, trailing, ?_, ?_, first, second⟩
  · simp
  · simp

theorem exists_matchAt?_of_searchFrom? (finds : pattern.searchFrom? subject tries place = some found) :
    ∃ reached, pattern.matchAt? subject found.1 = some reached ∧ found.2 = reached.place := by
  induction tries generalizing place with
  | zero => cases finds
  | succ tries ih =>
    rw [searchFrom?] at finds
    split at finds
    · rename_i reached matched
      cases finds
      exact ⟨reached, matched, rfl⟩
    · exact ih finds

theorem exists_matchAt?_of_mem_matchesFrom (member : found ∈ pattern.matchesFrom subject fuel place) :
    ∃ reached, pattern.matchAt? subject found.1 = some reached ∧ found.2 = reached.place := by
  induction fuel generalizing place with
  | zero => cases member
  | succ fuel ih =>
    rw [matchesFrom] at member
    split at member
    · cases member
    · rename_i finds
      rcases List.mem_cons.mp member with rfl | later
      · exact exists_matchAt?_of_searchFrom? finds
      · exact ih later

/-- A pattern that is one code matches where the text has that code. -/
theorem code_of_matchAt? {code : Nat} {content : Text} {reached : Progress} (single : pattern.root = .code code)
    (exactly : pattern.flags.ignoreCase = false)
    (matched : pattern.matchAt? (pattern.subjectOf content) place = some reached) :
    (codesOf pattern.flags content)[place]? = some code ∧ reached.place = place + 1 := by
  have canonical (code : Nat) : (pattern.subjectOf content).canonical code = code := by
    simp [Subject.canonical, subjectOf, exactly]
  have ahead : (pattern.subjectOf content).next? place = (codesOf pattern.flags content)[place]? :=
    List.getElem?_toArray ..
  rw [matchAt?, single, Node.matches, Option.bind_fun_some, Subject.step?] at matched
  simp only [canonical, ahead] at matched
  split at matched
  · rename_i found behind isFound goes
    split at matched
    · rename_i same
      rw [of_decide_eq_true same] at isFound
      cases matched
      exact ⟨isFound, (Subject.eq_of_ahead? rfl goes).1⟩
    · cases matched
  · cases matched

/-- A separator that is one character of one unit spares pairs. -/
theorem sparesPairsIn_of_code {code : Nat} (single : pattern.root = .code code) (plain : Text.isPairUnit code = false)
    (exactly : pattern.flags.ignoreCase = false) (content : Text) : pattern.SparesPairsIn content := by
  intro found finds _
  obtain ⟨reached, matched, ends⟩ := exists_matchAt?_of_mem_matchesFrom finds
  obtain ⟨here, behind⟩ := code_of_matchAt? single exactly matched
  rw [ends, behind]
  simp only [Text.isPairUnit, Bool.or_eq_false_iff] at plain
  constructor <;> intro inside <;> obtain ⟨leading, trailing, before, after, first, second⟩ := inside.getElem?_eq
  · rw [here] at after
    cases after
    simp [second] at plain
  · rw [Nat.add_sub_cancel, here] at before
    cases before
    simp [first] at plain

theorem sparesPairs_of_code {code : Nat} (single : pattern.root = .code code) (plain : Text.isPairUnit code = false)
    (exactly : pattern.flags.ignoreCase = false) : pattern.SparesPairs :=
  sparesPairsIn_of_code single plain exactly

end Pattern

namespace Action

open Pattern (codesOf InsidePair)

/-- Where separators cut no pairs apart, stretches between them do not either. -/
theorem stretches_whole {codes : List Nat} {start : Nat} {separators : List (Nat × Nat)} (whole : ¬ InsidePair codes start)
    (spared : ∀ found ∈ separators, found.1 ≠ found.2 →
      found.1 ≤ codes.length ∧ ¬ InsidePair codes found.1 ∧ ¬ InsidePair codes found.2) :
    ∀ stretch ∈ stretches codes.length start separators, stretch.1 < stretch.2 ∧ stretch.2 ≤ codes.length ∧
      ¬ InsidePair codes stretch.1 ∧ ¬ InsidePair codes stretch.2 := by
  induction separators generalizing start with
  | nil =>
    rw [stretches]
    split
    · rename_i ordered
      exact List.forall_mem_singleton.mpr ⟨ordered, Nat.le_refl _, whole, Pattern.not_insidePair_length⟩
    · exact nofun
  | cons found rest ih =>
    obtain ⟨head, tail⟩ := List.forall_mem_cons.mp spared
    rw [stretches]
    split
    · exact ih whole tail
    · rename_i filled
      obtain ⟨within, before, behind⟩ := head filled
      refine List.forall_mem_append.mpr ⟨?_, ih behind tail⟩
      split
      · rename_i ordered
        exact List.forall_mem_singleton.mpr ⟨ordered, within, whole, before⟩
      · exact nofun

end Action

end TokenGrammar
