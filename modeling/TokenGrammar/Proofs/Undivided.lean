import TokenGrammar.Proofs.Splitting

namespace TokenGrammar

namespace Pattern

variable {pattern : Pattern} {subject : Subject} {tries fuel start place : Nat} {found : Nat × Nat} {reached : Progress}

/-- A pattern divides a text where one of its matches in it is not empty. -/
def Divides (pattern : Pattern) (content : Text) : Prop :=
  ∃ place reached, place ≤ (codesOf pattern.flags content).length ∧
    pattern.matchAt? (pattern.subjectOf content) place = some reached ∧ reached.place ≠ place

theorem size_subjectOf (pattern : Pattern) (content : Text) :
    (pattern.subjectOf content).codes.size = (codesOf pattern.flags content).length := List.size_toArray

/-- A search fails at every place that it tries before the one it finds. -/
theorem matchAt?_eq_none_of_searchFrom? (finds : pattern.searchFrom? subject tries start = some found)
    (from_start : start ≤ place) (before : place < found.1) : pattern.matchAt? subject place = none := by
  induction tries generalizing start with
  | zero => cases finds
  | succ tries ih =>
    rw [searchFrom?] at finds
    cases matched : pattern.matchAt? subject start with
    | some reached =>
      rw [matched] at finds
      cases finds
      omega
    | none =>
      rw [matched] at finds
      rcases Nat.eq_or_lt_of_le from_start with rfl | later
      · exact matched
      · exact ih finds later

theorem matchAt?_eq_none_of_searchFrom?_eq_none (fails : pattern.searchFrom? subject tries start = none)
    (from_start : start ≤ place) (tried : place < start + tries) : pattern.matchAt? subject place = none := by
  induction tries generalizing start with
  | zero => omega
  | succ tries ih =>
    rw [searchFrom?] at fails
    cases matched : pattern.matchAt? subject start with
    | some reached =>
      rw [matched] at fails
      cases fails
    | none =>
      rw [matched] at fails
      rcases Nat.eq_or_lt_of_le from_start with rfl | later
      · exact matched
      · exact ih fails later (by omega)

/-- If all matches from a place on are empty, so is the match at each place from there on. -/
theorem place_eq_of_matchesFrom (empty : ∀ found ∈ pattern.matchesFrom subject fuel start, found.1 = found.2)
    (enough : subject.codes.size < start + fuel) (from_start : start ≤ place) (inside : place ≤ subject.codes.size)
    (matched : pattern.matchAt? subject place = some reached) : reached.place = place := by
  induction fuel generalizing start with
  | zero => omega
  | succ fuel ih =>
    rw [matchesFrom] at empty
    cases finds : pattern.searchFrom? subject (subject.codes.size + 1 - start) start with
    | none =>
      have none := matchAt?_eq_none_of_searchFrom?_eq_none finds from_start (by omega)
      rw [none] at matched
      cases matched
    | some found =>
      obtain ⟨first, last⟩ := found
      rw [finds] at empty
      obtain ⟨same, later⟩ := List.forall_mem_cons.mp empty
      obtain rfl : first = last := same
      obtain ⟨reached', matched', ends⟩ := exists_matchAt?_of_searchFrom? finds
      rw [if_pos rfl] at later
      obtain before | rfl | behind := Nat.lt_trichotomy place first
      · have none := matchAt?_eq_none_of_searchFrom? finds from_start before
        rw [none] at matched
        cases matched
      · rw [matched] at matched'
        cases matched'
        exact ends.symm
      · have bounds := searchFrom?_bounds finds
        exact ih later (by omega) behind

end Pattern

namespace Action

open Pattern (codesOf)

variable {separator : Pattern} {content : Text} {token : Token}

/-- The matches that separate are those that divide. -/
theorem separators_eq_nil_iff : separators separator content = [] ↔ ¬separator.Divides content := by
  have size := separator.size_subjectOf content
  rw [separators, List.filter_eq_nil_iff]
  constructor
  · intro empty divides
    obtain ⟨place, reached, inside, matched, filled⟩ := divides
    have same : ∀ found ∈ separator.allMatches (separator.subjectOf content), found.1 = found.2 := by
      simpa using empty
    exact filled (Pattern.place_eq_of_matchesFrom same (by omega) (Nat.zero_le _) (size ▸ inside) matched)
  · intro whole found among
    obtain ⟨reached, matched, ends⟩ := Pattern.exists_matchAt?_of_mem_matchesFrom among
    have inside := Pattern.fst_le_of_mem_matchesFrom among
    rw [decide_eq_true_eq, ne_eq, not_not]
    by_contra filled
    exact whole ⟨found.1, reached, size ▸ inside, matched, fun same => filled (ends.trans same).symm⟩

theorem codesOf_eq_nil_iff (flags : Pattern.Flags) (content : Text) :
    codesOf flags content = [] ↔ content.isEmpty = true := by
  constructor
  · intro none
    rw [← Pattern.ofCodes_codesOf flags content, none]
    rfl
  · intro empty
    by_contra filled
    have nonempty := Text.isEmpty_ofCodes filled
    rw [Pattern.ofCodes_codesOf, empty] at nonempty
    cases nonempty

/-- A text that is not divided is its only part, if it is not empty. -/
theorem parts_of_undivided (undivided : ¬separator.Divides content) :
    parts separator content = if content.isEmpty then [] else [⟨content, 0⟩] := by
  rw [parts_eq, gaps, separators_eq_nil_iff.mpr undivided, gapsFrom]
  cases empty : content.isEmpty with
  | true =>
    rw [(codesOf_eq_nil_iff separator.flags content).mpr empty]
    rfl
  | false =>
    have filled : codesOf separator.flags content ≠ [] := fun none => by
      rw [(codesOf_eq_nil_iff _ _).mp none] at empty
      cases empty
    have whole : textOf (codesOf separator.flags content) (0, (codesOf separator.flags content).length) = content := by
      rw [textOf, List.drop_zero, Nat.sub_zero, List.take_length, Pattern.ofCodes_codesOf]
    have front : textBefore (codesOf separator.flags content) (0, (codesOf separator.flags content).length) = ⟨[]⟩ := rfl
    rw [List.filter_cons_of_pos (by simpa using List.length_pos_iff.mpr filled), List.filter_nil, List.map_singleton,
      whole, front]
    rfl

/-- A token that is not divided is kept, if it has any text. -/
theorem splitToken_of_undivided (undivided : ¬separator.Divides token.value) :
    splitToken separator token = .ok (if token.value.isEmpty then [] else [token]) := by
  rw [splitToken, parts_of_undivided undivided]
  cases token.value.isEmpty with
  | true => rfl
  | false => exact if_pos rfl

theorem mapM_splitToken_of_undivided {tokens : List Token}
    (undivided : ∀ token ∈ tokens, ¬separator.Divides token.value) :
    tokens.mapM (splitToken separator) = .ok (tokens.map fun token => if token.value.isEmpty then [] else [token]) := by
  induction tokens with
  | nil => rfl
  | cons token rest ih =>
    obtain ⟨first, others⟩ := List.forall_mem_cons.mp undivided
    rw [List.mapM_cons, splitToken_of_undivided first, ih others]
    rfl

theorem flatten_map_filled (tokens : List Token) :
    (tokens.map fun token => if token.value.isEmpty then [] else [token]).flatten =
      tokens.filter fun token => !token.value.isEmpty := by
  induction tokens with
  | nil => rfl
  | cons token rest ih =>
    rw [List.map_cons, List.flatten_cons, ih, List.filter_cons]
    cases token.value.isEmpty <;> rfl

theorem apply_split_of_undivided {found : Match} (undivided : ∀ token ∈ found.tokens, ¬separator.Divides token.value)
    (store : RuleStore) (captures : Captures) : (Action.split separator).apply store captures found =
      .ok { tokens := found.tokens.filter fun token => !token.value.isEmpty } := by
  simp [apply, mapM_splitToken_of_undivided undivided, flatten_map_filled, bind, Except.bind, pure, Except.pure]

/-- Where no token is divided, splitting keeps exactly the tokens that have any text, as they are and in their order; so
it keeps all of them exactly if each has some text. -/
theorem split_undivided {found : Match} (undivided : ∀ token ∈ found.tokens, ¬separator.Divides token.value)
    (store : RuleStore) (captures : Captures) :
    (Action.split separator).apply store captures found =
        .ok { tokens := found.tokens.filter fun token => !token.value.isEmpty } ∧
      ((Action.split separator).apply store captures found = .ok { tokens := found.tokens } ↔
        ∀ token ∈ found.tokens, token.value.isEmpty = false) := by
  have keeps := apply_split_of_undivided undivided store captures
  refine ⟨keeps, ?_⟩
  rw [keeps]
  constructor
  · intro same
    have all : (found.tokens.filter fun token => !token.value.isEmpty) = found.tokens :=
      congrArg Edit.tokens (Except.ok.inj same)
    simpa using List.filter_eq_self.mp all
  · intro filled
    rw [List.filter_eq_self.mpr (by simpa using filled)]

end Action

namespace Brackets

/-- A token without any text, of a definition that accepts everything. -/
def blank : Token := .simple ⟨.predicate "anything" fun _ => true, ⟨[]⟩, .unpositioned, .unpositioned, []⟩

theorem dash_spares : ∀ token ∈ [opening, blank, comment], ¬dash.Divides token.value := by
  intro token inside
  rw [← Action.separators_eq_nil_iff]
  have each : ∀ token ∈ [opening, blank, comment], Action.separators dash token.value = [] := by decide +kernel
  exact each token inside

end Brackets

namespace Action

open Brackets

/-- Of an opening bracket, a token without text and a comment without a dash, the one without text is lost. -/
theorem split_undivided_without_empty :
    (∀ token ∈ [opening, blank, comment], ¬dash.Divides token.value) ∧
      (Action.split dash).apply {} {} ⟨0, 3, [opening, blank, comment], .always⟩ =
        .ok { tokens := [opening, comment] } :=
  ⟨dash_spares, (@split_undivided dash ⟨0, 3, [opening, blank, comment], .always⟩ dash_spares {} {}).1⟩

/-- Splitting does not keep all tokens that a separator does not divide, although their definitions accept them. -/
theorem not_split_undivided : ¬ ∀ (separator : Pattern) (store : RuleStore) (captures : Captures) (found : Match),
    (∀ token ∈ found.tokens, token.definition.accepts token.value = true ∧ ¬separator.Divides token.value) →
    (Action.split separator).apply store captures found = .ok { tokens := found.tokens } := by
  intro keeps
  have undivided : ∀ token ∈ [blank], ¬dash.Divides token.value := fun token inside =>
    dash_spares token (by simpa using .inr (.inl (List.mem_singleton.mp inside)))
  have kept := keeps dash {} {} ⟨0, 1, [blank], .always⟩ fun token inside =>
    ⟨by rw [List.mem_singleton.mp inside]; rfl, undivided token inside⟩
  have computed := @apply_split_of_undivided dash ⟨0, 1, [blank], .always⟩ undivided {} {}
  rw [computed] at kept
  cases kept

end Action

end TokenGrammar
