import Mathlib.Data.List.Basic
import TokenGrammar.Action

namespace TokenGrammar

/-- What a token keeps of the text that it was read from. -/
@[ext] structure Imprint where
  value : Text
  position : Position
  endPosition : Position

namespace Token

/-- The value and the positions of a token. -/
def imprint (token : Token) : Imprint := ⟨token.value, token.position, token.endPosition⟩

theorem imprint_hide (token : Token) : token.hide.imprint = token.imprint := by
  cases token <;> rfl

theorem imprint_unhide (token : Token) : token.unhide.imprint = token.imprint := by
  cases token <;> rfl

theorem imprint_withTypeList (token : Token) (types : List TokenType) :
    (token.withTypeList types).imprint = token.imprint := by
  cases token <;> rfl

/-- What the leaves of tokens keep inside of all annotations and numbers, in their order. -/
def imprints (tokens : List Token) : List Imprint := (tokens.flatMap leaves).map fun leaf => leaf.unwrap.imprint

@[simp] theorem imprints_nil : imprints [] = [] := rfl

theorem imprints_append (first second : List Token) :
    imprints (first ++ second) = imprints first ++ imprints second := by
  simp [imprints]

mutual

theorem joinedValue_leavesWithin {outer : Token} :
    (token : Token) → outer.value = token.value → joinedValue (leavesWithin outer token) = token.value
  | .group _ _ members, _ => joinedValue_allLeaves members
  | .annotated _ token _, same => joinedValue_leavesWithin token same
  | .indexed _ token _, same => joinedValue_leavesWithin token same
  | .simple _, same => (joinedValue_singleton outer).trans same
  | .escaped .., same => (joinedValue_singleton outer).trans same
  | .shadow .., same => (joinedValue_singleton outer).trans same

theorem joinedValue_allLeaves : (tokens : List Token) → joinedValue (allLeaves tokens) = joinedValue tokens
  | [] => rfl
  | token :: rest => by
    rw [allLeaves, joinedValue_append, joinedValue_leavesWithin token rfl, joinedValue_allLeaves rest,
      joinedValue_cons]

end

/-- The leaves of tokens spell the texts of the tokens. -/
theorem joinedValue_flatMap_leaves (tokens : List Token) : joinedValue (tokens.flatMap leaves) = joinedValue tokens := by
  rw [← allLeaves_eq_flatMap]
  exact joinedValue_allLeaves tokens

mutual

theorem leaves_of_mem_leavesWithin {outer leaf : Token} :
    (token : Token) → outer.leaves = leavesWithin outer token → leaf ∈ leavesWithin outer token → leaf.leaves = [leaf]
  | .group _ _ members, _, member => leaves_of_mem_allLeaves members member
  | .annotated _ token _, same, member => leaves_of_mem_leavesWithin token same member
  | .indexed _ token _, same, member => leaves_of_mem_leavesWithin token same member
  | .simple _, same, member => by rwa [List.mem_singleton.mp member]
  | .escaped .., same, member => by rwa [List.mem_singleton.mp member]
  | .shadow .., same, member => by rwa [List.mem_singleton.mp member]

theorem leaves_of_mem_allLeaves {leaf : Token} :
    (tokens : List Token) → leaf ∈ allLeaves tokens → leaf.leaves = [leaf]
  | token :: rest, member => by
    rcases List.mem_append.mp member with inside | behind
    · exact leaves_of_mem_leavesWithin token rfl inside
    · exact leaves_of_mem_allLeaves rest behind

end

/-- To take the leaves of tokens once more changes nothing. -/
theorem flatMap_leaves_flatMap_leaves (tokens : List Token) :
    (tokens.flatMap leaves).flatMap leaves = tokens.flatMap leaves := by
  rw [← allLeaves_eq_flatMap tokens]
  calc (allLeaves tokens).flatMap leaves
      = (allLeaves tokens).flatMap fun leaf => [leaf] :=
        List.flatMap_congr fun leaf member => leaves_of_mem_allLeaves tokens member
    _ = allLeaves tokens := List.flatMap_singleton' _

theorem imprints_flatMap_leaves (tokens : List Token) : imprints (tokens.flatMap leaves) = imprints tokens := by
  rw [imprints, flatMap_leaves_flatMap_leaves, imprints]

/-- What stands for a token that is no group matters only as far as it is looked at. -/
theorem map_leavesWithin {α : Type} (look : Token → α) {outer other : Token} (same : look outer = look other) :
    (token : Token) → (leavesWithin outer token).map look = (leavesWithin other token).map look
  | .group .. => rfl
  | .annotated _ token _ => map_leavesWithin look same token
  | .indexed _ token _ => map_leavesWithin look same token
  | .simple _ => congrArg (· :: []) same
  | .escaped .. => congrArg (· :: []) same
  | .shadow .. => congrArg (· :: []) same

theorem imprints_singleton (token : Token) :
    imprints [token] = (leavesWithin token token).map fun leaf => leaf.unwrap.imprint := by
  simp [imprints, leaves]

@[simp] theorem imprints_group (definition : Definition) (types : List TokenType) (members : List Token) :
    imprints [group definition types members] = imprints members := by
  rw [imprints_singleton, imprints, ← allLeaves_eq_flatMap]
  rfl

@[simp] theorem imprints_annotated (types : List TokenType) (token : Token) (metadata : Fields) :
    imprints [annotated types token metadata] = imprints [token] := by
  rw [imprints_singleton, imprints_singleton]
  exact @map_leavesWithin _ _ (annotated types token metadata) token rfl token

@[simp] theorem imprints_indexed (types : List TokenType) (token : Token) (ordinal : Number) :
    imprints [indexed types token ordinal] = imprints [token] := by
  rw [imprints_singleton, imprints_singleton]
  exact @map_leavesWithin _ _ (indexed types token ordinal) token rfl token

@[simp] theorem value_withTypeList (token : Token) (types : List TokenType) :
    (token.withTypeList types).value = token.value := by
  cases token <;> simp [withTypeList]

@[simp] theorem imprints_withTypeList (token : Token) (types : List TokenType) :
    imprints [token.withTypeList types] = imprints [token] := by
  cases token with
  | simple leaf => simp [imprints_singleton, withTypeList, leavesWithin, unwrap, imprint, position, endPosition]
  | escaped leaf character =>
    simp [imprints_singleton, withTypeList, leavesWithin, unwrap, imprint, position, endPosition]
  | shadow own token =>
    simp [imprints_singleton, withTypeList, leavesWithin, unwrap, imprint, position, endPosition]
  | group definition own members => simp [withTypeList]
  | annotated own token metadata => simp [withTypeList]
  | indexed own token ordinal => simp [withTypeList]

end Token

/-- Grouping leaves tokens alone, or it makes a single group of the tokens or of their leaves. -/
theorem Action.eq_or_exists_of_group {mode : GroupingMode} {definition : Option Definition} {tokens made : List Token}
    (groups : Action.group mode definition tokens = .ok made) :
    made = tokens ∨ ∃ members whole, (members = tokens ∨ members = tokens.flatMap Token.leaves) ∧
      Token.ofGroup members definition = .ok whole ∧ made = [whole] := by
  have ofMembers {members : List Token} (chosen : members = tokens ∨ members = tokens.flatMap Token.leaves)
      (makes : (if members.length < 2 then .ok tokens else return [← Token.ofGroup members definition]) = .ok made) :
      made = tokens ∨ ∃ members whole, (members = tokens ∨ members = tokens.flatMap Token.leaves) ∧
        Token.ofGroup members definition = .ok whole ∧ made = [whole] := by
    split at makes
    · cases makes
      exact .inl rfl
    · obtain ⟨whole, grouped, single⟩ := bind_eq_ok_iff.mp makes
      cases single
      exact .inr ⟨members, whole, chosen, grouped, rfl⟩
  cases mode with
  | matched => exact ofMembers (.inl rfl) groups
  | all => exact ofMembers (.inr rfl) groups

end TokenGrammar
