import TokenGrammar.Bindings
import TokenGrammar.Rule.Mentions

namespace TokenGrammar

namespace RuleStore

/-- The number of external rules that were not visited. -/
def unvisited (store : RuleStore) (visited : List Nat) : Nat :=
  ((List.range store.externals.size).filter fun number => !visited.contains number).length

theorem unvisited_cons_lt (store : RuleStore) {visited : List Nat} {number : Nat}
    (inside : number < store.externals.size) (fresh : visited.contains number = false) :
    store.unvisited (number :: visited) < store.unvisited visited := by
  have split : (fun other => !(number :: visited).contains other) =
      fun other => decide (other ≠ number) && !visited.contains other := by
    funext other
    simp [Bool.not_or]
  unfold unvisited
  rw [split, ← List.filter_filter, List.length_filter_lt_length_iff_exists]
  refine ⟨number, List.mem_filter.mpr ⟨List.mem_range.mpr inside, by rw [fresh]; rfl⟩, by simp⟩

end RuleStore

namespace Grammar

/-- Adds a name to a list that keeps each once. -/
def addName (names : List Text) (name : Text) : List Text :=
  if names.contains name then names else names ++ [name]

/-- The mentions of several rules, those of the last rule first. -/
def mentionsOf (rules : List Rule) : List Mention := Mention.joinAll (rules.map Rule.mentions)

/-- Adds the names of pending mentions that are not bound to rules. An external rule is looked into once, before
the mentions behind it. -/
def missingNames (store : RuleStore) (bindings : Bindings) (visited : List Nat) (missing : List Text) :
    List Mention → List Text
  | [] => missing
  | .name name :: pending =>
    missingNames store bindings visited (if bindings.hasRule name then missing else addName missing name) pending
  | .external number :: pending =>
    if _fresh : number < store.externals.size ∧ visited.contains number = false then
      let parts := mentionsOf ((Rule.external number).children store)
      missingNames store bindings (number :: visited) missing (parts ++ pending)
    else missingNames store bindings visited missing pending
termination_by pending => (store.unvisited visited, pending.length)
decreasing_by
  · exact Prod.Lex.right _ (by simp)
  · exact Prod.Lex.left _ _ (store.unvisited_cons_lt _fresh.1 _fresh.2)
  · exact Prod.Lex.right _ (by simp)

/-- The names that rules mention, and that are not bound to rules, in the order of a walk that visits the last
rule first. -/
def unboundNames (store : RuleStore) (bindings : Bindings) (roots : List Rule) : List Text :=
  missingNames store bindings [] [] (mentionsOf roots)

end Grammar

end TokenGrammar
