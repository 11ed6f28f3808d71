import Mathlib.Logic.Function.Iterate
import TokenGrammar.Proofs.References.Graph

namespace TokenGrammar

/-- A search: the objects on the stack, the one that came in last at the head, the objects that were looked into, and the
names that were found. -/
structure ReferenceSearch (size : Nat) where
  pending : List (Fin size)
  visited : Finset (Fin size) := ∅
  missing : List Text := []

namespace Grammar

variable {bindings : Bindings} {name found : Text} {missing : List Text}

/-- The names that were found, with one more if nothing binds it. -/
def noteName (bindings : Bindings) (missing : List Text) (name : Text) : List Text :=
  if bindings.hasRule name then missing else addName missing name

theorem mem_noteName_iff :
    name ∈ noteName bindings missing found ↔ name ∈ missing ∨ (name = found ∧ bindings.hasRule name = false) := by
  rw [noteName]
  split
  · rename_i bound
    refine ⟨.inl, fun given => given.resolve_right ?_⟩
    rintro ⟨rfl, unbound⟩
    rw [bound] at unbound
    cases unbound
  · rename_i unbound
    rw [mem_addName]
    refine or_congr_right ⟨?_, And.left⟩
    rintro rfl
    exact ⟨rfl, Bool.eq_false_iff.mpr unbound⟩

theorem nodup_noteName (unique : missing.Nodup) (name : Text) : (noteName bindings missing name).Nodup := by
  rw [noteName]
  split
  · exact unique
  · exact nodup_addName unique name

end Grammar

/-- The objects that a search has come across. -/
def ReferenceSearch.Knows {size : Nat} (search : ReferenceSearch size) (object : Fin size) : Prop :=
  object ∈ search.visited ∨ object ∈ search.pending

namespace RuleGraph

variable {size : Nat} {graph : RuleGraph size} {bindings : Bindings} {search : ReferenceSearch size}
  {roots rest : List (Fin size)} {object : Fin size} {name : Text}

def start (roots : List (Fin size)) : ReferenceSearch size := { pending := roots.reverse }

/-- The names that were found, with the one that an object requires. -/
def noting (graph : RuleGraph size) (bindings : Bindings) (object : Fin size) (missing : List Text) : List Text :=
  match graph.requiredName? object with
  | some name => Grammar.noteName bindings missing name
  | none => missing

def round (graph : RuleGraph size) (bindings : Bindings) (search : ReferenceSearch size) : ReferenceSearch size :=
  match search.pending with
  | [] => search
  | object :: rest =>
    if object ∈ search.visited then { search with pending := rest }
    else
      { pending := (graph.children object).reverse ++ rest
        visited := insert object search.visited
        missing := graph.noting bindings object search.missing }

/-- What a search has to do: the objects on the stack, and those that the objects show that were not looked into. -/
def load (graph : RuleGraph size) (search : ReferenceSearch size) : Nat :=
  search.pending.length + ∑ object ∈ search.visitedᶜ, (graph.children object).length

theorem round_of_empty (none : search.pending = []) : graph.round bindings search = search := by
  rw [round, none]

theorem round_of_visited (top : search.pending = object :: rest) (known : object ∈ search.visited) :
    graph.round bindings search = { search with pending := rest } := by
  rw [round, top]
  exact if_pos known

theorem round_of_fresh (top : search.pending = object :: rest) (fresh : object ∉ search.visited) :
    graph.round bindings search =
      { pending := (graph.children object).reverse ++ rest
        visited := insert object search.visited
        missing := graph.noting bindings object search.missing } := by
  rw [round, top]
  exact if_neg fresh

/-- Each round takes one from the load. -/
theorem load_round (filled : search.pending ≠ []) : graph.load (graph.round bindings search) + 1 = graph.load search := by
  obtain ⟨object, rest, top⟩ := List.exists_cons_of_ne_nil filled
  by_cases known : object ∈ search.visited
  · rw [round_of_visited top known, load, load, top, List.length_cons]
    dsimp only
    omega
  · have outside : object ∈ search.visitedᶜ := Finset.mem_compl.mpr known
    have parts := Finset.add_sum_erase search.visitedᶜ (fun object => (graph.children object).length) outside
    rw [round_of_fresh top known, load, load, top, List.length_append, List.length_reverse, List.length_cons,
      Finset.compl_insert]
    omega

/-- A search that goes on until the stack is empty. -/
def finish (graph : RuleGraph size) (bindings : Bindings) (search : ReferenceSearch size) : ReferenceSearch size :=
  if search.pending = [] then search else finish graph bindings (graph.round bindings search)
termination_by graph.load search
decreasing_by
  rename_i filled
  have := @load_round size graph bindings search filled
  omega

/-- The names that objects which the roots show require, and that are not bound to rules. -/
def unboundNames (graph : RuleGraph size) (bindings : Bindings) (roots : List (Fin size)) : List Text :=
  (graph.finish bindings (start roots)).missing

/-- A finished search is what so many rounds come to as there are roots and properties that hold objects, at most. -/
theorem exists_rounds (graph : RuleGraph size) (bindings : Bindings) (search : ReferenceSearch size) :
    ∃ rounds ≤ graph.load search, graph.finish bindings search = (graph.round bindings)^[rounds] search ∧
      (graph.finish bindings search).pending = [] := by
  fun_induction finish graph bindings search with
  | case1 search none => exact ⟨0, Nat.zero_le _, rfl, none⟩
  | case2 search filled ih =>
    obtain ⟨rounds, bounded, comes, ended⟩ := ih
    have := @load_round size graph bindings search filled
    exact ⟨rounds + 1, by omega, by rw [comes, Function.iterate_succ_apply], ended⟩

theorem load_start (graph : RuleGraph size) (roots : List (Fin size)) :
    graph.load (start roots) = roots.length + ∑ object, (graph.children object).length := by
  simp [load, start]

/-- What holds in the course of a search. All objects that it knows are shown by roots; it knows the roots and what the
objects show that it has looked into; and it has found what these require and nothing binds, each name once. -/
structure Keeps (graph : RuleGraph size) (bindings : Bindings) (roots : List (Fin size)) (search : ReferenceSearch size) :
    Prop where
  shown : ∀ object, search.Knows object → ∃ root ∈ roots, graph.Shows root object
  rooted : ∀ root ∈ roots, search.Knows root
  closed : ∀ object ∈ search.visited, ∀ part ∈ graph.children object, search.Knows part
  found_iff : ∀ name, name ∈ search.missing ↔
    (∃ object ∈ search.visited, graph.requiredName? object = some name) ∧ bindings.hasRule name = false
  nodup : search.missing.Nodup

theorem keeps_start (graph : RuleGraph size) (bindings : Bindings) (roots : List (Fin size)) :
    graph.Keeps bindings roots (start roots) where
  shown object known := by
    rcases known with visited | pending
    · cases Finset.notMem_empty object visited
    · exact ⟨object, List.mem_reverse.mp pending, .refl⟩
  rooted root isRoot := .inr (List.mem_reverse.mpr isRoot)
  closed object visited := absurd visited (Finset.notMem_empty object)
  found_iff name := by simp [start]
  nodup := List.nodup_nil

theorem mem_noting_iff {missing : List Text} : name ∈ graph.noting bindings object missing ↔
    name ∈ missing ∨ (graph.requiredName? object = some name ∧ bindings.hasRule name = false) := by
  rw [noting]
  cases graph.requiredName? object with
  | none => simp
  | some found => rw [Grammar.mem_noteName_iff, Option.some.injEq, @eq_comm _ name]

theorem nodup_noting {missing : List Text} (unique : missing.Nodup) :
    (graph.noting bindings object missing).Nodup := by
  rw [noting]
  split
  · exact Grammar.nodup_noteName unique _
  · exact unique

/-- Passing over an object that was looked into leaves everything known. -/
theorem Keeps.passing (keeps : graph.Keeps bindings roots search) (top : search.pending = object :: rest)
    (visited : object ∈ search.visited) : graph.Keeps bindings roots { search with pending := rest } := by
  have knows (other : Fin size) : ReferenceSearch.Knows { search with pending := rest } other ↔ search.Knows other := by
    rw [ReferenceSearch.Knows, ReferenceSearch.Knows, top, List.mem_cons]
    constructor
    · exact Or.imp_right .inr
    · rintro (known | rfl | known)
      · exact .inl known
      · exact .inl visited
      · exact .inr known
  exact
    { shown := fun other known => keeps.shown other ((knows other).mp known)
      rooted := fun root isRoot => (knows root).mpr (keeps.rooted root isRoot)
      closed := fun outer inside part child => (knows part).mpr (keeps.closed outer inside part child)
      found_iff := keeps.found_iff
      nodup := keeps.nodup }

/-- Looking into an object brings in what it shows and the name that it requires. -/
theorem Keeps.looking (keeps : graph.Keeps bindings roots search) (top : search.pending = object :: rest) :
    graph.Keeps bindings roots
      { pending := (graph.children object).reverse ++ rest
        visited := insert object search.visited
        missing := graph.noting bindings object search.missing } := by
  have onTop : search.Knows object := .inr (by simp [top])
  have knows {other : Fin size} (known : search.Knows other) :
      ReferenceSearch.Knows ⟨(graph.children object).reverse ++ rest, insert object search.visited,
        graph.noting bindings object search.missing⟩ other := by
    rw [ReferenceSearch.Knows, top, List.mem_cons] at known
    rcases known with visited | rfl | pending
    · exact .inl (Finset.mem_insert_of_mem visited)
    · exact .inl (Finset.mem_insert_self ..)
    · exact .inr (List.mem_append_right _ pending)
  constructor
  case shown =>
    intro other known
    rcases known with visited | pending
    · rcases Finset.mem_insert.mp visited with rfl | visited
      · exact keeps.shown _ onTop
      · exact keeps.shown other (.inl visited)
    · rcases List.mem_append.mp pending with child | pending
      · obtain ⟨root, isRoot, shows⟩ := keeps.shown object onTop
        exact ⟨root, isRoot, shows.tail (List.mem_reverse.mp child)⟩
      · exact keeps.shown other (.inr (by simp [top, pending]))
  case rooted => exact fun root isRoot => knows (keeps.rooted root isRoot)
  case closed =>
    intro outer inside part child
    rcases Finset.mem_insert.mp inside with rfl | visited
    · exact .inr (List.mem_append_left _ (List.mem_reverse.mpr child))
    · exact knows (keeps.closed outer visited part child)
  case found_iff =>
    intro name
    rw [mem_noting_iff, keeps.found_iff, ← or_and_right, Finset.exists_mem_insert]
    exact and_congr_left fun _ => or_comm
  case nodup => exact nodup_noting keeps.nodup

theorem Keeps.round (keeps : graph.Keeps bindings roots search) :
    graph.Keeps bindings roots (graph.round bindings search) := by
  cases top : search.pending with
  | nil => rwa [round_of_empty top]
  | cons object rest =>
    by_cases visited : object ∈ search.visited
    · rw [round_of_visited top visited]
      exact keeps.passing top visited
    · rw [round_of_fresh top visited]
      exact keeps.looking top

theorem Keeps.finish (keeps : graph.Keeps bindings roots search) :
    graph.Keeps bindings roots (graph.finish bindings search) := by
  obtain ⟨rounds, -, comes, -⟩ := graph.exists_rounds bindings search
  rw [comes]
  clear comes
  induction rounds with
  | zero => exact keeps
  | succ rounds ih =>
    rw [Function.iterate_succ_apply']
    exact ih.round

/-- A search whose stack is empty has looked into exactly what the roots show. -/
theorem Keeps.mem_visited_iff (keeps : graph.Keeps bindings roots search) (ended : search.pending = []) :
    object ∈ search.visited ↔ ∃ root ∈ roots, graph.Shows root object := by
  have knows_iff (other : Fin size) : search.Knows other ↔ other ∈ search.visited := by
    simp [ReferenceSearch.Knows, ended]
  constructor
  · exact fun visited => keeps.shown object (.inl visited)
  · rintro ⟨root, isRoot, shows⟩
    induction shows with
    | refl => exact (knows_iff root).mp (keeps.rooted root isRoot)
    | tail _ child ih => exact (knows_iff _).mp (keeps.closed _ ih _ child)

theorem mem_unboundNames_iff_requires (graph : RuleGraph size) (bindings : Bindings) (roots : List (Fin size)) :
    name ∈ graph.unboundNames bindings roots ↔
      (∃ root ∈ roots, graph.Requires root name) ∧ bindings.hasRule name = false := by
  have keeps := (graph.keeps_start bindings roots).finish
  obtain ⟨-, -, -, ended⟩ := graph.exists_rounds bindings (start roots)
  rw [unboundNames, keeps.found_iff]
  refine and_congr_left fun _ => ?_
  simp only [keeps.mem_visited_iff ended, Requires]
  constructor
  · rintro ⟨object, ⟨root, isRoot, shows⟩, required⟩
    exact ⟨root, isRoot, object, shows, required⟩
  · rintro ⟨root, isRoot, object, shows, required⟩
    exact ⟨object, ⟨root, isRoot, shows⟩, required⟩

theorem nodup_unboundNames_of_graph (graph : RuleGraph size) (bindings : Bindings) (roots : List (Fin size)) :
    (graph.unboundNames bindings roots).Nodup :=
  (graph.keeps_start bindings roots).finish.nodup

end RuleGraph

end TokenGrammar
