import TokenGrammar.Proofs.References.Search

namespace TokenGrammar

namespace Grammar

variable {bindings : Bindings} {missing names : List Text} {name : Text}

/-- The names that were found, with further ones if nothing binds them. -/
def noteNames (bindings : Bindings) (missing names : List Text) : List Text := names.foldl (noteName bindings) missing

theorem noteNames_append (first second : List Text) :
    noteNames bindings missing (first ++ second) = noteNames bindings (noteNames bindings missing first) second :=
  List.foldl_append

theorem mem_noteNames_iff : name ∈ noteNames bindings missing names ↔
    name ∈ missing ∨ (name ∈ names ∧ bindings.hasRule name = false) := by
  induction names generalizing missing with
  | nil => simp [noteNames]
  | cons first rest ih =>
    rw [noteNames, List.foldl_cons, ← noteNames, ih, mem_noteName_iff, List.mem_cons, or_and_right, or_assoc]

/-- Names that were found, or that something binds, add nothing. -/
theorem noteNames_of_noted (noted : ∀ name ∈ names, bindings.hasRule name = false → name ∈ missing) :
    noteNames bindings missing names = missing := by
  induction names with
  | nil => rfl
  | cons first rest ih =>
    obtain ⟨here, later⟩ := List.forall_mem_cons.mp noted
    have same : noteName bindings missing first = missing := by
      rw [noteName]
      split
      · rfl
      · rename_i unbound
        exact if_pos (by simpa using here (by simpa using unbound))
    rw [noteNames, List.foldl_cons, same]
    exact ih later

/-- Lists of names that add the same to whatever was found. -/
def NotedAlike (first second : List Text) : Prop :=
  ∀ bindings missing, noteNames bindings missing first = noteNames bindings missing second

theorem NotedAlike.append {first second third fourth : List Text} (alike : NotedAlike first second)
    (alikeLater : NotedAlike third fourth) : NotedAlike (first ++ third) (second ++ fourth) := fun bindings missing => by
  rw [noteNames_append, noteNames_append, alike, alikeLater]

end Grammar

open Grammar (noteNames NotedAlike)

/-- What a walk goes over: nodes that have names, and further nodes under them, in the order in which they are come to. -/
structure NameWalk (Node : Type) where
  own : Node → List Text
  parts : Node → List Node

namespace NameWalk

variable {Node Other : Type} {walk : NameWalk Node} {bindings : Bindings} {nodes others : List Node}
  {node part : Node} {names otherNames missing : List Text} {name : Text}

/-- A node leads to itself, the nodes under it, and what these lead to. -/
def Reaches (walk : NameWalk Node) : Node → Node → Prop := Relation.ReflTransGen fun node part => part ∈ walk.parts node

/-- Whether a node leads to one with a name. -/
def LeadsTo (walk : NameWalk Node) (node : Node) (name : Text) : Prop :=
  ∃ inner, walk.Reaches node inner ∧ name ∈ walk.own inner

/-- The names on a walk that goes over all that nodes lead to, as often as it is led to. -/
inductive Unfolds (walk : NameWalk Node) : List Node → List Text → Prop
  | nil : Unfolds walk [] []
  | cons {node : Node} {rest : List Node} {inner outer : List Text} (under : Unfolds walk (walk.parts node) inner)
      (behind : Unfolds walk rest outer) : Unfolds walk (node :: rest) (walk.own node ++ inner ++ outer)

theorem Unfolds.single (under : walk.Unfolds (walk.parts node) names) :
    walk.Unfolds [node] (walk.own node ++ names) := by
  simpa using under.cons .nil

theorem leadsTo_iff :
    walk.LeadsTo node name ↔ name ∈ walk.own node ∨ ∃ part ∈ walk.parts node, walk.LeadsTo part name := by
  constructor
  · rintro ⟨inner, reaches, own⟩
    rcases Relation.ReflTransGen.cases_head reaches with rfl | ⟨part, under, reaches⟩
    · exact .inl own
    · exact .inr ⟨part, under, inner, reaches, own⟩
  · rintro (own | ⟨part, under, inner, reaches, own⟩)
    · exact ⟨node, .refl, own⟩
    · exact ⟨inner, .head under reaches, own⟩

theorem Unfolds.mem_iff (unfolds : walk.Unfolds nodes names) :
    name ∈ names ↔ ∃ node ∈ nodes, walk.LeadsTo node name := by
  induction unfolds with
  | nil => simp
  | cons _ _ ih_under ih_behind =>
    rw [List.mem_append, List.mem_append, ih_under, ih_behind, List.exists_mem_cons_iff, leadsTo_iff]

theorem Unfolds.append (unfolds : walk.Unfolds nodes names) (later : walk.Unfolds others otherNames) :
    walk.Unfolds (nodes ++ others) (names ++ otherNames) := by
  induction unfolds with
  | nil => exact later
  | cons under _ _ ih =>
    rw [List.append_assoc]
    exact .cons under ih

/-- A walk over nodes in the place of others, with the same names and with the nodes under them in their place. -/
theorem Unfolds.map {other : NameWalk Other} {change : Node → Other}
    (own : ∀ node, other.own (change node) = walk.own node)
    (parts : ∀ node, other.parts (change node) = (walk.parts node).map change) (unfolds : walk.Unfolds nodes names) :
    other.Unfolds (nodes.map change) names := by
  induction unfolds with
  | nil => exact .nil
  | @cons node rest inner outer _ _ ih_under ih_behind =>
    rw [← own, List.map_cons]
    exact .cons (by rwa [parts]) ih_behind

/-- What unfolds does not lead back to itself. -/
theorem Unfolds.acc (unfolds : walk.Unfolds nodes names) (among : node ∈ nodes) :
    Acc (fun part node => part ∈ walk.parts node) node := by
  induction unfolds generalizing node with
  | nil => cases among
  | cons _ _ ih_under ih_behind =>
    rcases List.mem_cons.mp among with rfl | among
    · exact .intro _ fun _ => ih_under
    · exact ih_behind among

theorem not_reaches_of_acc (accessible : Acc (fun part node => part ∈ walk.parts node) node)
    (under : part ∈ walk.parts node) : ¬ walk.Reaches part node := by
  induction accessible generalizing part with
  | intro node _ ih =>
    intro reaches
    rcases Relation.ReflTransGen.cases_head reaches with rfl | ⟨next, child, reaches⟩
    · exact ih _ under under .refl
    · exact ih part under child (reaches.tail under)

theorem exists_unfolds_of_forall (parts : ∀ node ∈ nodes, ∃ inner, walk.Unfolds (walk.parts node) inner) :
    ∃ names, walk.Unfolds nodes names := by
  induction nodes with
  | nil => exact ⟨[], .nil⟩
  | cons node rest ih =>
    obtain ⟨⟨inner, under⟩, later⟩ := List.forall_mem_cons.mp parts
    obtain ⟨outer, behind⟩ := ih later
    exact ⟨_, .cons under behind⟩

theorem exists_unfolds (grounded : WellFounded fun part node => part ∈ walk.parts node) (nodes : List Node) :
    ∃ names, walk.Unfolds nodes names := by
  have single (node : Node) : ∃ inner, walk.Unfolds (walk.parts node) inner := by
    induction node using grounded.induction with
    | _ node ih => exact exists_unfolds_of_forall ih
  exact exists_unfolds_of_forall fun node _ => single node

/-- Whether the names that a node leads to have been found, as far as nothing binds them. -/
def Settled (walk : NameWalk Node) (bindings : Bindings) (missing : List Text) (node : Node) : Prop :=
  ∀ name, walk.LeadsTo node name → bindings.hasRule name = false → name ∈ missing

theorem Settled.of_reaches (settled : walk.Settled bindings missing node) (reaches : walk.Reaches node part) :
    walk.Settled bindings missing part := by
  rintro name ⟨inner, further, own⟩ unbound
  exact settled name ⟨inner, reaches.trans further, own⟩ unbound

theorem Settled.noteNames (settled : walk.Settled bindings missing node) (names : List Text) :
    walk.Settled bindings (noteNames bindings missing names) node := fun name leads unbound =>
  Grammar.mem_noteNames_iff.mpr (.inl (settled name leads unbound))

/-- What was gone over is settled. -/
theorem Unfolds.settled (unfolds : walk.Unfolds nodes names) (bindings : Bindings) (missing : List Text)
    (among : node ∈ nodes) : walk.Settled bindings (noteNames bindings missing names) node :=
  fun _ leads unbound => Grammar.mem_noteNames_iff.mpr (.inr ⟨unfolds.mem_iff.mpr ⟨node, among, leads⟩, unbound⟩)

/-- Going once more over nodes that are settled finds nothing. -/
theorem Unfolds.noteNames_eq (unfolds : walk.Unfolds nodes names)
    (settled : ∀ node ∈ nodes, walk.Settled bindings missing node) : noteNames bindings missing names = missing :=
  Grammar.noteNames_of_noted fun name member unbound => by
    obtain ⟨node, among, leads⟩ := unfolds.mem_iff.mp member
    exact settled node among name leads unbound

/-- Leaving out nodes that are settled does not change what is found. -/
theorem Unfolds.filter (unfolds : walk.Unfolds nodes names) (keep : Node → Bool) :
    ∃ kept, walk.Unfolds (nodes.filter keep) kept ∧ ∀ bindings missing,
      (∀ node, keep node = false → walk.Settled bindings missing node) →
        noteNames bindings missing kept = noteNames bindings missing names := by
  induction unfolds with
  | nil => exact ⟨[], .nil, fun _ _ _ => rfl⟩
  | @cons node rest inner outer under behind _ ih_behind =>
    obtain ⟨kept, unfolds, same⟩ := ih_behind
    cases keeps : keep node with
    | true =>
      refine ⟨walk.own node ++ inner ++ kept, ?_, fun bindings missing settled => ?_⟩
      · rw [List.filter_cons_of_pos keeps]
        exact .cons under unfolds
      · rw [Grammar.noteNames_append, Grammar.noteNames_append _ outer]
        exact same bindings _ fun node left => (settled node left).noteNames _
    | false =>
      refine ⟨kept, ?_, fun bindings missing settled => ?_⟩
      · rwa [List.filter_cons_of_neg (by simp [keeps])]
      · rw [same bindings missing settled, Grammar.noteNames_append, under.single.noteNames_eq]
        exact List.forall_mem_singleton.mpr (settled node keeps)

end NameWalk

/-- A search with a stack of nodes. It passes over a node when it has been there; otherwise it notes the names of the node,
puts the nodes under it on the stack, and has then been there. -/
structure StackSearch {Node : Type} (walk : NameWalk Node) (bindings : Bindings) (State : Type) where
  run : State → List Text → List Node → List Text
  been : State → Node → Prop
  ending (state : State) (missing : List Text) : run state missing [] = missing
  passing (state : State) (missing : List Text) (node : Node) (rest : List Node) :
    been state node → run state missing (node :: rest) = run state missing rest
  looking (state : State) (missing : List Text) (node : Node) (rest : List Node) : ¬ been state node →
    ∃ after, (∀ other, been after other → been state other ∨ other = node) ∧
      run state missing (node :: rest) = run after (noteNames bindings missing (walk.own node)) (walk.parts node ++ rest)

namespace StackSearch

variable {Node State : Type} {walk : NameWalk Node} {bindings : Bindings} {nodes : List Node} {names : List Text}

/-- A search goes over the nodes on top of its stack before it comes to the rest, and notes their names in the order of the
walk over everything, provided that what it has been to among all that they lead to is settled. -/
theorem exists_run_append (search : StackSearch walk bindings State) (unfolds : walk.Unfolds nodes names) (state : State)
    (missing : List Text) (rest : List Node)
    (settled : ∀ inner, search.been state inner → (∃ node ∈ nodes, walk.Reaches node inner) →
      walk.Settled bindings missing inner) :
    ∃ after, (∀ inner, search.been after inner → search.been state inner ∨ ∃ node ∈ nodes, walk.Reaches node inner) ∧
      search.run state missing (nodes ++ rest) = search.run after (noteNames bindings missing names) rest := by
  induction unfolds generalizing state missing rest with
  | nil => exact ⟨state, fun inner => .inl, rfl⟩
  | @cons node behindNodes inner outer under behind ih_under ih_behind =>
    have whole := under.single
    simp only [List.exists_mem_cons_iff] at settled ⊢
    rw [List.cons_append]
    by_cases known : search.been state node
    · have same : noteNames bindings missing (walk.own node ++ inner) = missing :=
        whole.noteNames_eq (List.forall_mem_singleton.mpr (settled node known (.inl .refl)))
      obtain ⟨after, bounded, runs⟩ := ih_behind state missing rest fun inner was shown => settled inner was (.inr shown)
      refine ⟨after, fun inner was => (bounded inner was).imp_right .inr, ?_⟩
      rw [search.passing _ _ _ _ known, runs, Grammar.noteNames_append _ outer, same]
    · obtain ⟨entered, within, looks⟩ := search.looking state missing node (behindNodes ++ rest) known
      obtain ⟨left, boundedUnder, runsUnder⟩ := ih_under entered (noteNames bindings missing (walk.own node))
        (behindNodes ++ rest) fun other was shown => by
          obtain ⟨part, child, reaches⟩ := shown
          rcases within other was with was | rfl
          · exact (settled other was (.inl (.head child reaches))).noteNames _
          · exact absurd reaches (NameWalk.not_reaches_of_acc (whole.acc (List.mem_singleton_self _)) child)
      rw [← Grammar.noteNames_append] at runsUnder
      have settledWhole := whole.settled bindings missing (List.mem_singleton_self node)
      -- What was entered on the way is the node, or lies under it, and its names are noted by now.
      have boundedWhole (other : Node) (was : search.been left other) :
          search.been state other ∨ walk.Reaches node other := by
        rcases boundedUnder other was with was | ⟨part, child, reaches⟩
        · exact (within other was).imp_right (by rintro rfl; exact .refl)
        · exact .inr (.head child reaches)
      obtain ⟨after, bounded, runs⟩ := ih_behind left (noteNames bindings missing (walk.own node ++ inner)) rest
        fun other was shown => by
          rcases boundedWhole other was with was | reaches
          · exact (settled other was (.inr shown)).noteNames _
          · exact settledWhole.of_reaches reaches
      refine ⟨after, fun other was => ?_, ?_⟩
      · rcases bounded other was with was | shown
        · exact (boundedWhole other was).imp_right .inl
        · exact .inr (.inr shown)
      · rw [looks, runsUnder, runs, Grammar.noteNames_append _ outer]

/-- A search that has been nowhere that matters finds the names on the walk over everything, in their order. -/
theorem run_eq (search : StackSearch walk bindings State) (unfolds : walk.Unfolds nodes names) (state : State)
    (fresh : ∀ node, search.been state node → walk.Settled bindings [] node) :
    search.run state [] nodes = noteNames bindings [] names := by
  obtain ⟨after, -, runs⟩ := search.exists_run_append unfolds state [] [] fun inner was _ => fresh inner was
  rw [← List.append_nil nodes, runs, search.ending]

end StackSearch

end TokenGrammar
