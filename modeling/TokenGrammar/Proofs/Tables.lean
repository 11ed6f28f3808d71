import TokenGrammar.Context
import TokenGrammar.Proofs.Stateful

namespace TokenGrammar

namespace Table

variable {table before middle after : Table} {name : Text} {rule : Rule} {resolver : Resolver} {id : Nat}

def names (table : Table) : List Text := table.ruleNames ++ table.dynamics.keys

/-- A table is regular when its rules are numbered in the order of their names, each name is bound once, be it to a rule
or to a resolver, and no name is empty. -/
structure Regular (table : Table) : Prop where
  numbered : table.ids.map Prod.snd = List.range table.rules.size
  nodup : table.names.Nodup
  nonempty : ("" : Text) ∉ table.names

/-- A name can be bound while the table is open, if it is not empty and not bound yet. -/
structure Definable (table : Table) (name : Text) : Prop where
  isOpen : table.isSealed = false
  nonempty : name ≠ ""
  unbound : name ∉ table.names

/-- A name is bound to a rule of a number in all ways in which it is looked up. -/
structure Binds (table : Table) (id : Nat) (name : Text) (rule : Rule) : Prop where
  ruleId_eq : table.ruleId? name = some id
  ruleAt_eq : table.ruleAt (.ofNat id) = .ok rule
  rule_eq : table.rule? name = some rule

/-- A later table extends an earlier one when it only appends to it, and nothing once it was closed. -/
structure Extends (after before : Table) : Prop where
  rules : before.rules.toList <+: after.rules.toList
  ids : before.ids <+: after.ids
  dynamics : before.dynamics <+: after.dynamics
  final : before.isSealed = true → after = before

/-- A later table keeps an earlier one when it binds every name that was bound to what it was bound to, and is the same
once that was closed. -/
structure Keeps (after before : Table) : Prop where
  binds : ∀ id name rule, before.Binds id name rule → after.Binds id name rule
  resolves : ∀ name resolver, before.resolver? name = some resolver → after.resolver? name = some resolver
  final : before.isSealed = true → after = before

/-- The table in which one more rule has a name. -/
def withRule (table : Table) (name : Text) (rule : Rule) : Table :=
  { table with rules := table.rules.push rule, ids := table.ids ++ [(name, table.rules.size)] }

/-- The table in which one more resolver has a name. -/
def withResolver (table : Table) (name : Text) (resolver : Resolver) : Table :=
  { table with dynamics := table.dynamics ++ [(name, resolver)] }

@[simp] theorem ruleNames_withRule (table : Table) (name : Text) (rule : Rule) :
    (table.withRule name rule).ruleNames = table.ruleNames ++ [name] := by
  simp [withRule, ruleNames, Entries.keys]

@[simp] theorem ruleNames_withResolver (table : Table) (name : Text) (resolver : Resolver) :
    (table.withResolver name resolver).ruleNames = table.ruleNames := rfl

@[simp] theorem ruleNames_sealed (table : Table) : ({ table with isSealed := true } : Table).ruleNames = table.ruleNames :=
  rfl

theorem hasRule_eq_false_iff : table.hasRule name = false ↔ name ∉ table.ruleNames := by
  rw [hasRule, Option.isSome_eq_false_iff, Option.isNone_iff_eq_none]
  exact Entries.lookup_eq_none_iff

theorem hasDynamic_eq_false_iff : table.hasDynamic name = false ↔ name ∉ table.dynamics.keys := by
  rw [hasDynamic, Option.isSome_eq_false_iff, Option.isNone_iff_eq_none]
  exact Entries.lookup_eq_none_iff

theorem unbound_iff : (!table.hasRule name && !table.hasDynamic name) = true ↔ name ∉ table.names := by
  rw [Bool.and_eq_true, Bool.not_eq_true', Bool.not_eq_true', hasRule_eq_false_iff, hasDynamic_eq_false_iff, names,
    List.mem_append, not_or]

theorem Regular.ruleId?_eq_some_iff (regular : table.Regular) :
    table.ruleId? name = some id ↔ table.ruleNames[id]? = some name := by
  -- The number of an entry is its place.
  have numbered (place : Nat) (entry : Text × Nat) (there : table.ids[place]? = some entry) : entry.2 = place := by
    have number : (table.ids.map Prod.snd)[place]? = some entry.2 := by rw [List.getElem?_map, there]; rfl
    rw [regular.numbered] at number
    obtain ⟨inside, same⟩ := List.getElem?_eq_some_iff.mp number
    rw [← same, List.getElem_range]
  have once : table.ids.keys.Nodup := (List.nodup_append.mp regular.nodup).1
  rw [ruleId?, Entries.lookup_eq_some_iff_mem once, ruleNames, Entries.keys, List.getElem?_map, Option.map_eq_some_iff]
  constructor
  · intro member
    obtain ⟨place, there⟩ := List.mem_iff_getElem?.mp member
    obtain rfl : id = place := numbered place _ there
    exact ⟨_, there, rfl⟩
  · rintro ⟨⟨_, number⟩, there, rfl⟩
    obtain rfl : number = id := numbered id _ there
    exact List.mem_of_getElem? there

theorem Regular.binds_iff (regular : table.Regular) :
    table.Binds id name rule ↔ table.ruleNames[id]? = some name ∧ table.rules[id]? = some rule := by
  constructor
  · rintro ⟨numbered, -, found⟩
    rw [rule?, numbered] at found
    exact ⟨regular.ruleId?_eq_some_iff.mp numbered, found⟩
  · rintro ⟨named, kept⟩
    have numbered := regular.ruleId?_eq_some_iff.mpr named
    exact ⟨numbered, by simp [ruleAt, kept], by simp [rule?, numbered, kept]⟩

theorem Regular.length_ruleNames (regular : table.Regular) : table.ruleNames.length = table.rules.size := by
  have lengths := congrArg List.length regular.numbered
  simpa [ruleNames, Entries.keys] using lengths

/-- The rule of a name is one of a number. -/
theorem Regular.rule?_eq_some_iff (regular : table.Regular) :
    table.rule? name = some rule ↔ ∃ id, table.Binds id name rule := by
  constructor
  · intro found
    obtain ⟨id, numbered, kept⟩ := Option.bind_eq_some_iff.mp found
    exact ⟨id, regular.binds_iff.mpr ⟨regular.ruleId?_eq_some_iff.mp numbered, kept⟩⟩
  · rintro ⟨id, binds⟩
    exact binds.rule_eq

theorem Regular.resolver?_eq_some_iff (regular : table.Regular) :
    table.resolver? name = some resolver ↔ (name, resolver) ∈ table.dynamics :=
  Entries.lookup_eq_some_iff_mem (List.nodup_append.mp regular.nodup).2.1

theorem regular_empty : ({} : Table).Regular := ⟨rfl, List.nodup_nil, List.not_mem_nil⟩

theorem Regular.withRule (regular : table.Regular) (definable : table.Definable name) (rule : Rule) :
    (table.withRule name rule).Regular := by
  have names_eq : (table.withRule name rule).names = table.ruleNames ++ name :: table.dynamics.keys := by
    simp [Table.withRule, names, ruleNames, Entries.keys]
  have moved : (table.ruleNames ++ name :: table.dynamics.keys).Perm (name :: table.names) := List.perm_middle
  constructor
  · simp [Table.withRule, regular.numbered, List.range_succ]
  · rw [names_eq, moved.nodup_iff]
    exact List.nodup_cons.mpr ⟨definable.unbound, regular.nodup⟩
  · rw [names_eq, moved.mem_iff]
    exact List.not_mem_cons_of_ne_of_not_mem definable.nonempty.symm regular.nonempty

theorem Regular.withResolver (regular : table.Regular) (definable : table.Definable name) (resolver : Resolver) :
    (table.withResolver name resolver).Regular := by
  have names_eq : (table.withResolver name resolver).names = table.names ++ [name] := by
    simp [Table.withResolver, names, ruleNames, Entries.keys]
  constructor
  · exact regular.numbered
  · rw [names_eq, (List.perm_append_singleton name table.names).nodup_iff]
    exact List.nodup_cons.mpr ⟨definable.unbound, regular.nodup⟩
  · rw [names_eq, List.mem_append, not_or]
    exact ⟨regular.nonempty, by simpa using definable.nonempty.symm⟩

theorem Extends.refl (table : Table) : table.Extends table :=
  ⟨List.prefix_refl _, List.prefix_refl _, List.prefix_refl _, fun _ => rfl⟩

theorem Extends.trans (first : middle.Extends before) (second : after.Extends middle) : after.Extends before where
  rules := first.rules.trans second.rules
  ids := first.ids.trans second.ids
  dynamics := first.dynamics.trans second.dynamics
  final isSealed := by
    obtain rfl := first.final isSealed
    exact second.final isSealed

theorem Definable.extends_withRule (definable : table.Definable name) (rule : Rule) :
    (table.withRule name rule).Extends table where
  rules := by simp [withRule]
  ids := List.prefix_append _ _
  dynamics := List.prefix_refl _
  final isSealed := by simp [definable.isOpen] at isSealed

theorem Definable.extends_withResolver (definable : table.Definable name) (resolver : Resolver) :
    (table.withResolver name resolver).Extends table where
  rules := List.prefix_refl _
  ids := List.prefix_refl _
  dynamics := List.prefix_append _ _
  final isSealed := by simp [definable.isOpen] at isSealed

theorem extends_sealed (table : Table) : ({ table with isSealed := true } : Table).Extends table where
  rules := List.prefix_refl _
  ids := List.prefix_refl _
  dynamics := List.prefix_refl _
  final isSealed := by rw [← isSealed]

/-- What a name is bound to it stays bound to. -/
theorem Extends.keeps (extend : after.Extends before) (regular : before.Regular) (regular' : after.Regular) :
    after.Keeps before where
  binds id name rule binds := by
    rw [regular.binds_iff] at binds
    obtain ⟨named, kept⟩ := binds
    rw [regular'.binds_iff]
    constructor
    · obtain ⟨later, same⟩ := extend.ids
      obtain ⟨inside, -⟩ := List.getElem?_eq_some_iff.mp named
      rw [ruleNames, Entries.keys, ← same, List.map_append]
      exact (List.getElem?_append_left inside).trans named
    · obtain ⟨later, same⟩ := extend.rules
      rw [← Array.getElem?_toList] at kept ⊢
      obtain ⟨inside, -⟩ := List.getElem?_eq_some_iff.mp kept
      rw [← same, List.getElem?_append_left inside, kept]
  resolves name resolver resolves := by
    rw [regular.resolver?_eq_some_iff] at resolves
    exact regular'.resolver?_eq_some_iff.mpr (extend.dynamics.subset resolves)
  final := extend.final

end Table

namespace Arena

variable {arena : Arena} {self target : Nat} {table other : Table}

/-- A context of an arena points at one of its tables. -/
structure Has (arena : Arena) (scope : Nat) : Prop where
  context : scope < arena.contexts.size
  table : (arena.cellOf scope).table < arena.tables.size

@[simp] theorem cellOf_setTable : (arena.setTable self table).cellOf target = arena.cellOf target := rfl

@[simp] theorem setTable_setTable : (arena.setTable self table).setTable self other = arena.setTable self other := by
  simp [setTable, cellOf]

/-- A table is replaced for all contexts that point at it. -/
theorem tableOf_setTable (has : arena.Has self) : (arena.setTable self table).tableOf target =
    if (arena.cellOf self).table = (arena.cellOf target).table then table else arena.tableOf target := by
  rw [tableOf, cellOf_setTable, setTable, Array.getD_eq_getD_getElem?, Array.getElem?_setIfInBounds, if_pos has.table]
  split
  · rfl
  · rw [tableOf, Array.getD_eq_getD_getElem?]

theorem tableOf_setTable_self (has : arena.Has self) : (arena.setTable self table).tableOf self = table := by
  rw [tableOf_setTable has, if_pos rfl]

theorem cellOf_setCell (inside : self < arena.contexts.size) (cell : ContextCell) :
    (arena.setCell self cell).cellOf target = if self = target then cell else arena.cellOf target := by
  rw [setCell, cellOf, Array.getD_eq_getD_getElem?, Array.getElem?_setIfInBounds, if_pos inside]
  split
  · rfl
  · rw [cellOf, Array.getD_eq_getD_getElem?]

theorem cellOf_setCaptures (has : self < arena.contexts.size) (captures : Captures) :
    (arena.setCaptures self captures).cellOf target =
      if self = target then { arena.cellOf self with captures } else arena.cellOf target :=
  cellOf_setCell has _

theorem capturesOf_setCaptures (inside : self < arena.contexts.size) (captures : Captures) :
    (arena.setCaptures self captures).capturesOf target = if self = target then captures else arena.capturesOf target := by
  rw [capturesOf, cellOf_setCaptures inside]
  split <;> rfl

/-- What is captured changes no table, and no context's way to its table. -/
theorem tableOf_setCaptures (captures : Captures) : (arena.setCaptures self captures).tableOf target = arena.tableOf target := by
  have same : ((arena.setCaptures self captures).cellOf target).table = (arena.cellOf target).table := by
    rw [setCaptures, setCell, cellOf, Array.getD_eq_getD_getElem?, Array.getElem?_setIfInBounds]
    split
    · rename_i same
      subst same
      split
      · rfl
      · rename_i outside
        rw [cellOf, Array.getD_eq_getD_getElem?, Array.getElem?_eq_none (Nat.not_lt.mp outside)]
    · rw [cellOf, Array.getD_eq_getD_getElem?]
  rw [tableOf, same]
  rfl

/-- A fork points where the context does, and has captured nothing. -/
theorem cellOf_fork_self : (arena.fork self).2.cellOf (arena.fork self).1 = { table := (arena.cellOf self).table } := by
  have inside : arena.create.1 < arena.create.2.contexts.size := by simp [create]
  rw [fork, cellOf_setCell inside, if_pos rfl]
  simp [create, cellOf]

theorem getElem?_contexts_fork (inside : target < arena.contexts.size) :
    (arena.fork self).2.contexts[target]? = arena.contexts[target]? := by
  simp [fork, setCell, create, Array.getElem?_push, Nat.ne_of_lt inside,
    Nat.ne_of_gt inside]

theorem cellOf_fork (inside : target < arena.contexts.size) : (arena.fork self).2.cellOf target = arena.cellOf target := by
  rw [cellOf, cellOf, Array.getD_eq_getD_getElem?, Array.getD_eq_getD_getElem?, getElem?_contexts_fork inside]

theorem tables_fork : (arena.fork self).2.tables = arena.tables.push {} := rfl

/-- The table of a fork is that of the context. -/
theorem tableOf_fork_self : (arena.fork self).2.tableOf (arena.fork self).1 = arena.tableOf self := by
  rw [tableOf, cellOf_fork_self, tables_fork, tableOf, Array.getD_eq_getD_getElem?, Array.getD_eq_getD_getElem?,
    Array.getElem?_push]
  split
  · rename_i last
    rw [last, Array.getElem?_eq_none (Nat.le_refl _)]
    rfl
  · rfl

end Arena

namespace Context

variable {arena : Arena} {self : Nat} {name key : Text} {rule : Rule} {resolver : Resolver}

/-- A demand is met, or it stops the work and leaves everything as it is. -/
theorem demand_bind_apply {α : Type} {condition : Bool} {fault : Fault} {next : Unit → Contextual α} :
    (demand condition fault >>= next) arena = if condition then next () arena else .error fault arena := by
  rw [Stateful.bind_apply, demand]
  cases condition <;> rfl

theorem table_bind_apply {α : Type} {next : Table → Contextual α} :
    (table self >>= next) arena = next (arena.tableOf self) arena := rfl

/-- A name that can be bound passes the check, and for any other one it stops the work before anything is stored. -/
theorem checkDefinable_cases (arena : Arena) (self : Nat) (name : Text) :
    ((arena.tableOf self).Definable name ∧ checkDefinable self name arena = .ok () arena) ∨
      ¬ (arena.tableOf self).Definable name ∧ ∃ fault, checkDefinable self name arena = .error fault arena := by
  rw [checkDefinable, table_bind_apply, demand_bind_apply]
  split
  · rename_i isOpen
    rw [demand_bind_apply]
    split
    · rename_i nonempty
      rw [demand]
      split
      · rename_i unbound
        exact .inl ⟨⟨by simpa using isOpen, by simpa using nonempty, Table.unbound_iff.mp unbound⟩, rfl⟩
      · rename_i bound
        exact .inr ⟨fun definable => bound (Table.unbound_iff.mpr definable.unbound), _, rfl⟩
    · rename_i empty
      exact .inr ⟨fun definable => empty (by simpa using definable.nonempty), _, rfl⟩
  · rename_i isSealed
    exact .inr ⟨fun definable => isSealed (by simp [definable.isOpen]), _, rfl⟩

/-- To define a rule is to store it at the next number and the number under the name, or to change nothing. -/
theorem defineRule_cases (has : arena.Has self) (name : Text) (rule : Rule) :
    ((arena.tableOf self).Definable name ∧ defineRule self name rule arena =
        .ok (arena.tableOf self).rules.size (arena.setTable self ((arena.tableOf self).withRule name rule))) ∨
      ¬ (arena.tableOf self).Definable name ∧ ∃ fault, defineRule self name rule arena = .error fault arena := by
  rw [defineRule, Stateful.bind_apply]
  rcases checkDefinable_cases arena self name with ⟨definable, checked⟩ | ⟨bound, fault, checked⟩
  · refine .inl ⟨definable, ?_⟩
    have fresh : name ∉ (arena.tableOf self).ids.keys := fun member =>
      definable.unbound (List.mem_append_left _ member)
    rw [checked]
    simp only [Stateful.bind_apply, table, changeTable, Arena.tableOf_setTable_self has, Arena.setTable_setTable,
      Entries.put_of_not_mem fresh]
    rfl
  · rw [checked]
    exact .inr ⟨bound, fault, rfl⟩

/-- To define a resolver is to store it under the name, or to change nothing. -/
theorem defineDynamic_cases (arena : Arena) (self : Nat) (name : Text) (resolver : Resolver) :
    ((arena.tableOf self).Definable name ∧ defineDynamic self name resolver arena =
        .ok () (arena.setTable self ((arena.tableOf self).withResolver name resolver))) ∨
      ¬ (arena.tableOf self).Definable name ∧ ∃ fault, defineDynamic self name resolver arena = .error fault arena := by
  rw [defineDynamic, Stateful.bind_apply]
  rcases checkDefinable_cases arena self name with ⟨definable, checked⟩ | ⟨bound, fault, checked⟩
  · refine .inl ⟨definable, ?_⟩
    have fresh : name ∉ (arena.tableOf self).dynamics.keys := fun member =>
      definable.unbound (List.mem_append_right _ member)
    rw [checked]
    simp only [changeTable, Entries.put_of_not_mem fresh]
    rfl
  · rw [checked]
    exact .inr ⟨bound, fault, rfl⟩

/-- To capture tokens is to keep them under the key, or to change nothing. -/
theorem captureTokens_cases (arena : Arena) (self : Nat) (key : Text) (tokens : List Token) :
    (key ≠ "" ∧ captureTokens self key tokens arena =
        .ok () (arena.setCaptures self ((arena.capturesOf self).keep key tokens))) ∨
      key = "" ∧ captureTokens self key tokens arena = .error .emptyCaptureKey arena := by
  rw [captureTokens, demand_bind_apply]
  by_cases empty : key = ""
  · exact .inr ⟨empty, if_neg (by simpa using empty)⟩
  · exact .inl ⟨empty, if_pos (by simpa using empty)⟩

end Context

end TokenGrammar
