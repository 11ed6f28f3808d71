import TokenGrammar.Proofs.Reach
import TokenGrammar.Proofs.Tables

namespace TokenGrammar

/-- The calls on a context that may change something. -/
inductive ContextCall where
  | defineRule (name : Text) (rule : Rule)
  | defineDynamic (name : Text) (resolver : Resolver)
  | close
  | fork
  | capture (key : Text) (tokens : List Token)
  | clearCaptures

/-- What a call on a context answers: the number of a rule, the number of a new context, or nothing in particular. -/
inductive ContextAnswer where
  | done
  | ruleId (id : Nat)
  | context (scope : Nat)

/-- A call on a context, and what came of it. -/
structure ContextEvent where
  scope : Nat
  call : ContextCall
  outcome : Except Fault ContextAnswer

namespace ContextEvent

/-- The number that was given to a rule. -/
def ruleId? : ContextEvent → Option Nat
  | ⟨_, _, .ok (.ruleId id)⟩ => some id
  | _ => none

/-- The rule that was bound, with its name. -/
def rule? : ContextEvent → Option (Text × Rule)
  | ⟨_, .defineRule name rule, .ok _⟩ => some (name, rule)
  | _ => none

/-- The resolver that was bound, with its name. -/
def resolver? : ContextEvent → Option (Text × Resolver)
  | ⟨_, .defineDynamic name resolver, .ok _⟩ => some (name, resolver)
  | _ => none

def closes : ContextEvent → Bool
  | ⟨_, .close, .ok _⟩ => true
  | _ => false

/-- What is kept under a key behind a call on the context that keeps it. -/
def kept (key : Text) (before : Option (List Token)) : ContextEvent → Option (List Token)
  | ⟨_, .capture other tokens, .ok _⟩ => if other = key then some tokens else before
  | ⟨_, .clearCaptures, .ok _⟩ => none
  | _ => before

/-- What the calls on one context leave under a key. -/
def keptIn (scope : Nat) (key : Text) (events : List ContextEvent) : Option (List Token) :=
  (events.filter fun event => event.scope = scope).foldl (kept key) none

theorem keptIn_append_singleton (target : Nat) (key : Text) (events : List ContextEvent) (event : ContextEvent) :
    keptIn target key (events ++ [event]) =
      if event.scope = target then event.kept key (keptIn target key events) else keptIn target key events := by
  by_cases same : event.scope = target
  · simp [keptIn, same]
  · simp [keptIn, same]

end ContextEvent

namespace ContextCall

def run (scope : Nat) : ContextCall → Contextual ContextAnswer
  | .defineRule name rule => return .ruleId (← Context.defineRule scope name rule)
  | .defineDynamic name resolver => do
    Context.defineDynamic scope name resolver
    return .done
  | .close => do
    Context.close scope
    return .done
  | .fork => return .context (← Context.fork scope)
  | .capture key tokens => do
    Context.captureTokens scope key tokens
    return .done
  | .clearCaptures => do
    Context.clearCaptures scope
    return .done

end ContextCall

namespace Arena

/-- Makes a call on a context, and leaves the arena as the call does. -/
def perform (arena : Arena) (scope : Nat) (call : ContextCall) : ContextEvent × Arena :=
  match call.run scope arena with
  | .ok answer after => (⟨scope, call, .ok answer⟩, after)
  | .error fault after => (⟨scope, call, .error fault⟩, after)

/-- Calls made one after the other on contexts that are new in an arena, those that there are by then. -/
inductive Continued (base first : Arena) : List ContextEvent → Arena → Prop
  | none : Continued base first [] first
  | next {events : List ContextEvent} {middle : Arena} (continued : Continued base first events middle) {scope : Nat}
      (fresh : base.contexts.size ≤ scope) (inside : scope < middle.contexts.size) (call : ContextCall) :
      Continued base first (events ++ [(middle.perform scope call).1]) (middle.perform scope call).2

/-- Calls on one new context and on its forks. -/
abbrev Performed (base : Arena) : List ContextEvent → Arena → Prop := Continued base base.create.2

variable {base first arena middle after : Arena} {events later : List ContextEvent} {scope target : Nat}

/-- What a context shows follows from the calls made on it and on the contexts that share its table. -/
structure Follows (arena : Arena) (scope : Nat) (events : List ContextEvent) : Prop where
  ruleIds : events.filterMap ContextEvent.ruleId? = List.range (arena.tableOf scope).ruleNames.length
  ruleNames : (arena.tableOf scope).ruleNames = (events.filterMap ContextEvent.rule?).map Prod.fst
  binds_iff : ∀ id name rule, (arena.tableOf scope).Binds id name rule ↔
    (events.filterMap ContextEvent.rule?)[id]? = some (name, rule)
  rule_iff : ∀ name rule, (arena.tableOf scope).rule? name = some rule ↔
    (name, rule) ∈ events.filterMap ContextEvent.rule?
  dynamicNames : (arena.tableOf scope).dynamics.keys = (events.filterMap ContextEvent.resolver?).map Prod.fst
  resolver_iff : ∀ name resolver, (arena.tableOf scope).resolver? name = some resolver ↔
    (name, resolver) ∈ events.filterMap ContextEvent.resolver?
  regular : (arena.tableOf scope).Regular
  isSealed : (arena.tableOf scope).isSealed = events.any ContextEvent.closes
  captures : ∀ key, (arena.capturesOf scope).find? key = ContextEvent.keptIn scope key events

def Effect (arena : Arena) (scope : Nat) (answer : ContextAnswer) (after : Arena) : ContextCall → Prop
  | .defineRule name rule =>
    (arena.tableOf scope).Definable name ∧ answer = .ruleId (arena.tableOf scope).rules.size ∧
      after = arena.setTable scope ((arena.tableOf scope).withRule name rule)
  | .defineDynamic name resolver =>
    (arena.tableOf scope).Definable name ∧ answer = .done ∧
      after = arena.setTable scope ((arena.tableOf scope).withResolver name resolver)
  | .close => answer = .done ∧ after = arena.setTable scope { arena.tableOf scope with isSealed := true }
  | .fork => answer = .context arena.contexts.size ∧ after = (arena.fork scope).2
  | .capture key tokens =>
    key ≠ "" ∧ answer = .done ∧ after = arena.setCaptures scope ((arena.capturesOf scope).keep key tokens)
  | .clearCaptures => answer = .done ∧ after = arena.setCaptures scope .empty

/-- A call comes to its effect, or stops before it has changed anything. -/
theorem perform_cases (has : arena.Has scope) (call : ContextCall) :
    (∃ answer after, arena.Effect scope answer after call ∧ arena.perform scope call = (⟨scope, call, .ok answer⟩, after)) ∨
      ∃ fault, arena.perform scope call = (⟨scope, call, .error fault⟩, arena) := by
  cases call with
  | defineRule name rule =>
    rcases Context.defineRule_cases has name rule with ⟨definable, made⟩ | ⟨-, fault, stops⟩
    · refine .inl ⟨_, _, ⟨definable, rfl, rfl⟩, ?_⟩
      rw [perform, ContextCall.run, Stateful.bind_apply, made]
      rfl
    · refine .inr ⟨fault, ?_⟩
      rw [perform, ContextCall.run, Stateful.bind_apply, stops]
  | defineDynamic name resolver =>
    rcases Context.defineDynamic_cases arena scope name resolver with ⟨definable, made⟩ | ⟨-, fault, stops⟩
    · refine .inl ⟨_, _, ⟨definable, rfl, rfl⟩, ?_⟩
      rw [perform, ContextCall.run, Stateful.bind_apply, made]
      rfl
    · refine .inr ⟨fault, ?_⟩
      rw [perform, ContextCall.run, Stateful.bind_apply, stops]
  | capture key tokens =>
    rcases Context.captureTokens_cases arena scope key tokens with ⟨nonempty, made⟩ | ⟨-, stops⟩
    · refine .inl ⟨_, _, ⟨nonempty, rfl, rfl⟩, ?_⟩
      rw [perform, ContextCall.run, Stateful.bind_apply, made]
      rfl
    · refine .inr ⟨.emptyCaptureKey, ?_⟩
      rw [perform, ContextCall.run, Stateful.bind_apply, stops]
  | close | fork | clearCaptures => exact .inl ⟨_, _, ⟨rfl, rfl⟩, rfl⟩

end Arena

namespace Table

variable {table : Table} {events : List ContextEvent} {scope : Nat} {name : Text} {rule : Rule} {resolver : Resolver}

/-- A table records what the calls that succeeded bound. -/
structure Records (table : Table) (events : List ContextEvent) : Prop where
  ruleIds : events.filterMap ContextEvent.ruleId? = List.range table.rules.size
  ruleNames : table.ruleNames = (events.filterMap ContextEvent.rule?).map Prod.fst
  rules : table.rules.toList = (events.filterMap ContextEvent.rule?).map Prod.snd
  dynamics : table.dynamics = events.filterMap ContextEvent.resolver?
  regular : table.Regular
  isSealed : table.isSealed = events.any ContextEvent.closes

theorem records_empty : ({} : Table).Records [] where
  ruleIds := rfl
  ruleNames := rfl
  rules := rfl
  dynamics := rfl
  regular := regular_empty
  isSealed := rfl

/-- A call that binds nothing leaves the record as it is. -/
theorem Records.silent (records : table.Records events) {event : ContextEvent} (noId : event.ruleId? = none)
    (noRule : event.rule? = none) (noResolver : event.resolver? = none) (notClosed : event.closes = false) :
    table.Records (events ++ [event]) where
  ruleIds := by simp [records.ruleIds, noId]
  ruleNames := by simp [records.ruleNames, noRule]
  rules := by simp [records.rules, noRule]
  dynamics := by simp [records.dynamics, noResolver]
  regular := records.regular
  isSealed := by simp [records.isSealed, notClosed]

theorem Records.withRule (records : table.Records events) (definable : table.Definable name) (rule : Rule) :
    (table.withRule name rule).Records
      (events ++ [⟨scope, .defineRule name rule, .ok (.ruleId table.rules.size)⟩]) where
  ruleIds := by simp [Table.withRule, records.ruleIds, ContextEvent.ruleId?, List.range_succ]
  ruleNames := by simp [records.ruleNames, ContextEvent.rule?]
  rules := by simp [Table.withRule, records.rules, ContextEvent.rule?]
  dynamics := by simp [Table.withRule, records.dynamics, ContextEvent.resolver?]
  regular := records.regular.withRule definable rule
  isSealed := by simp [Table.withRule, records.isSealed, ContextEvent.closes]

theorem Records.withResolver (records : table.Records events) (definable : table.Definable name) (resolver : Resolver) :
    (table.withResolver name resolver).Records (events ++ [⟨scope, .defineDynamic name resolver, .ok .done⟩]) where
  ruleIds := by simp [Table.withResolver, records.ruleIds, ContextEvent.ruleId?]
  ruleNames := by simp [records.ruleNames, ContextEvent.rule?]
  rules := by simp [Table.withResolver, records.rules, ContextEvent.rule?]
  dynamics := by simp [Table.withResolver, records.dynamics, ContextEvent.resolver?]
  regular := records.regular.withResolver definable resolver
  isSealed := by simp [Table.withResolver, records.isSealed, ContextEvent.closes]

theorem Records.close (records : table.Records events) :
    ({ table with isSealed := true } : Table).Records (events ++ [⟨scope, .close, .ok .done⟩]) where
  ruleIds := by simp [records.ruleIds, ContextEvent.ruleId?]
  ruleNames := by simp [records.ruleNames, ContextEvent.rule?]
  rules := by simp [records.rules, ContextEvent.rule?]
  dynamics := by simp [records.dynamics, ContextEvent.resolver?]
  regular := ⟨records.regular.numbered, records.regular.nodup, records.regular.nonempty⟩
  isSealed := by simp [ContextEvent.closes]

/-- The named rules of a table are those that the calls bound. -/
theorem Records.binds_iff (records : table.Records events) (id : Nat) :
    table.Binds id name rule ↔ (events.filterMap ContextEvent.rule?)[id]? = some (name, rule) := by
  rw [records.regular.binds_iff, records.ruleNames, ← Array.getElem?_toList, records.rules, List.getElem?_map,
    List.getElem?_map]
  constructor
  · rintro ⟨named, kept⟩
    obtain ⟨entry, there, rfl⟩ := Option.map_eq_some_iff.mp named
    rw [there, Option.map_some, Option.some.injEq] at kept
    rw [there, ← kept]
  · intro there
    rw [there]
    exact ⟨rfl, rfl⟩

theorem Records.rule_iff (records : table.Records events) :
    table.rule? name = some rule ↔ (name, rule) ∈ events.filterMap ContextEvent.rule? := by
  rw [records.regular.rule?_eq_some_iff, List.mem_iff_getElem?]
  exact exists_congr fun id => records.binds_iff id

theorem Records.follows {arena : Arena} (records : (arena.tableOf scope).Records events)
    (captures : ∀ key, (arena.capturesOf scope).find? key = ContextEvent.keptIn scope key events) :
    arena.Follows scope events where
  ruleIds := by rw [records.ruleIds, records.regular.length_ruleNames]
  ruleNames := records.ruleNames
  binds_iff id _ _ := records.binds_iff id
  rule_iff _ _ := records.rule_iff
  dynamicNames := congrArg Entries.keys records.dynamics
  resolver_iff _ _ := records.dynamics ▸ records.regular.resolver?_eq_some_iff
  regular := records.regular
  isSealed := records.isSealed
  captures := captures

end Table

namespace Arena

variable {base first arena middle after : Arena} {events later : List ContextEvent} {scope target : Nat} {table : Table}

/-- The contexts that are new in an arena share a new table, and all else is as it was. -/
structure Beside (base arena : Arena) : Prop where
  contexts : base.contexts.size < arena.contexts.size
  tables : base.tables.size < arena.tables.size
  points : ∀ scope, base.contexts.size ≤ scope → scope < arena.contexts.size →
    (arena.cellOf scope).table = base.tables.size
  otherContexts : ∀ scope < base.contexts.size, arena.contexts[scope]? = base.contexts[scope]?
  otherTables : ∀ address < base.tables.size, arena.tables[address]? = base.tables[address]?

theorem beside_create (base : Arena) : base.Beside base.create.2 where
  contexts := by simp [create]
  tables := by simp [create]
  points scope fresh inside := by
    obtain rfl : scope = base.contexts.size := by
      simp only [create, Array.size_push] at inside
      omega
    simp [create, cellOf]
  otherContexts scope inside := by simp [create, Array.getElem?_push, Nat.ne_of_lt inside]
  otherTables address inside := by simp [create, Array.getElem?_push, Nat.ne_of_lt inside]

theorem Beside.has (beside : base.Beside arena) (fresh : base.contexts.size ≤ scope) (inside : scope < arena.contexts.size) :
    arena.Has scope := ⟨inside, by rw [beside.points scope fresh inside]; exact beside.tables⟩

theorem Beside.tableOf_eq (beside : base.Beside arena) (fresh : base.contexts.size ≤ scope)
    (inside : scope < arena.contexts.size) : arena.tableOf scope = arena.tableOf base.contexts.size := by
  rw [tableOf, tableOf, beside.points scope fresh inside, beside.points _ (Nat.le_refl _) beside.contexts]

theorem Beside.setTable (beside : base.Beside arena) (fresh : base.contexts.size ≤ scope)
    (inside : scope < arena.contexts.size) (table : Table) : base.Beside (arena.setTable scope table) where
  contexts := beside.contexts
  tables := by
    rw [Arena.setTable, Array.size_setIfInBounds]
    exact beside.tables
  points := beside.points
  otherContexts := beside.otherContexts
  otherTables address other := by
    rw [Arena.setTable, Array.getElem?_setIfInBounds, beside.points scope fresh inside, if_neg (Nat.ne_of_gt other)]
    exact beside.otherTables address other

theorem Beside.tableOf_setTable (beside : base.Beside arena) (fresh : base.contexts.size ≤ scope)
    (inside : scope < arena.contexts.size) (table : Table) :
    (arena.setTable scope table).tableOf base.contexts.size = table := by
  rw [Arena.tableOf_setTable (beside.has fresh inside), beside.points scope fresh inside,
    beside.points _ (Nat.le_refl _) beside.contexts, if_pos rfl]

theorem Beside.setCaptures (beside : base.Beside arena) (fresh : base.contexts.size ≤ scope)
    (inside : scope < arena.contexts.size) (captures : Captures) : base.Beside (arena.setCaptures scope captures) where
  contexts := by
    rw [Arena.setCaptures, setCell, Array.size_setIfInBounds]
    exact beside.contexts
  tables := beside.tables
  points target fresh' inside' := by
    have within : target < arena.contexts.size := by
      rwa [Arena.setCaptures, setCell, Array.size_setIfInBounds] at inside'
    rw [cellOf_setCaptures inside]
    split
    · exact beside.points scope fresh inside
    · exact beside.points target fresh' within
  otherContexts target other := by
    rw [Arena.setCaptures, setCell, Array.getElem?_setIfInBounds, if_neg (by omega)]
    exact beside.otherContexts target other
  otherTables := beside.otherTables

theorem Beside.fork (beside : base.Beside arena) (fresh : base.contexts.size ≤ scope)
    (inside : scope < arena.contexts.size) : base.Beside (arena.fork scope).2 where
  contexts := by
    have size : (arena.fork scope).2.contexts.size = arena.contexts.size + 1 := by simp [Arena.fork, setCell, create]
    rw [size]
    exact Nat.lt_succ_of_lt beside.contexts
  tables := by
    rw [tables_fork, Array.size_push]
    exact Nat.lt_succ_of_lt beside.tables
  points target fresh' inside' := by
    by_cases old : target < arena.contexts.size
    · rw [cellOf_fork old]
      exact beside.points target fresh' old
    · obtain rfl : target = (arena.fork scope).1 := by
        simp only [Arena.fork, setCell, create, Array.size_setIfInBounds, Array.size_push] at inside' ⊢
        omega
      rw [cellOf_fork_self]
      exact beside.points scope fresh inside
  otherContexts target other := by
    rw [getElem?_contexts_fork (Nat.lt_trans other beside.contexts)]
    exact beside.otherContexts target other
  otherTables address other := by
    rw [tables_fork, Array.getElem?_push, if_neg (by have := beside.tables; omega)]
    exact beside.otherTables address other

theorem Beside.tableOf_fork (beside : base.Beside arena) (scope : Nat) :
    (arena.fork scope).2.tableOf base.contexts.size = arena.tableOf base.contexts.size := by
  rw [tableOf, cellOf_fork beside.contexts, tables_fork, beside.points _ (Nat.le_refl _) beside.contexts, tableOf,
    beside.points _ (Nat.le_refl _) beside.contexts, Array.getD_eq_getD_getElem?, Array.getElem?_push,
    if_neg (Nat.ne_of_lt beside.tables), Array.getD_eq_getD_getElem?]

/-- A fork has captured as little as a context that there is not. -/
theorem capturesOf_fork (arena : Arena) (scope target : Nat) :
    (arena.fork scope).2.capturesOf target = arena.capturesOf target := by
  by_cases old : target < arena.contexts.size
  · rw [capturesOf, cellOf_fork old, capturesOf]
  · have none : arena.capturesOf target = {} := by
      rw [capturesOf, cellOf, Array.getD_eq_getD_getElem?, Array.getElem?_eq_none (Nat.not_lt.mp old)]
      rfl
    by_cases forked : target = (arena.fork scope).1
    · rw [forked, capturesOf, cellOf_fork_self, ← forked, none]
    · have outside : (arena.fork scope).2.contexts.size ≤ target := by
        simp only [Arena.fork, setCell, create, Array.size_setIfInBounds, Array.size_push] at forked ⊢
        omega
      rw [none, capturesOf, cellOf, Array.getD_eq_getD_getElem?, Array.getElem?_eq_none outside]
      rfl

/-- A call changes what one context captured, the one it is made on. -/
theorem Effect.find? {call : ContextCall} {answer : ContextAnswer} (effect : arena.Effect scope answer after call)
    (inside : scope < arena.contexts.size) (target : Nat) (key : Text) :
    (after.capturesOf target).find? key =
      if scope = target then ContextEvent.kept key ((arena.capturesOf target).find? key) ⟨scope, call, .ok answer⟩
      else (arena.capturesOf target).find? key := by
  cases call with
  | defineRule | defineDynamic =>
    obtain ⟨-, -, rfl⟩ := effect
    exact (ite_self _).symm
  | close =>
    obtain ⟨-, rfl⟩ := effect
    exact (ite_self _).symm
  | fork =>
    obtain ⟨-, rfl⟩ := effect
    rw [capturesOf_fork]
    exact (ite_self _).symm
  | capture other tokens =>
    obtain ⟨-, -, rfl⟩ := effect
    rw [capturesOf_setCaptures inside]
    split
    · rename_i same
      subst same
      by_cases equal : other = key
      · subst equal
        simp [ContextEvent.kept, Captures.find?_keep_self]
      · simp [ContextEvent.kept, equal, Captures.find?_keep_other _ _ (Ne.symm equal)]
    · rfl
  | clearCaptures =>
    obtain ⟨-, rfl⟩ := effect
    rw [capturesOf_setCaptures inside]
    split
    · simp [ContextEvent.kept]
    · rfl

/-- What is known of an arena in which calls were made on a context that is new there and on its forks. -/
structure Recorded (base arena : Arena) (events : List ContextEvent) : Prop where
  beside : base.Beside arena
  records : (arena.tableOf base.contexts.size).Records events
  captures : ∀ target key, base.contexts.size ≤ target →
    (arena.capturesOf target).find? key = ContextEvent.keptIn target key events

theorem recorded_create (base : Arena) : base.Recorded base.create.2 [] where
  beside := base.beside_create
  records := by
    have fresh : base.create.2.tableOf base.contexts.size = {} := by simp [create, tableOf, cellOf]
    rw [fresh]
    exact Table.records_empty
  captures target key fresh := by
    have none : base.create.2.capturesOf target = {} := by
      rw [create, capturesOf, cellOf, Array.getD_eq_getD_getElem?, Array.getElem?_push]
      split
      · rfl
      · rw [Array.getElem?_eq_none (by omega)]
        rfl
    rw [none]
    rfl

/-- A call that stops leaves what is known as it is. -/
theorem Recorded.refused (recorded : base.Recorded arena events) (scope : Nat) (call : ContextCall) (fault : Fault) :
    base.Recorded arena (events ++ [⟨scope, call, .error fault⟩]) where
  beside := recorded.beside
  records := by cases call <;> exact recorded.records.silent rfl rfl rfl rfl
  captures target key fresh := by
    rw [ContextEvent.keptIn_append_singleton, recorded.captures target key fresh]
    cases call <;> exact (ite_self _).symm

/-- A call that succeeds is recorded by its effect. -/
theorem Recorded.succeeded {call : ContextCall} {answer : ContextAnswer} (recorded : base.Recorded arena events)
    (fresh : base.contexts.size ≤ scope) (inside : scope < arena.contexts.size)
    (effect : arena.Effect scope answer after call) : base.Recorded after (events ++ [⟨scope, call, .ok answer⟩]) := by
  have captures (target : Nat) (key : Text) (fresh : base.contexts.size ≤ target) :
      (after.capturesOf target).find? key =
        ContextEvent.keptIn target key (events ++ [⟨scope, call, .ok answer⟩]) := by
    rw [effect.find? inside, ContextEvent.keptIn_append_singleton, recorded.captures target key fresh]
  obtain ⟨beside, records, -⟩ := recorded
  have shared : arena.tableOf scope = arena.tableOf base.contexts.size := beside.tableOf_eq fresh inside
  cases call with
  | defineRule name rule =>
    obtain ⟨definable, rfl, rfl⟩ := effect
    rw [shared] at definable captures ⊢
    refine ⟨beside.setTable fresh inside _, ?_, captures⟩
    rw [beside.tableOf_setTable fresh inside]
    exact records.withRule definable rule
  | defineDynamic name resolver =>
    obtain ⟨definable, rfl, rfl⟩ := effect
    rw [shared] at definable captures ⊢
    refine ⟨beside.setTable fresh inside _, ?_, captures⟩
    rw [beside.tableOf_setTable fresh inside]
    exact records.withResolver definable resolver
  | close =>
    obtain ⟨rfl, rfl⟩ := effect
    rw [shared] at captures ⊢
    refine ⟨beside.setTable fresh inside _, ?_, captures⟩
    rw [beside.tableOf_setTable fresh inside]
    exact records.close
  | fork =>
    obtain ⟨rfl, rfl⟩ := effect
    refine ⟨beside.fork fresh inside, ?_, captures⟩
    rw [beside.tableOf_fork]
    exact records.silent rfl rfl rfl rfl
  | capture key tokens =>
    obtain ⟨-, rfl, rfl⟩ := effect
    refine ⟨beside.setCaptures fresh inside _, ?_, captures⟩
    rw [tableOf_setCaptures]
    exact records.silent rfl rfl rfl rfl
  | clearCaptures =>
    obtain ⟨rfl, rfl⟩ := effect
    refine ⟨beside.setCaptures fresh inside _, ?_, captures⟩
    rw [tableOf_setCaptures]
    exact records.silent rfl rfl rfl rfl

theorem Recorded.next (recorded : base.Recorded arena events) (fresh : base.contexts.size ≤ scope)
    (inside : scope < arena.contexts.size) (call : ContextCall) :
    base.Recorded (arena.perform scope call).2 (events ++ [(arena.perform scope call).1]) := by
  rcases perform_cases (recorded.beside.has fresh inside) call with ⟨answer, after, effect, same⟩ | ⟨fault, same⟩
  · rw [same]
    exact recorded.succeeded fresh inside effect
  · rw [same]
    exact recorded.refused scope call fault

/-- Whatever calls are made on a context and its forks, they are recorded. -/
theorem Recorded.continued (recorded : base.Recorded first events) (continued : base.Continued first later arena) :
    base.Recorded arena (events ++ later) := by
  induction continued with
  | none => rwa [List.append_nil]
  | next _ fresh inside call ih =>
    rw [← List.append_assoc]
    exact ih.next fresh inside call

/-- A call that succeeds extends the table that the contexts share, and takes away no context. -/
theorem Effect.extends {call : ContextCall} {answer : ContextAnswer} (beside : base.Beside arena)
    (fresh : base.contexts.size ≤ scope) (inside : scope < arena.contexts.size)
    (effect : arena.Effect scope answer after call) :
    (after.tableOf base.contexts.size).Extends (arena.tableOf base.contexts.size) ∧
      arena.contexts.size ≤ after.contexts.size := by
  have shared : arena.tableOf scope = arena.tableOf base.contexts.size := beside.tableOf_eq fresh inside
  cases call with
  | defineRule name rule =>
    obtain ⟨definable, -, rfl⟩ := effect
    rw [beside.tableOf_setTable fresh inside, ← shared]
    exact ⟨definable.extends_withRule rule, Nat.le_refl _⟩
  | defineDynamic name resolver =>
    obtain ⟨definable, -, rfl⟩ := effect
    rw [beside.tableOf_setTable fresh inside, ← shared]
    exact ⟨definable.extends_withResolver resolver, Nat.le_refl _⟩
  | close =>
    obtain ⟨-, rfl⟩ := effect
    rw [beside.tableOf_setTable fresh inside, ← shared]
    exact ⟨(arena.tableOf scope).extends_sealed, Nat.le_refl _⟩
  | fork =>
    obtain ⟨-, rfl⟩ := effect
    rw [beside.tableOf_fork]
    exact ⟨.refl _, by simp [Arena.fork, setCell, create]⟩
  | capture =>
    obtain ⟨-, -, rfl⟩ := effect
    rw [tableOf_setCaptures]
    exact ⟨.refl _, by simp [Arena.setCaptures, setCell]⟩
  | clearCaptures =>
    obtain ⟨-, rfl⟩ := effect
    rw [tableOf_setCaptures]
    exact ⟨.refl _, by simp [Arena.setCaptures, setCell]⟩

/-- Calls extend the table that the contexts share, and take away no context. -/
theorem Recorded.extends (recorded : base.Recorded first events) (continued : base.Continued first later arena) :
    (arena.tableOf base.contexts.size).Extends (first.tableOf base.contexts.size) ∧
      first.contexts.size ≤ arena.contexts.size := by
  induction continued with
  | none => exact ⟨.refl _, Nat.le_refl _⟩
  | @next events' middle continued' scope fresh inside call ih =>
    have beside := (recorded.continued continued').beside
    rcases perform_cases (beside.has fresh inside) call with ⟨answer, after, effect, same⟩ | ⟨fault, same⟩
    · rw [same]
      have step := effect.extends beside fresh inside
      exact ⟨ih.1.trans step.1, Nat.le_trans ih.2 step.2⟩
    · rw [same]
      exact ih

/-- Contexts that were forked from one another show the same table, that of the calls that succeeded on any of them, and
each shows what was captured on it alone. A call that stops changes nothing, and no call reaches a context or a table from
before. What was bound stays bound, and when the table has been closed it stays the same. -/
theorem contexts_follow (base : Arena) (performed : base.Performed events arena) :
    (∀ scope, base.contexts.size ≤ scope → scope < arena.contexts.size →
      arena.Follows scope events ∧ arena.tableOf scope = arena.tableOf base.contexts.size) ∧
      (∀ scope, base.contexts.size ≤ scope → scope < arena.contexts.size → ∀ call fault,
        (arena.perform scope call).1.outcome = .error fault → (arena.perform scope call).2 = arena) ∧
      (∀ scope < base.contexts.size, arena.contexts[scope]? = base.contexts[scope]?) ∧
      (∀ address < base.tables.size, arena.tables[address]? = base.tables[address]?) ∧
      ∀ later after, base.Continued arena later after →
        ∀ scope, base.contexts.size ≤ scope → scope < arena.contexts.size →
          (after.tableOf scope).Keeps (arena.tableOf scope) := by
  have recorded : base.Recorded arena events := (recorded_create base).continued performed
  have ⟨beside, records, captures⟩ := recorded
  refine ⟨fun scope fresh inside => ?_, fun scope fresh inside call fault failed => ?_, beside.otherContexts,
    beside.otherTables, ?_⟩
  · have shared := beside.tableOf_eq fresh inside
    exact ⟨Table.Records.follows (shared ▸ records) fun key => captures scope key fresh, shared⟩
  · rcases perform_cases (beside.has fresh inside) call with ⟨answer, after, -, same⟩ | ⟨fault, same⟩
    · rw [same] at failed
      cases failed
    · rw [same]
  · intro later after continued scope fresh inside
    obtain ⟨beside', records', -⟩ := recorded.continued continued
    obtain ⟨extend, more⟩ := recorded.extends continued
    rw [beside.tableOf_eq fresh inside, beside'.tableOf_eq fresh (Nat.lt_of_lt_of_le inside more)]
    exact extend.keeps records.regular records'.regular

/-- A context and its fork show the same rule, which the fork cannot bind again, and what the fork captures is not
captured in the context. -/
theorem contexts_follow_root_and_fork : ∃ events arena, Performed {} events arena ∧
    (∃ fault, (arena.perform 1 (.defineRule "pair" Brackets.nested)).1.outcome = .error fault) ∧
      (arena.tableOf 0).Binds 0 "pair" Brackets.pair ∧ (arena.tableOf 1).Binds 0 "pair" Brackets.pair ∧
      (arena.capturesOf 0).find? "open" = none ∧
      (arena.capturesOf 1).find? "open" = some [Brackets.opening] := by
  have fresh : Performed {} [] (create {}).2 := .none
  have performed := ((fresh.next (Nat.zero_le 0) Nat.zero_lt_one (.defineRule "pair" Brackets.pair)).next
    (Nat.zero_le 0) Nat.zero_lt_one .fork).next (Nat.zero_le 1) Nat.one_lt_two (.capture "open" [Brackets.opening])
  obtain ⟨follows, -⟩ := contexts_follow {} performed
  have root := (follows 0 (Nat.zero_le 0) Nat.zero_lt_two).1
  have fork := (follows 1 (Nat.zero_le 1) Nat.one_lt_two).1
  refine ⟨_, _, performed, ⟨_, rfl⟩, ?_, ?_, ?_, ?_⟩
  · exact (root.binds_iff 0 "pair" Brackets.pair).mpr rfl
  · exact (fork.binds_iff 0 "pair" Brackets.pair).mpr rfl
  · exact root.captures "open"
  · exact fork.captures "open"

end Arena

end TokenGrammar
