import TokenGrammar.Bindings

namespace TokenGrammar

/-- What a caller's function does in the context that it is given. It may stop with a fault, and the captures stay as it
has left them by then. -/
abbrev Callback := EStateM Fault Captures

/-- A resolver that a caller supplies; it is asked again for each reference to its name. -/
abbrev Resolver := Callback (Option DynamicBinding)

/-- The bindings that contexts share: the rules in an array, the numbers of the named ones in a map, and the resolvers in
another map. -/
structure Table where
  rules : Array Rule := #[]
  ids : Entries Text Nat := []
  dynamics : Entries Text Resolver := []
  isSealed : Bool := false

namespace Table

def ruleId? (table : Table) (name : Text) : Option Nat := table.ids.lookup name

def rule? (table : Table) (name : Text) : Option Rule := (table.ruleId? name).bind fun id => table.rules[id]?

def ruleAt (table : Table) (id : Number) : Except Fault Rule :=
  match id.toNat?.bind fun number => table.rules[number]? with
  | some rule => .ok rule
  | none => .error (.noRuleWithId id)

def hasRule (table : Table) (name : Text) : Bool := (table.ruleId? name).isSome

def resolver? (table : Table) (name : Text) : Option Resolver := table.dynamics.lookup name

def hasDynamic (table : Table) (name : Text) : Bool := (table.resolver? name).isSome

/-- What the resolver of a name does; where there is none, nothing is found. -/
def resolve (table : Table) (name : Text) : Resolver := (table.resolver? name).getD (pure none)

/-- The names of the rules, in the order of definition. -/
def ruleNames (table : Table) : List Text := table.ids.keys

/-- The rules of a table as bindings of names. -/
def bindings (table : Table) : Bindings where
  rules := table.ids.map fun (name, id) => (name, table.rules.getD id .never)
  isSealed := table.isSealed

end Table

/-- A context points at the table that it shares, and has captures of its own. -/
structure ContextCell where
  table : Nat
  captures : Captures := {}

/-- The contexts that there are, and the tables that they point at, each under its number. -/
structure Arena where
  tables : Array Table := #[]
  contexts : Array ContextCell := #[]

namespace Arena

def cellOf (arena : Arena) (self : Nat) : ContextCell := arena.contexts.getD self ⟨0, {}⟩

def tableOf (arena : Arena) (self : Nat) : Table := arena.tables.getD (arena.cellOf self).table {}

def capturesOf (arena : Arena) (self : Nat) : Captures := (arena.cellOf self).captures

def setTable (arena : Arena) (self : Nat) (table : Table) : Arena :=
  { arena with tables := arena.tables.setIfInBounds (arena.cellOf self).table table }

def setCell (arena : Arena) (self : Nat) (cell : ContextCell) : Arena :=
  { arena with contexts := arena.contexts.setIfInBounds self cell }

def setCaptures (arena : Arena) (self : Nat) (captures : Captures) : Arena :=
  arena.setCell self { arena.cellOf self with captures }

/-- Makes a context with a table of its own, which has the next number. -/
def create (arena : Arena) : Nat × Arena :=
  (arena.contexts.size,
    { tables := arena.tables.push {}, contexts := arena.contexts.push { table := arena.tables.size } })

/-- Makes a context and lets it point at the table of another one. -/
def fork (arena : Arena) (self : Nat) : Nat × Arena :=
  let (forked, created) := arena.create
  (forked, created.setCell forked { created.cellOf forked with table := (arena.cellOf self).table })

end Arena

/-- Work on contexts. It may stop with a fault, and the arena stays as it has been left by then. -/
abbrev Contextual := EStateM Fault Arena

namespace Context

def create : Contextual Nat := fun arena => .ok arena.create.1 arena.create.2

def table (self : Nat) : Contextual Table := fun arena => .ok (arena.tableOf self) arena

def changeTable (self : Nat) (change : Table → Table) : Contextual Unit := fun arena =>
  .ok () (arena.setTable self (change (arena.tableOf self)))

def demand (condition : Bool) (fault : Fault) : Contextual Unit := fun arena =>
  if condition then .ok () arena else .error fault arena

/-- A name can be bound while the table is open, if it is not empty and not bound yet. -/
def checkDefinable (self : Nat) (name : Text) : Contextual Unit := do
  let table ← table self
  demand (!table.isSealed) (.sealedContext name)
  demand (name ≠ "") .emptyRuleName
  demand (!table.hasRule name && !table.hasDynamic name) (.ruleDefinedAgain name)

/-- Stores a rule, and then its number under its name. -/
def defineRule (self : Nat) (name : Text) (rule : Rule) : Contextual Nat := do
  checkDefinable self name
  let id := (← table self).rules.size
  changeTable self fun table => { table with rules := table.rules.push rule }
  changeTable self fun table => { table with ids := table.ids.put name id }
  return id

def defineDynamic (self : Nat) (name : Text) (resolver : Resolver) : Contextual Unit := do
  checkDefinable self name
  changeTable self fun table => { table with dynamics := table.dynamics.put name resolver }

def close (self : Nat) : Contextual Unit := changeTable self fun table => { table with isSealed := true }

def fork (self : Nat) : Contextual Nat := fun arena => .ok (arena.fork self).1 (arena.fork self).2

/-- Does what a caller's function does in a context. -/
def callBack {α : Type} (self : Nat) (callback : Callback α) : Contextual α := fun arena =>
  match callback (arena.capturesOf self) with
  | .ok answer captures => .ok answer (arena.setCaptures self captures)
  | .error fault captures => .error fault (arena.setCaptures self captures)

def resolveDynamic (self : Nat) (name : Text) : Contextual (Option DynamicBinding) := do
  callBack self ((← table self).resolve name)

def changeCaptures (self : Nat) (change : Captures → Captures) : Contextual Unit := fun arena =>
  .ok () (arena.setCaptures self (change (arena.capturesOf self)))

def captureTokens (self : Nat) (key : Text) (tokens : List Token) : Contextual Unit := do
  demand (key ≠ "") .emptyCaptureKey
  changeCaptures self fun captures => captures.keep key tokens

def clearCaptures (self : Nat) : Contextual Unit := changeCaptures self fun _ => .empty

end Context

end TokenGrammar
