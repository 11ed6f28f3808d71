import TokenGrammar.Grammar
import TokenGrammar.Processor

namespace TokenGrammar

/-- The fields of a builder, and the arena that holds its context. -/
structure Assembly where
  arena : Arena
  context : Nat
  active : List BoundRule := []
  definitions : Entries Text BoundRule := []
  isBuilt : Bool := false

/-- Work on a builder. It may stop with a fault, and the builder and the arena stay as they have been left by then. -/
abbrev Building := EStateM Fault Assembly

namespace Assembly

def new (arena : Arena) : Assembly where
  arena := arena.create.2
  context := arena.create.1

def onContexts {α : Type} (work : Contextual α) : Building α := fun assembly =>
  match work assembly.arena with
  | .ok answer arena => .ok answer { assembly with arena }
  | .error fault arena => .error fault { assembly with arena }

/-- A builder is closed by building. -/
def checkOpen : Building Unit := fun assembly =>
  if assembly.isBuilt then .error .builderClosed assembly else .ok () assembly

def self : Building Assembly := fun assembly => .ok assembly assembly

def change (next : Assembly → Assembly) : Building Unit := fun assembly => .ok () (next assembly)

/-- Binds a name to a rule in the context, and then stores the rule with its action under the name. -/
def define (name : Text) (rule : Rule) (action : CallerAction) : Building Unit := do
  checkOpen
  let _ ← onContexts (Context.defineRule (← self).context name rule)
  change fun assembly => { assembly with definitions := assembly.definitions.put name ⟨rule, action⟩ }

def defineDynamic (name : Text) (resolver : Resolver) : Building Unit := do
  checkOpen
  onContexts (Context.defineDynamic (← self).context name resolver)

/-- The rule that is active for a given one, and what is noticed: a rule that is to be wrapped, as rules with a grouping
action are unless it is said otherwise, will match groups of what it matches as well, unless it has that form already. -/
def wrapped (store : RuleStore) (rule : Rule) (action : CallerAction) (wrap : Option Bool) : Rule × List Notice :=
  if wrap.getD action.isGrouping then
    if Grammar.isWrapped rule then (rule, [.ruleKept (rule.kind store)])
    else (Grammar.wrapRule rule, [.ruleWrapped (rule.kind store) (Grammar.groupedAlternatives rule).length])
  else (rule, [])

/-- Appends an active rule, and answers what is noticed. -/
def addRule (store : RuleStore) (rule : Rule) (action : CallerAction) (wrap : Option Bool) : Building (List Notice) := do
  checkOpen
  let (active, notices) := wrapped store rule action wrap
  change fun assembly => { assembly with active := assembly.active ++ [⟨active, action⟩] }
  return notices

/-- What building notices: the names that are referred to and that the table does not bind, and whether no rule is
active. -/
def warnings (store : RuleStore) (table : Table) (active : List BoundRule) (definitions : Entries Text BoundRule) :
    List Notice :=
  let roots := active.map BoundRule.rule ++ definitions.map fun entry => entry.2.rule
  (Grammar.unboundNames store table.bindings roots).map Notice.ruleNeverDefined ++
    (if active.isEmpty then [Notice.noActiveRules] else [])

/-- Closes the builder and then its table, and makes the grammar. -/
def build (store : RuleStore) : Building (SharedGrammar × List Notice) := do
  checkOpen
  change fun assembly => { assembly with isBuilt := true }
  let { context, active, definitions, .. } ← self
  onContexts (Context.close context)
  let table ← onContexts (Context.table context)
  return ({ rules := active, definitions, context }, warnings store table active definitions)

end Assembly

end TokenGrammar
