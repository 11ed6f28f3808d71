import TokenGrammar.Engine
import TokenGrammar.Grammar.UnboundNames

namespace TokenGrammar

namespace Grammar

/-- The alternatives of a rule that match groups. -/
def groupedAlternatives : Rule → List Rule
  | .anyOf alternatives => alternatives.filter Rule.isGroup
  | _ => []

/-- Whether a rule is a choice of two, exactly one of which matches groups. -/
def isWrapped : Rule → Bool
  | .anyOf alternatives => alternatives.length == 2 && (alternatives.filter Rule.isGroup).length == 1
  | _ => false

/-- A rule that also matches a group of what it matches. -/
def wrapRule (rule : Rule) : Rule := .anyOf [rule, .group rule]

end Grammar

/-- A grammar that is not closed yet. -/
structure GrammarBuilder where
  bindings : Bindings := {}
  active : List RuleBinding := []
  definitions : List (Text × RuleBinding) := []
  isBuilt : Bool := false

/-- A grammar: its active rules in the order in which they are tried, its named rules with their actions in
the order of definition, and its bindings. -/
structure Grammar where
  rules : List RuleBinding
  definitions : List (Text × RuleBinding)
  bindings : Bindings

namespace GrammarBuilder

/-- A builder is closed by building. -/
def checkOpen (builder : GrammarBuilder) : Except Fault Unit := check (!builder.isBuilt) .builderClosed

/-- Binds a name to a rule and its action. -/
def define (builder : GrammarBuilder) (name : Text) (rule : Rule) (action : Action) :
    Except Fault GrammarBuilder := do
  builder.checkOpen
  let (_, bindings) ← builder.bindings.defineRule name rule
  return { builder with bindings, definitions := builder.definitions ++ [(name, { rule, action })] }

def defineDynamic (builder : GrammarBuilder) (name : Text) (resolver : DynamicResolver) :
    Except Fault GrammarBuilder := do
  builder.checkOpen
  let bindings ← builder.bindings.defineDynamic name resolver
  return { builder with bindings }

/-- Appends an active rule. Where it is to be wrapped, as rules with a grouping action are unless it is said
otherwise, it will match groups of what it matches as well, unless it has that form already. -/
def addRule (builder : GrammarBuilder) (store : RuleStore) (rule : Rule) (action : Action)
    (wrap : Option Bool) : Except Fault (GrammarBuilder × List Notice) := do
  builder.checkOpen
  let kind := rule.kind store
  let (active, notices) :=
    if wrap.getD action.isGrouping then
      if Grammar.isWrapped rule then (rule, [Notice.ruleKept kind])
      else (Grammar.wrapRule rule, [Notice.ruleWrapped kind (Grammar.groupedAlternatives rule).length])
    else (rule, [])
  return ({ builder with active := builder.active ++ [{ rule := active, action }] }, notices)

/-- Closes a builder and makes its grammar. Names that are referred to and never defined are noticed. -/
def build (builder : GrammarBuilder) (store : RuleStore) :
    Except Fault (GrammarBuilder × Grammar × List Notice) := do
  builder.checkOpen
  let bindings := builder.bindings.close
  let grammar : Grammar := { rules := builder.active, definitions := builder.definitions, bindings }
  let roots := builder.active.map RuleBinding.rule ++ builder.definitions.map fun entry => entry.2.rule
  let unbound := (Grammar.unboundNames store bindings roots).map Notice.ruleNeverDefined
  let notices := unbound ++ (if builder.active.isEmpty then [Notice.noActiveRules] else [])
  return ({ builder with bindings, isBuilt := true }, grammar, notices)

end GrammarBuilder

namespace Grammar

def world (grammar : Grammar) (store : RuleStore) : World := ⟨store, grammar.bindings⟩

/-- Goes over tokens with the active rules. -/
def parse (grammar : Grammar) (store : RuleStore) (fuel : Nat) (tokens : List Token) : Passage :=
  Engine.process ⟨grammar.rules⟩ (grammar.world store) fuel tokens

/-- Goes over tokens with a named rule alone. -/
def parseWith (grammar : Grammar) (store : RuleStore) (fuel : Nat) (name : Text) (tokens : List Token) :
    Except Fault Passage :=
  match grammar.definitions.lookup name with
  | some binding => .ok (Engine.process ⟨[binding]⟩ (grammar.world store) fuel tokens)
  | none => .error (.ruleNotDefined name)

end Grammar

end TokenGrammar
