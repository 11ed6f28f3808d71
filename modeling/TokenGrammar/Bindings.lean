import TokenGrammar.Rule.Store

namespace TokenGrammar

/-- What a resolver finds: a rule, or tokens to be met again. -/
inductive DynamicBinding where
  | rule (rule : Rule)
  | tokens (tokens : List Token)

/-- A resolver is asked each time its name is referred to. -/
abbrev DynamicResolver := Captures → Option DynamicBinding

/-- The bindings of names. The number of a rule is its place in the order of definition. -/
structure Bindings where
  rules : List (Text × Rule) := []
  dynamics : List (Text × DynamicResolver) := []
  isSealed : Bool := false

namespace Bindings

def empty : Bindings := {}

def rule? (bindings : Bindings) (name : Text) : Option Rule := bindings.rules.lookup name

/-- Whether a name is bound to a rule. -/
def hasRule (bindings : Bindings) (name : Text) : Bool := (bindings.rule? name).isSome

def resolver? (bindings : Bindings) (name : Text) : Option DynamicResolver := bindings.dynamics.lookup name

/-- Whether a name is bound to a resolver. -/
def hasDynamic (bindings : Bindings) (name : Text) : Bool := (bindings.resolver? name).isSome

/-- What the resolver of a name finds. -/
def resolve? (bindings : Bindings) (name : Text) (captures : Captures) : Option DynamicBinding :=
  (bindings.resolver? name).bind fun resolver => resolver captures

/-- The number of the rule bound to a name. -/
def ruleId? (bindings : Bindings) (name : Text) : Option Nat :=
  bindings.rules.findIdx? fun entry => entry.1 = name

def ruleAt (bindings : Bindings) (id : Number) : Except Fault Rule :=
  match id.toNat?.bind fun number => bindings.rules[number]? with
  | some entry => .ok entry.2
  | none => .error (.noRuleWithId id)

/-- The names bound to rules, in the order of definition. -/
def ruleNames (bindings : Bindings) : List Text := bindings.rules.map Prod.fst

/-- A name can be bound while the bindings are open, if it is not empty and not bound yet. -/
def checkDefinable (bindings : Bindings) (name : Text) : Except Fault Unit := do
  check (!bindings.isSealed) (.sealedContext name)
  check (name ≠ "") .emptyRuleName
  check (!bindings.hasRule name && !bindings.hasDynamic name) (.ruleDefinedAgain name)

/-- Binds a name to a rule and numbers the rule. -/
def defineRule (bindings : Bindings) (name : Text) (rule : Rule) : Except Fault (Nat × Bindings) := do
  bindings.checkDefinable name
  return (bindings.rules.length, { bindings with rules := bindings.rules ++ [(name, rule)] })

def defineDynamic (bindings : Bindings) (name : Text) (resolver : DynamicResolver) :
    Except Fault Bindings := do
  bindings.checkDefinable name
  return { bindings with dynamics := bindings.dynamics ++ [(name, resolver)] }

def close (bindings : Bindings) : Bindings := { bindings with isSealed := true }

end Bindings

end TokenGrammar
