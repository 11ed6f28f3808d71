import TokenGrammar.Context
import TokenGrammar.Rule.Run

namespace TokenGrammar

/-- Does what a caller's function does in the context at hand. -/
def Attempt.callBack {α : Type} (callback : Callback α) : Attempt α := fun situation =>
  match callback situation.memory.captures with
  | .ok answer captures => .ok answer { situation with memory := { situation.memory with captures } }
  | .error fault captures => .error (.fault fault) { situation with memory := { situation.memory with captures } }

/-- What rules find around them: the stored rules, what names are bound to, how a resolver is asked, and how to tell of
something. -/
structure Surroundings where
  store : RuleStore
  rule? : Text → Option Rule
  ask : Text → Attempt (Option DynamicBinding)
  tell : Notice → Attempt Unit

namespace Surroundings

/-- In a context that shares a table, the resolvers of the table act on the context. -/
def ofTable (store : RuleStore) (table : Table) (tell : Notice → Attempt Unit) : Surroundings where
  store
  rule? := table.rule?
  ask key := Attempt.callBack (table.resolve key)
  tell

/-- In a world, resolvers look at the captures and leave them alone. -/
def ofWorld (world : World) (tell : Notice → Attempt Unit) : Surroundings where
  store := world.store
  rule? := world.bindings.rule?
  ask key := return world.bindings.resolve? key (← Attempt.captures)
  tell

/-- What a resolver finds for a reference, which only dynamic ones ask for. -/
def askFor (around : Surroundings) (kind : ReferenceKind) (key : Text) : Attempt (Option DynamicBinding) :=
  if kind = .dynamic then around.ask key else pure none

end Surroundings

namespace Rule

open Run

/-- Runs the rule bound to a name, and tells if there is none. -/
def followNameIn (around : Surroundings) (run : Rule → Run) (name : Text) (self : Rule) : Run :=
  match around.rule? name with
  | some rule => delegate (run rule) self
  | none => do
    around.tell (.recursionNotDefined name)
    noMatch

/-- Runs what a reference finds: the rule bound to its key, what the resolver of its key finds, or the tokens kept under
its key by then. It tells if it finds nothing. -/
def followReferenceIn (around : Surroundings) (run : Rule → Run) (key : Text) (kind : ReferenceKind) (self : Rule) :
    Run :=
  match if kind = .tokens then none else around.rule? key with
  | some rule => delegate (run rule) self
  | none => do
    match ← around.askFor kind key with
    | some (.rule rule) => delegate (run rule) self
    | some (.tokens tokens) => sameValues tokens self
    | none => do
      let captures ← Attempt.captures
      match if kind = .rule then none else captures.find? key with
      | some tokens => sameValues tokens self
      | none => do
        around.tell (.referenceNotBound key kind)
        noMatch

/-- Runs a rule as it runs anywhere, unless it looks for another one around it. -/
def stepIn (around : Surroundings) (fuel : Nat) (run : Rule → Run) (rule : Rule) : Run :=
  match rule with
  | .named name => settle (rule.kind around.store) (followNameIn around run name rule)
  | .reference key kind => settle (rule.kind around.store) (followReferenceIn around run key kind rule)
  | _ => rule.step ⟨around.store, {}⟩ fuel run

/-- Runs a rule with so much fuel in its surroundings. -/
def runIn (around : Surroundings) : Nat → Rule → Run
  | 0, _ => Attempt.exhaust
  | fuel + 1, rule => rule.stepIn around fuel (runIn around fuel)

end Rule

end TokenGrammar
