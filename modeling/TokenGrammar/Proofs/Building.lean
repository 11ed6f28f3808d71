import TokenGrammar.Proofs.Warnings

namespace TokenGrammar

/-- The rule that is active for a given one: wrapped where it is to be wrapped and does not have that form already. -/
def Grammar.activeRule (rule : Rule) (action : Action) (wrap : Option Bool) : Rule :=
  if wrap.getD action.isGrouping && !isWrapped rule then wrapRule rule else rule

inductive BuilderCall where
  | define (name : Text) (rule : Rule) (action : Action)
  | defineDynamic (name : Text) (resolver : DynamicResolver)
  | addRule (store : RuleStore) (rule : Rule) (action : Action) (wrap : Option Bool)
  | build (store : RuleStore)

/-- What a call on a builder answers, with what it notices. -/
inductive BuilderAnswer where
  | done (notices : List Notice)
  | grammar (grammar : Grammar) (notices : List Notice)

/-- A call on a builder, and what came of it. -/
structure BuilderEvent where
  call : BuilderCall
  outcome : Except Fault BuilderAnswer

namespace GrammarBuilder

def call (builder : GrammarBuilder) : BuilderCall → Except Fault (BuilderAnswer × GrammarBuilder)
  | .define name rule action => do return (.done [], ← builder.define name rule action)
  | .defineDynamic name resolver => do return (.done [], ← builder.defineDynamic name resolver)
  | .addRule store rule action wrap => do
    let (after, notices) ← builder.addRule store rule action wrap
    return (.done notices, after)
  | .build store => do
    let (after, grammar, notices) ← builder.build store
    return (.grammar grammar notices, after)

/-- Makes a call on a builder; one that fails is passed over. -/
def perform (builder : GrammarBuilder) (call : BuilderCall) : BuilderEvent × GrammarBuilder :=
  match builder.call call with
  | .ok (answer, after) => (⟨call, .ok answer⟩, after)
  | .error fault => (⟨call, .error fault⟩, builder)

def performAll (builder : GrammarBuilder) : List BuilderCall → List BuilderEvent × GrammarBuilder
  | [] => ([], builder)
  | call :: rest =>
    let (event, middle) := builder.perform call
    let (events, after) := middle.performAll rest
    (event :: events, after)

def kept (builder : GrammarBuilder) : Grammar := ⟨builder.active, builder.definitions, builder.bindings⟩

def closed (builder : GrammarBuilder) : GrammarBuilder :=
  { builder with bindings := builder.bindings.close, isBuilt := true }

variable {builder after : GrammarBuilder}

theorem checkOpen_eq_ok_iff : builder.checkOpen = .ok () ↔ builder.isBuilt = false := by
  rw [checkOpen]
  cases builder.isBuilt <;> simp [check]

/-- Adding a rule to an open builder makes it active, with a notice if it was wrapped or could have been. -/
theorem exists_addRule_eq_ok (opened : builder.isBuilt = false) (store : RuleStore) (rule : Rule) (action : Action)
    (wrap : Option Bool) : ∃ notices, builder.addRule store rule action wrap =
      .ok ({ builder with active := builder.active ++ [⟨Grammar.activeRule rule action wrap, action⟩] }, notices) := by
  simp only [addRule, checkOpen_eq_ok_iff.mpr opened, Grammar.activeRule]
  cases wrap.getD action.isGrouping <;> cases Grammar.isWrapped rule <;> exact ⟨_, rfl⟩

/-- A builder that was closed refuses every call. -/
theorem call_of_isBuilt (closed : builder.isBuilt = true) (call : BuilderCall) :
    builder.call call = .error .builderClosed := by
  have refuses : builder.checkOpen = .error .builderClosed := by
    rw [checkOpen, closed]
    rfl
  cases call with
  | define =>
    simp only [GrammarBuilder.call, define, refuses]
    rfl
  | defineDynamic =>
    simp only [GrammarBuilder.call, defineDynamic, refuses]
    rfl
  | addRule =>
    simp only [GrammarBuilder.call, addRule, refuses]
    rfl
  | build =>
    simp only [GrammarBuilder.call, build, refuses]
    rfl

/-- Building an open builder closes it and gives the grammar that it keeps. -/
theorem call_build (opened : builder.isBuilt = false) (store : RuleStore) : ∃ notices,
    builder.call (.build store) = .ok (.grammar builder.closed.kept notices, builder.closed) := by
  have admits : builder.checkOpen = .ok () := by
    rw [checkOpen, opened]
    rfl
  exact ⟨_, by rw [GrammarBuilder.call, build, admits]; rfl⟩

theorem perform_of_ok {call : BuilderCall} {answer : BuilderAnswer} (called : builder.call call = .ok (answer, after)) :
    builder.perform call = (⟨call, .ok answer⟩, after) := by
  rw [perform, called]

theorem perform_of_error {call : BuilderCall} {fault : Fault} (called : builder.call call = .error fault) :
    builder.perform call = (⟨call, .error fault⟩, builder) := by
  rw [perform, called]

end GrammarBuilder

end TokenGrammar
