import TokenGrammar.Assembly
import TokenGrammar.Proofs.Sharing

namespace TokenGrammar

/-- The calls on a builder, with the actions and the resolvers of callers. -/
inductive AssemblyCall where
  | define (name : Text) (rule : Rule) (action : CallerAction)
  | defineDynamic (name : Text) (resolver : Resolver)
  | addRule (store : RuleStore) (rule : Rule) (action : CallerAction) (wrap : Option Bool)
  | build (store : RuleStore)

/-- What a call on a builder answers, with what it notices. -/
inductive AssemblyAnswer where
  | done (notices : List Notice)
  | grammar (grammar : SharedGrammar) (notices : List Notice)

/-- A call on a builder, and what came of it. -/
structure AssemblyEvent where
  call : AssemblyCall
  outcome : Except Fault AssemblyAnswer

namespace AssemblyCall

def run : AssemblyCall → Building AssemblyAnswer
  | .define name rule action => do
    Assembly.define name rule action
    return .done []
  | .defineDynamic name resolver => do
    Assembly.defineDynamic name resolver
    return .done []
  | .addRule store rule action wrap => return .done (← Assembly.addRule store rule action wrap)
  | .build store => do
    let (grammar, notices) ← Assembly.build store
    return .grammar grammar notices

def builds : AssemblyCall → Bool
  | .build _ => true
  | _ => false

end AssemblyCall

namespace AssemblyEvent

def succeeds (event : AssemblyEvent) : Bool := event.outcome.isOk

/-- The rule that was made active, with its action. -/
def added? : AssemblyEvent → Option BoundRule
  | ⟨.addRule store rule action wrap, .ok _⟩ => some ⟨(Assembly.wrapped store rule action wrap).1, action⟩
  | _ => none

/-- The rule that was defined, with its name and its action. -/
def definition? : AssemblyEvent → Option (Text × BoundRule)
  | ⟨.define name rule action, .ok _⟩ => some (name, ⟨rule, action⟩)
  | _ => none

/-- The resolver that was bound, with its name. -/
def resolver? : AssemblyEvent → Option (Text × Resolver)
  | ⟨.defineDynamic name resolver, .ok _⟩ => some (name, resolver)
  | _ => none

end AssemblyEvent

namespace Assembly

/-- Makes a call on a builder, and leaves everything as the call does. -/
def perform (assembly : Assembly) (call : AssemblyCall) : AssemblyEvent × Assembly :=
  match call.run assembly with
  | .ok answer after => (⟨call, .ok answer⟩, after)
  | .error fault after => (⟨call, .error fault⟩, after)

/-- Makes calls one after the other, whether they succeed or not. -/
def performAll (assembly : Assembly) : List AssemblyCall → List AssemblyEvent × Assembly
  | [] => ([], assembly)
  | call :: rest =>
    let (event, middle) := assembly.perform call
    let (events, after) := middle.performAll rest
    (event :: events, after)

def succeeding (events : List AssemblyEvent) : List AssemblyCall :=
  (events.filter AssemblyEvent.succeeds).map AssemblyEvent.call

/-- The table of the context of a builder. -/
def table (assembly : Assembly) : Table := assembly.arena.tableOf assembly.context

def withTable (assembly : Assembly) (table : Table) : Assembly :=
  { assembly with arena := assembly.arena.setTable assembly.context table }

def closed (assembly : Assembly) : Assembly :=
  { assembly.withTable { assembly.table with isSealed := true } with isBuilt := true }

def kept (assembly : Assembly) : SharedGrammar := ⟨assembly.active, assembly.definitions, assembly.context⟩

variable {base : Arena} {assembly before middle after : Assembly} {events : List AssemblyEvent}

/-- What a call that succeeds does, unless it builds. -/
def Effect (assembly after : Assembly) : AssemblyCall → Prop
  | .define name rule action =>
    assembly.table.Definable name ∧
      after = { assembly.withTable (assembly.table.withRule name rule) with
        definitions := assembly.definitions.put name ⟨rule, action⟩ }
  | .defineDynamic name resolver =>
    assembly.table.Definable name ∧ after = assembly.withTable (assembly.table.withResolver name resolver)
  | .addRule store rule action wrap =>
    after = { assembly with active := assembly.active ++ [⟨(wrapped store rule action wrap).1, action⟩] }
  | .build _ => False

theorem checkOpen_of_isBuilt (built : assembly.isBuilt = true) : checkOpen assembly = .error .builderClosed assembly :=
  if_pos built

theorem checkOpen_of_not_isBuilt (opened : assembly.isBuilt = false) : checkOpen assembly = .ok () assembly :=
  if_neg (by simp [opened])

/-- A builder that was closed refuses every call, and keeps everything as it is. -/
theorem perform_of_isBuilt (built : assembly.isBuilt = true) (call : AssemblyCall) :
    assembly.perform call = (⟨call, .error .builderClosed⟩, assembly) := by
  have refuses := checkOpen_of_isBuilt built
  cases call with
  | define => simp only [perform, AssemblyCall.run, Stateful.bind_apply, define, refuses]
  | defineDynamic => simp only [perform, AssemblyCall.run, Stateful.bind_apply, defineDynamic, refuses]
  | addRule => simp only [perform, AssemblyCall.run, Stateful.bind_apply, addRule, refuses]
  | build => simp only [perform, AssemblyCall.run, Stateful.bind_apply, build, refuses]

/-- On an open builder a rule is defined as the context defines it. -/
theorem perform_define (opened : assembly.isBuilt = false) (name : Text) (rule : Rule) (action : CallerAction) :
    assembly.perform (.define name rule action) =
      match Context.defineRule assembly.context name rule assembly.arena with
      | .ok _ arena => (⟨.define name rule action, .ok (.done [])⟩,
          { assembly with arena, definitions := assembly.definitions.put name ⟨rule, action⟩ })
      | .error fault arena => (⟨.define name rule action, .error fault⟩, { assembly with arena }) := by
  have admits := checkOpen_of_not_isBuilt opened
  simp only [perform, AssemblyCall.run, Stateful.bind_apply, define, admits, self, onContexts]
  cases Context.defineRule assembly.context name rule assembly.arena <;> rfl

theorem perform_defineDynamic (opened : assembly.isBuilt = false) (name : Text) (resolver : Resolver) :
    assembly.perform (.defineDynamic name resolver) =
      match Context.defineDynamic assembly.context name resolver assembly.arena with
      | .ok _ arena => (⟨.defineDynamic name resolver, .ok (.done [])⟩, { assembly with arena })
      | .error fault arena => (⟨.defineDynamic name resolver, .error fault⟩, { assembly with arena }) := by
  have admits := checkOpen_of_not_isBuilt opened
  simp only [perform, AssemblyCall.run, Stateful.bind_apply, defineDynamic, admits, self, onContexts]
  cases Context.defineDynamic assembly.context name resolver assembly.arena <;> rfl

theorem perform_addRule (opened : assembly.isBuilt = false) (store : RuleStore) (rule : Rule) (action : CallerAction)
    (wrap : Option Bool) :
    assembly.perform (.addRule store rule action wrap) =
      (⟨.addRule store rule action wrap, .ok (.done (wrapped store rule action wrap).2)⟩,
        { assembly with active := assembly.active ++ [⟨(wrapped store rule action wrap).1, action⟩] }) := by
  have admits := checkOpen_of_not_isBuilt opened
  simp only [perform, AssemblyCall.run, Stateful.bind_apply, addRule, admits]
  rfl

/-- A call on an open builder comes to its effect, or stops before it has changed anything. -/
theorem perform_cases (has : assembly.arena.Has assembly.context) (opened : assembly.isBuilt = false)
    {call : AssemblyCall} (other : call.builds = false) :
    (∃ answer after, assembly.Effect after call ∧ assembly.perform call = (⟨call, .ok answer⟩, after)) ∨
      ∃ fault, assembly.perform call = (⟨call, .error fault⟩, assembly) := by
  cases call with
  | define name rule action =>
    rw [perform_define opened]
    rcases Context.defineRule_cases has name rule with ⟨definable, made⟩ | ⟨-, fault, stops⟩
    · rw [made]
      exact .inl ⟨.done [], _, ⟨definable, rfl⟩, rfl⟩
    · rw [stops]
      exact .inr ⟨fault, rfl⟩
  | defineDynamic name resolver =>
    rw [perform_defineDynamic opened]
    rcases Context.defineDynamic_cases assembly.arena assembly.context name resolver with
      ⟨definable, made⟩ | ⟨-, fault, stops⟩
    · rw [made]
      exact .inl ⟨.done [], _, ⟨definable, rfl⟩, rfl⟩
    · rw [stops]
      exact .inr ⟨fault, rfl⟩
  | addRule store rule action wrap => exact .inl ⟨.done (wrapped store rule action wrap).2, _, rfl, perform_addRule opened ..⟩
  | build => cases other

/-- Building an open builder closes it and gives the grammar that it keeps. -/
theorem perform_build (has : assembly.arena.Has assembly.context) (opened : assembly.isBuilt = false)
    (store : RuleStore) :
    assembly.perform (.build store) =
      (⟨.build store, .ok (.grammar assembly.kept
        (warnings store { assembly.table with isSealed := true } assembly.active assembly.definitions))⟩,
        assembly.closed) := by
  have admits := checkOpen_of_not_isBuilt opened
  simp only [perform, AssemblyCall.run, Stateful.bind_apply, build, admits, change, self, onContexts, Context.close,
    Context.changeTable, Context.table, Arena.tableOf_setTable_self has]
  rfl

theorem filterMap_concat_none {α : Type} {pick : AssemblyEvent → Option α} {event : AssemblyEvent}
    (passed : pick event = none) : (events ++ [event]).filterMap pick = events.filterMap pick := by
  simp [passed]

theorem filterMap_concat_some {α : Type} {pick : AssemblyEvent → Option α} {event : AssemblyEvent} {picked : α}
    (picks : pick event = some picked) : (events ++ [event]).filterMap pick = events.filterMap pick ++ [picked] := by
  simp [picks]

/-- An open builder whose context is new beside an arena has gathered what calls define and make active. -/
structure Gathered (base : Arena) (events : List AssemblyEvent) (assembly : Assembly) : Prop where
  context : assembly.context = base.contexts.size
  beside : base.Beside assembly.arena
  isBuilt : assembly.isBuilt = false
  active : assembly.active = events.filterMap AssemblyEvent.added?
  definitions : assembly.definitions = events.filterMap AssemblyEvent.definition?
  ruleNames : assembly.table.ruleNames = assembly.definitions.keys
  rules : assembly.table.rules.toList = assembly.definitions.map fun entry => entry.2.rule
  dynamics : assembly.table.dynamics = events.filterMap AssemblyEvent.resolver?
  regular : assembly.table.Regular

namespace Gathered

theorem new (base : Arena) : Gathered base [] (new base) := by
  have fresh : (Assembly.new base).table = {} := by simp [Assembly.new, table, Arena.create, Arena.tableOf, Arena.cellOf]
  refine ⟨rfl, base.beside_create, rfl, rfl, rfl, ?_, ?_, ?_, ?_⟩
  · rw [fresh]
    rfl
  · rw [fresh]
    rfl
  · rw [fresh]
    rfl
  · rw [fresh]
    exact Table.regular_empty

variable (gathered : Gathered base events assembly)
include gathered

theorem has : assembly.arena.Has assembly.context := by
  rw [gathered.context]
  exact gathered.beside.has (Nat.le_refl _) gathered.beside.contexts

theorem table_withTable (table : Table) : (assembly.withTable table).table = table :=
  Arena.tableOf_setTable_self gathered.has

/-- Building closes the table of the grammar. -/
theorem table_closed : assembly.closed.arena.tableOf assembly.kept.context = { assembly.table with isSealed := true } :=
  gathered.table_withTable _

theorem beside_withTable (table : Table) : base.Beside (assembly.withTable table).arena := by
  rw [withTable, gathered.context]
  exact gathered.beside.setTable (Nat.le_refl _) gathered.beside.contexts table

/-- A call that stops leaves what is gathered as it is. -/
theorem refused (call : AssemblyCall) (fault : Fault) : Gathered base (events ++ [⟨call, .error fault⟩]) assembly where
  context := gathered.context
  beside := gathered.beside
  isBuilt := gathered.isBuilt
  active := gathered.active.trans (filterMap_concat_none (by cases call <;> rfl)).symm
  definitions := gathered.definitions.trans (filterMap_concat_none (by cases call <;> rfl)).symm
  ruleNames := gathered.ruleNames
  rules := gathered.rules
  dynamics := gathered.dynamics.trans (filterMap_concat_none (by cases call <;> rfl)).symm
  regular := gathered.regular

theorem defined {name : Text} {rule : Rule} {action : CallerAction} {answer : AssemblyAnswer}
    (definable : assembly.table.Definable name) :
    Gathered base (events ++ [⟨.define name rule action, .ok answer⟩])
      { assembly.withTable (assembly.table.withRule name rule) with
        definitions := assembly.definitions.put name ⟨rule, action⟩ } := by
  have fresh : name ∉ assembly.definitions.keys := fun member =>
    definable.unbound (List.mem_append_left _ (gathered.ruleNames ▸ member))
  have table_eq := gathered.table_withTable (assembly.table.withRule name rule)
  rw [Entries.put_of_not_mem fresh]
  constructor
  case context => exact gathered.context
  case beside => exact gathered.beside_withTable _
  case isBuilt => exact gathered.isBuilt
  case active => exact gathered.active.trans (filterMap_concat_none rfl).symm
  case definitions => exact (congrArg (· ++ [_]) gathered.definitions).trans (filterMap_concat_some (by rfl)).symm
  case ruleNames =>
    refine (congrArg Table.ruleNames table_eq).trans ?_
    simp [gathered.ruleNames, Entries.keys]
  case rules =>
    refine (congrArg (fun table => table.rules.toList) table_eq).trans ?_
    simp [Table.withRule, gathered.rules]
  case dynamics =>
    refine (congrArg Table.dynamics table_eq).trans ?_
    exact gathered.dynamics.trans (filterMap_concat_none rfl).symm
  case regular => exact table_eq.symm ▸ gathered.regular.withRule definable rule

theorem resolving {name : Text} {resolver : Resolver} {answer : AssemblyAnswer}
    (definable : assembly.table.Definable name) :
    Gathered base (events ++ [⟨.defineDynamic name resolver, .ok answer⟩])
      (assembly.withTable (assembly.table.withResolver name resolver)) := by
  have table_eq := gathered.table_withTable (assembly.table.withResolver name resolver)
  constructor
  case context => exact gathered.context
  case beside => exact gathered.beside_withTable _
  case isBuilt => exact gathered.isBuilt
  case active => exact gathered.active.trans (filterMap_concat_none rfl).symm
  case definitions => exact gathered.definitions.trans (filterMap_concat_none rfl).symm
  case ruleNames => exact (congrArg Table.ruleNames table_eq).trans gathered.ruleNames
  case rules => exact (congrArg (fun table => table.rules.toList) table_eq).trans gathered.rules
  case dynamics =>
    refine (congrArg Table.dynamics table_eq).trans ?_
    exact (congrArg (· ++ [_]) gathered.dynamics).trans (filterMap_concat_some (by rfl)).symm
  case regular => exact table_eq.symm ▸ gathered.regular.withResolver definable resolver

/-- A call that succeeds adds its effect. -/
theorem succeeded {call : AssemblyCall} {answer : AssemblyAnswer} (effect : assembly.Effect after call) :
    Gathered base (events ++ [⟨call, .ok answer⟩]) after := by
  cases call with
  | define name rule action =>
    obtain ⟨definable, rfl⟩ := effect
    exact gathered.defined definable
  | defineDynamic name resolver =>
    obtain ⟨definable, rfl⟩ := effect
    exact gathered.resolving definable
  | addRule store rule action wrap =>
    obtain rfl := effect
    refine ⟨gathered.context, gathered.beside, gathered.isBuilt, ?_, ?_, gathered.ruleNames, gathered.rules, ?_,
      gathered.regular⟩
    · exact (congrArg (· ++ [_]) gathered.active).trans (filterMap_concat_some (by rfl)).symm
    · exact gathered.definitions.trans (filterMap_concat_none rfl).symm
    · exact gathered.dynamics.trans (filterMap_concat_none rfl).symm
  | build => cases effect

theorem next {call : AssemblyCall} (other : call.builds = false) :
    Gathered base (events ++ [(assembly.perform call).1]) (assembly.perform call).2 := by
  rcases perform_cases gathered.has gathered.isBuilt other with ⟨answer, after, effect, same⟩ | ⟨fault, same⟩
  · rw [same]
    exact gathered.succeeded effect
  · rw [same]
    exact gathered.refused call fault

end Gathered

theorem Gathered.performAll (gathered : Gathered base events assembly) {calls : List AssemblyCall}
    (others : ∀ call ∈ calls, call.builds = false) :
    Gathered base (events ++ (assembly.performAll calls).1) (assembly.performAll calls).2 := by
  induction calls generalizing assembly events with
  | nil => rwa [Assembly.performAll, List.append_nil]
  | cons call rest ih =>
    have first := gathered.next (others call (List.mem_cons_self ..))
    have all := ih first fun call inside => others call (List.mem_cons_of_mem _ inside)
    rwa [List.append_assoc] at all

theorem performAll_append (assembly : Assembly) (first second : List AssemblyCall) :
    assembly.performAll (first ++ second) =
      ((assembly.performAll first).1 ++ ((assembly.performAll first).2.performAll second).1,
        ((assembly.performAll first).2.performAll second).2) := by
  induction first generalizing assembly with
  | nil => rfl
  | cons call rest ih => simp only [List.cons_append, performAll, ih]

/-- The calls that succeeded come to the same by themselves. -/
theorem Gathered.performAll_succeeding (gathered : Gathered base events assembly) {calls : List AssemblyCall}
    (others : ∀ call ∈ calls, call.builds = false) :
    assembly.performAll (succeeding (assembly.performAll calls).1) =
      ((assembly.performAll calls).1.filter AssemblyEvent.succeeds, (assembly.performAll calls).2) := by
  induction calls generalizing assembly events with
  | nil => rfl
  | cons call rest ih =>
    have other := others call (List.mem_cons_self ..)
    have later : ∀ call ∈ rest, call.builds = false := fun call inside => others call (List.mem_cons_of_mem _ inside)
    rcases perform_cases gathered.has gathered.isBuilt other with ⟨answer, after, effect, same⟩ | ⟨fault, same⟩
    · have kept : AssemblyEvent.succeeds ⟨call, .ok answer⟩ = true := rfl
      simp only [Assembly.performAll, same, succeeding, List.filter_cons, kept, if_true, List.map_cons]
      rw [← succeeding, ih (gathered.succeeded effect) later]
      exact answer
    · have dropped : AssemblyEvent.succeeds ⟨call, .error fault⟩ = false := rfl
      simp only [Assembly.performAll, same, succeeding, List.filter_cons, dropped, Bool.false_eq_true, if_false]
      rw [← succeeding, ih gathered later]

/-- Behind building all calls fail, and everything stays as it is. -/
theorem performAll_of_isBuilt (built : assembly.isBuilt = true) (calls : List AssemblyCall) :
    assembly.performAll calls = (calls.map fun call => ⟨call, .error .builderClosed⟩, assembly) := by
  induction calls with
  | nil => rfl
  | cons call rest ih => simp only [performAll, perform_of_isBuilt built, ih, List.map_cons]

/-- A grammar is what calls built when building gives it behind the calls that succeeded alone, and leaves the builder and
the contexts as behind these; when it has what these made active and defined and nothing else; and when later calls are
refused and change the outcome of no pass, whatever has become of the contexts by then. -/
structure Built (base : Arena) (earlier : List AssemblyCall) (store : RuleStore) (later : List AssemblyCall)
    (grammar : SharedGrammar) (notices : List Notice) (closed : Assembly) : Prop where
  outcomes : (new base).performAll (earlier ++ .build store :: later) =
    (((new base).performAll earlier).1 ++
      ⟨.build store, .ok (.grammar grammar notices)⟩ :: later.map fun call => ⟨call, .error .builderClosed⟩, closed)
  refused : Fault.builderClosed.contract? = some .construction
  alone : (new base).performAll (succeeding ((new base).performAll earlier).1 ++ [.build store]) =
    (((new base).performAll earlier).1.filter AssemblyEvent.succeeds ++ [⟨.build store, .ok (.grammar grammar notices)⟩],
      closed)
  rules : grammar.rules = ((new base).performAll earlier).1.filterMap AssemblyEvent.added?
  definitions : grammar.definitions = ((new base).performAll earlier).1.filterMap AssemblyEvent.definition?
  dynamics : (closed.arena.tableOf grammar.context).dynamics =
    ((new base).performAll earlier).1.filterMap AssemblyEvent.resolver?
  regular : (closed.arena.tableOf grammar.context).Regular
  isSealed : (closed.arena.tableOf grammar.context).isSealed = true
  ruleNames : (closed.arena.tableOf grammar.context).ruleNames = grammar.definitions.keys
  binds : ∀ id name rule action, grammar.definitions[id]? = some (name, ⟨rule, action⟩) →
    (closed.arena.tableOf grammar.context).Binds id name rule ∧ grammar.definitions.lookup name = some ⟨rule, action⟩
  otherContexts : ∀ scope < base.contexts.size, closed.arena.contexts[scope]? = base.contexts[scope]?
  passes : ∀ arena calls within fuel tokens configuration,
    let behind := ({ closed with arena } : Assembly).performAll calls
    behind.1 = (calls.map fun call => ⟨call, .error .builderClosed⟩) ∧
      grammar.parse within fuel tokens behind.2.arena configuration = grammar.parse within fuel tokens arena configuration ∧
      ∀ name, grammar.parseWith within fuel name tokens behind.2.arena configuration =
        grammar.parseWith within fuel name tokens arena configuration

/-- The definition of a number has its rule bound under this number, and is found by its name. -/
theorem Gathered.binds (gathered : Gathered base events assembly) {id : Nat} {name : Text} {rule : Rule}
    {action : CallerAction} (entry : assembly.definitions[id]? = some (name, ⟨rule, action⟩)) :
    assembly.table.Binds id name rule ∧ assembly.definitions.lookup name = some ⟨rule, action⟩ := by
  constructor
  · rw [gathered.regular.binds_iff, gathered.ruleNames, Entries.keys, ← Array.getElem?_toList, gathered.rules,
      List.getElem?_map, List.getElem?_map, entry]
    exact ⟨rfl, rfl⟩
  · have once : assembly.definitions.keys.Nodup := gathered.ruleNames ▸ (List.nodup_append.mp gathered.regular.nodup).1
    exact (Entries.lookup_eq_some_iff_mem once).mpr (List.mem_of_getElem? entry)

/-- Calls that fail leave no trace in the grammar that is built behind them, and no call behind building succeeds or
changes what a pass comes to. -/
theorem exists_built (base : Arena) {earlier : List AssemblyCall} (unbuilt : ∀ call ∈ earlier, call.builds = false)
    (store : RuleStore) (later : List AssemblyCall) :
    ∃ grammar notices closed, Built base earlier store later grammar notices closed := by
  have gathered := (Gathered.new base).performAll unbuilt
  rw [List.nil_append] at gathered
  obtain ⟨notices, builds⟩ : ∃ notices, ((new base).performAll earlier).2.perform (.build store) =
      (⟨.build store, .ok (.grammar ((new base).performAll earlier).2.kept notices)⟩,
        ((new base).performAll earlier).2.closed) := ⟨_, perform_build gathered.has gathered.isBuilt store⟩
  refine ⟨((new base).performAll earlier).2.kept, notices, ((new base).performAll earlier).2.closed, ?_⟩
  constructor
  case outcomes =>
    rw [performAll_append]
    simp only [performAll, builds]
    rw [performAll_of_isBuilt rfl later]
  case refused => rfl
  case alone =>
    rw [performAll_append, (Gathered.new base).performAll_succeeding unbuilt]
    simp only [performAll, builds]
  case rules => exact gathered.active
  case definitions => exact gathered.definitions
  case dynamics =>
    rw [gathered.table_closed]
    exact gathered.dynamics
  case regular =>
    rw [gathered.table_closed]
    exact ⟨gathered.regular.numbered, gathered.regular.nodup, gathered.regular.nonempty⟩
  case isSealed => rw [gathered.table_closed]
  case ruleNames =>
    rw [gathered.table_closed]
    exact gathered.ruleNames
  case binds =>
    intro id name rule action entry
    rw [gathered.table_closed]
    obtain ⟨⟨numbered, at_eq, found⟩, defined⟩ := gathered.binds entry
    exact ⟨⟨numbered, at_eq, found⟩, defined⟩
  case otherContexts => exact (gathered.beside_withTable _).otherContexts
  case passes =>
    intro arena calls within fuel tokens configuration
    have built : ({ ((new base).performAll earlier).2.closed with arena } : Assembly).isBuilt = true := rfl
    rw [performAll_of_isBuilt built calls]
    exact ⟨rfl, rfl, fun _ => rfl⟩

/-- Calls of which the second and the third fail: one name is bound already and the other one is empty. -/
def bracketCalls : List AssemblyCall :=
  [.define "pair" Brackets.pair (.builtIn .identity), .defineDynamic "pair" (pure none),
    .define "" Brackets.nested (.builtIn .identity), .addRule {} (.named "pair") (.builtIn .identity) none]

/-- The grammar has the pair of its one definition, and quotes come too late for it. -/
theorem exists_built_without_failed_calls : ∃ grammar notices closed, (∀ call ∈ bracketCalls, call.builds = false) ∧
    Built {} bracketCalls {} [.define "quote" Brackets.pair (.builtIn .identity)] grammar notices closed ∧
      grammar.definitions = ([("pair", ⟨Brackets.pair, .builtIn .identity⟩)] : Entries Text BoundRule) ∧
      grammar.rules = [⟨.named "pair", .builtIn .identity⟩] ∧
      (closed.arena.tableOf grammar.context).Binds 0 "pair" Brackets.pair := by
  have unbuilt : ∀ call ∈ bracketCalls, call.builds = false := by simp [bracketCalls, AssemblyCall.builds]
  obtain ⟨grammar, notices, closed, built⟩ :=
    exists_built {} unbuilt {} [.define "quote" Brackets.pair (.builtIn .identity)]
  have definitions : grammar.definitions = ([("pair", ⟨Brackets.pair, .builtIn .identity⟩)] : Entries Text BoundRule) := built.definitions
  refine ⟨grammar, notices, closed, unbuilt, built, definitions, built.rules, ?_⟩
  have entry : grammar.definitions[0]? = some (Text.ofString "pair", ⟨Brackets.pair, .builtIn .identity⟩) := by
    rw [definitions]
    rfl
  exact (built.binds 0 "pair" Brackets.pair (.builtIn .identity) entry).1

end Assembly

end TokenGrammar
