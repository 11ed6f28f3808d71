import TokenGrammar.Proofs.Assemblies
import TokenGrammar.Proofs.Building
import TokenGrammar.Proofs.Transparency

namespace TokenGrammar

/-- A resolver that looks at the captures leaves them alone. -/
def DynamicResolver.looking (resolver : DynamicResolver) : Resolver := fun captures => .ok (resolver captures) captures

/-- The library's own action on the matches of a rule. -/
def RuleBinding.bound (binding : RuleBinding) : BoundRule := ⟨binding.rule, .builtIn binding.action⟩

namespace Bindings

/-- Bindings in a table: the rules under their numbers, and the numbers under the names. -/
def tabled (bindings : Bindings) : Table where
  rules := (bindings.rules.map Prod.snd).toArray
  ids := bindings.ruleNames.zipIdx
  dynamics := bindings.dynamics.map fun (name, resolver) => (name, resolver.looking)
  isSealed := bindings.isSealed

variable (bindings : Bindings) (name : Text)

/-- The rule of a name is found by way of its number. -/
theorem lookup_zipIdx (rules : List (Text × Rule)) (name : Text) (first : Nat) (earlier : List Rule)
    (before : earlier.length = first) :
    (((rules.map Prod.fst).zipIdx first).lookup name).bind (fun id => (earlier ++ rules.map Prod.snd)[id]?) =
      rules.lookup name := by
  induction rules generalizing first earlier with
  | nil => rfl
  | cons entry rest ih =>
    obtain ⟨own, rule⟩ := entry
    by_cases same : name = own
    · subst same
      simp [← before]
    · have later := ih (first + 1) (earlier ++ [rule]) (by simp [before])
      simpa [List.lookup_cons, beq_false_of_ne same] using later

theorem rule?_tabled : bindings.tabled.rule? name = bindings.rule? name := by
  have found := lookup_zipIdx bindings.rules name 0 [] rfl
  simpa [Table.rule?, Table.ruleId?, tabled, ruleNames, rule?] using found

theorem lookup_looking (dynamics : List (Text × DynamicResolver)) :
    (dynamics.map fun (name, resolver) => (name, DynamicResolver.looking resolver)).lookup name =
      (dynamics.lookup name).map DynamicResolver.looking := by
  induction dynamics with
  | nil => rfl
  | cons entry rest ih =>
    obtain ⟨own, resolver⟩ := entry
    by_cases same : name = own
    · subst same
      simp
    · simpa [List.lookup_cons, beq_false_of_ne same] using ih

theorem resolver?_tabled : bindings.tabled.resolver? name = (bindings.resolver? name).map DynamicResolver.looking :=
  lookup_looking name bindings.dynamics

theorem ruleNames_tabled : bindings.tabled.ruleNames = bindings.ruleNames := by
  simp [Table.ruleNames, tabled, Entries.keys, List.zipIdx_map_fst]

theorem hasRule_tabled : bindings.tabled.hasRule name = bindings.hasRule name := by
  have same : bindings.tabled.hasRule name = false ↔ bindings.hasRule name = false := by
    rw [Table.hasRule_eq_false_iff, ruleNames_tabled, hasRule, Option.isSome_eq_false_iff, Option.isNone_iff_eq_none]
    exact Entries.lookup_eq_none_iff.symm
  rwa [← not_iff_not, Bool.not_eq_false, Bool.not_eq_false, ← Bool.eq_iff_iff] at same

theorem hasDynamic_tabled : bindings.tabled.hasDynamic name = bindings.hasDynamic name := by
  simp [Table.hasDynamic, hasDynamic, resolver?_tabled]

/-- A table shows the rules that it was made of. -/
theorem rules_bindings_tabled : bindings.tabled.bindings.rules = bindings.rules := by
  refine List.ext_getElem (by simp [Table.bindings, tabled, ruleNames]) fun place inside inside' => ?_
  simp [Table.bindings, tabled, ruleNames, inside']

theorem tabled_concat (rule : Rule) :
    { bindings with rules := bindings.rules ++ [(name, rule)] }.tabled = bindings.tabled.withRule name rule := by
  simp [tabled, Table.withRule, ruleNames, List.zipIdx_append]

theorem tabled_concat_dynamics (resolver : DynamicResolver) :
    { bindings with dynamics := bindings.dynamics ++ [(name, resolver)] }.tabled =
      bindings.tabled.withResolver name resolver.looking := by
  simp [tabled, Table.withResolver, ruleNames]

/-- What rules find around them in a table is what they find in a world. -/
theorem ofTable_tabled (store : RuleStore) (tell : Notice → Attempt Unit) :
    Surroundings.ofTable store bindings.tabled tell = .ofWorld ⟨store, bindings⟩ tell := by
  have rules : bindings.tabled.rule? = bindings.rule? := funext bindings.rule?_tabled
  have asks : (fun name => Attempt.callBack (bindings.tabled.resolve name)) =
      (Surroundings.ofWorld ⟨store, bindings⟩ tell).ask := by
    funext name situation
    rw [Table.resolve, resolver?_tabled]
    simp only [Surroundings.ofWorld, Attempt.captures_bind_apply, resolve?]
    cases bindings.resolver? name <;> rfl
  simp only [Surroundings.ofTable, rules, asks]
  rfl

end Bindings

/-- Which names are unbound depends on the names of the rules that are bound. -/
theorem Grammar.missingNames_congr {store : RuleStore} {bindings bindings' : Bindings}
    (same : bindings'.rules = bindings.rules) (visited : List Nat) (missing : List Text) (pending : List Mention) :
    missingNames store bindings' visited missing pending = missingNames store bindings visited missing pending := by
  have bound (name : Text) : bindings'.hasRule name = bindings.hasRule name := by
    rw [Bindings.hasRule, Bindings.rule?, same]
    rfl
  fun_induction missingNames store bindings visited missing pending with
  | case1 visited missing => rw [missingNames]
  | case2 visited missing name pending ih =>
    rw [missingNames, bound]
    simpa using ih
  | case3 visited missing number pending fresh parts ih => rw [missingNames, dif_pos fresh, ih]
  | case4 visited missing number pending stale ih => rw [missingNames, dif_neg stale, ih]

namespace Pass

variable {world : World} {each : Rule → Run} {bindings : List RuleBinding}

/-- What is done about a match of a binding. -/
def act (world : World) (bound : BoundRule) (found : Match) : Attempt Edit := bound.action.apply world.store found

theorem firstMatch_bound (each : Rule → Run) (bindings : List RuleBinding) :
    firstMatch each (bindings.map RuleBinding.bound) =
      (Engine.firstMatch each bindings >>= fun answer =>
        pure (answer.map fun (binding, found) => (binding.bound, found))) := by
  induction bindings with
  | nil => rfl
  | cons binding rest ih =>
    rw [List.map_cons, firstMatch, Engine.firstMatch, bind_assoc]
    congr 1
    funext found
    cases found with
    | none => exact ih
    | some found => rfl

theorem write_bound (answer : Option (RuleBinding × Match)) :
    write Attempt.notice (act world) world.store (answer.map fun (binding, found) => (binding.bound, found)) =
      Engine.writePieces world answer := by
  cases answer with
  | none => rfl
  | some first =>
    funext situation
    simp only [Option.map_some, write, edit, act, Engine.writePieces, Engine.editMatch, Engine.editMatchTelling,
      RuleBinding.bound, CallerAction.apply, bind_assoc]
    rfl

/-- A pass with the library's own actions is a pass of an engine. -/
theorem pieces_bound (fuel : Nat) :
    pieces Attempt.notice (act world) world.store each (bindings.map RuleBinding.bound) fuel =
      Engine.piecesFrom world each bindings fuel := by
  induction fuel with
  | zero => rfl
  | succ fuel ih =>
    funext situation
    rw [pieces_succ, Engine.piecesFrom_succ, firstMatch_bound, ih, bind_assoc]
    simp only [pure_bind, write_bound]

end Pass

theorem Engine.process_eq (engine : Engine) (world : World) (fuel : Nat) (tokens : List Token) :
    engine.process world fuel tokens =
      let outcome : Outcome (List Piece) := pieces world fuel engine.bindings (.fresh tokens)
      { result := outcome.result, notices := outcome.left.memory.notices } := by
  rw [process, Situation.fresh]
  cases pieces world fuel engine.bindings { stream := .ofTokens tokens, memory := {} } <;> rfl

namespace Processor

variable {arena : Arena} {context : Nat} {bindings : Bindings} (engine : Engine) (store : RuleStore) (fuel : Nat)
  (tokens : List Token)

/-- A pass with the library's own actions, in a context that shows bindings, is a pass of an engine. -/
theorem pass_bound (shows : arena.tableOf context = bindings.tabled) :
    (pass ⟨engine.bindings.map RuleBinding.bound, context⟩ store .everything fuel tokens arena).1 =
      engine.process ⟨store, bindings⟩ fuel tokens := by
  have same : piecesIn ⟨engine.bindings.map RuleBinding.bound, context⟩ store .everything fuel (arena.tableOf context) =
      Engine.pieces ⟨store, bindings⟩ fuel engine.bindings := by
    rw [piecesIn, shows, Bindings.ofTable_tabled]
    simp only [Telling.everything, Rule.runIn_ofWorld]
    exact @Pass.pieces_bound ⟨store, bindings⟩ _ _ fuel
  rw [pass_eq, Engine.process_eq, ← same]

/-- What such a pass comes to and writes when it logs. -/
theorem process_bound (shows : arena.tableOf context = bindings.tabled) (configuration : Configuration) :
    (process ⟨engine.bindings.map RuleBinding.bound, context⟩ store fuel tokens arena configuration).1 =
      let passage := engine.process ⟨store, bindings⟩ fuel tokens
      { result := passage.result
        written := configuration.load.2.2 ++ passage.notices.reverse.filter configuration.settings.shows } := by
  rw [process_eq_pass, ← pass_bound engine store fuel tokens shows]

end Processor

/-- A grammar in a context that shows its bindings. -/
def Grammar.shared (grammar : Grammar) (context : Nat) : SharedGrammar where
  rules := grammar.rules.map RuleBinding.bound
  definitions := grammar.definitions.map fun (name, binding) => (name, binding.bound)
  context

namespace SharedGrammar

variable {arena : Arena} {context : Nat} (grammar : Grammar) (store : RuleStore) (fuel : Nat) (tokens : List Token)
  (configuration : Configuration)

theorem result_parse_shared (shows : arena.tableOf context = grammar.bindings.tabled) :
    ((grammar.shared context).parse store fuel tokens arena configuration).1.result =
      (grammar.parse store fuel tokens).result :=
  congrArg LoggedPassage.result (Processor.process_bound ⟨grammar.rules⟩ store fuel tokens shows configuration)

theorem lookup_shared (definitions : List (Text × RuleBinding)) (name : Text) :
    (definitions.map fun (name, binding) => (name, RuleBinding.bound binding)).lookup name =
      (definitions.lookup name).map RuleBinding.bound := by
  induction definitions with
  | nil => rfl
  | cons entry rest ih =>
    obtain ⟨own, binding⟩ := entry
    by_cases same : name = own
    · subst same
      simp
    · simpa [List.lookup_cons, beq_false_of_ne same] using ih

theorem result_parseWith_shared (shows : arena.tableOf context = grammar.bindings.tabled) (name : Text) :
    ((grammar.shared context).parseWith store fuel name tokens arena configuration).1.map LoggedPassage.result =
      (grammar.parseWith store fuel name tokens).map Passage.result := by
  have found := lookup_shared grammar.definitions name
  rw [parseWith, Grammar.parseWith, Grammar.shared, found]
  cases grammar.definitions.lookup name with
  | none => rfl
  | some binding =>
    have same := Processor.process_bound ⟨[binding]⟩ store fuel tokens shows configuration
    exact congrArg (fun passage : LoggedPassage => Except.ok passage.result) same

end SharedGrammar

namespace Context

variable {arena : Arena} {self : Nat} {bindings : Bindings}

theorem checkDefinable_tabled (shows : arena.tableOf self = bindings.tabled) (name : Text) :
    checkDefinable self name arena = match bindings.checkDefinable name with
      | .ok () => .ok () arena
      | .error fault => .error fault arena := by
  rw [checkDefinable, table_bind_apply, demand_bind_apply, demand_bind_apply, demand, shows, Bindings.hasRule_tabled,
    Bindings.hasDynamic_tabled, Bindings.checkDefinable]
  have closed : bindings.tabled.isSealed = bindings.isSealed := rfl
  rw [closed]
  generalize (!bindings.isSealed) = isOpen
  generalize decide (name ≠ "") = isNamed
  generalize (!bindings.hasRule name && !bindings.hasDynamic name) = isUnbound
  cases isOpen <;> cases isNamed <;> cases isUnbound <;> rfl

/-- Only names that can be bound pass the check. -/
theorem definable_of_checkDefinable {name : Text} (checked : checkDefinable self name arena = .ok () arena) :
    (arena.tableOf self).Definable name := by
  rcases checkDefinable_cases arena self name with ⟨definable, -⟩ | ⟨-, fault, stops⟩
  · exact definable
  · cases checked.symm.trans stops

end Context

/-- A builder shows what another one holds when its context shows the bindings and it has the same rules and names with
the same actions. -/
structure Assembly.Shows (assembly : Assembly) (builder : GrammarBuilder) : Prop where
  has : assembly.arena.Has assembly.context
  table_eq : assembly.table = builder.bindings.tabled
  active_eq : assembly.active = builder.active.map RuleBinding.bound
  definitions_eq : assembly.definitions = builder.definitions.map fun (name, binding) => (name, binding.bound)
  isBuilt_eq : assembly.isBuilt = builder.isBuilt
  names_eq : builder.definitions.map Prod.fst = builder.bindings.ruleNames

/-- A call with the library's own actions and with a resolver that looks. -/
def BuilderCall.shared : BuilderCall → AssemblyCall
  | .define name rule action => .define name rule (.builtIn action)
  | .defineDynamic name resolver => .defineDynamic name resolver.looking
  | .addRule store rule action wrap => .addRule store rule (.builtIn action) wrap
  | .build store => .build store

def BuilderAnswer.shared (context : Nat) : BuilderAnswer → AssemblyAnswer
  | .done notices => .done notices
  | .grammar made notices => .grammar (made.shared context) notices

namespace Assembly.Shows

variable {assembly : Assembly} {builder : GrammarBuilder}

/-- With the resolver of a name a builder still shows the other one with it. -/
theorem withResolver (shows : assembly.Shows builder) (name : Text) (resolver : DynamicResolver) :
    (assembly.withTable (assembly.table.withResolver name resolver.looking)).Shows
      { builder with
        bindings := { builder.bindings with dynamics := builder.bindings.dynamics ++ [(name, resolver)] } } where
  has := ⟨shows.has.context, by simpa [Assembly.withTable, Arena.setTable, Arena.cellOf] using shows.has.table⟩
  table_eq := (Arena.tableOf_setTable_self shows.has).trans
    (shows.table_eq ▸ (Bindings.tabled_concat_dynamics builder.bindings name resolver).symm)
  active_eq := shows.active_eq
  definitions_eq := shows.definitions_eq
  isBuilt_eq := shows.isBuilt_eq
  names_eq := shows.names_eq

/-- With the rule of a new name a builder still shows the other one with it. -/
theorem withRule (shows : assembly.Shows builder) {name : Text} (accepted : assembly.table.Definable name) (rule : Rule)
    (action : Action) :
    Shows { assembly.withTable (assembly.table.withRule name rule) with
        definitions := assembly.definitions.put name ⟨rule, .builtIn action⟩ }
      { builder with
        bindings := { builder.bindings with rules := builder.bindings.rules ++ [(name, rule)] }
        definitions := builder.definitions ++ [(name, ⟨rule, action⟩)] } where
  has := ⟨shows.has.context, by simpa [Assembly.withTable, Arena.setTable, Arena.cellOf] using shows.has.table⟩
  table_eq := (Arena.tableOf_setTable_self shows.has).trans
    (shows.table_eq ▸ (Bindings.tabled_concat builder.bindings name rule).symm)
  active_eq := shows.active_eq
  definitions_eq := by
    have keys_eq : assembly.definitions.keys = assembly.table.ruleNames := by
      rw [shows.table_eq, Bindings.ruleNames_tabled, ← shows.names_eq, shows.definitions_eq, Entries.keys, List.map_map]
      rfl
    have fresh : name ∉ assembly.definitions.keys := fun member =>
      accepted.unbound (List.mem_append_left _ (keys_eq ▸ member))
    rw [Entries.put_of_not_mem fresh]
    simp [shows.definitions_eq, RuleBinding.bound]
  isBuilt_eq := shows.isBuilt_eq
  names_eq := by simp [shows.names_eq, Bindings.ruleNames]

/-- What a call comes to on a builder, and on one that shows it. -/
structure Alike (assembly : Assembly) (builder : GrammarBuilder) (call : BuilderCall) : Prop where
  outcome_eq : (assembly.perform call.shared).1.outcome =
    (builder.perform call).1.outcome.map (BuilderAnswer.shared assembly.context)
  context_eq : (assembly.perform call.shared).2.context = assembly.context
  shows : (assembly.perform call.shared).2.Shows (builder.perform call).2

theorem alike_of_ok {call : BuilderCall} (answer : BuilderAnswer) {after : Assembly} {later : GrammarBuilder}
    (shows : after.Shows later) (context_eq : after.context = assembly.context)
    (performs : assembly.perform call.shared = (⟨call.shared, .ok (answer.shared assembly.context)⟩, after))
    (calls : builder.call call = .ok (answer, later)) : Alike assembly builder call := by
  have calls := GrammarBuilder.perform_of_ok calls
  exact ⟨by rw [performs, calls]; rfl, by rw [performs, context_eq], by rwa [performs, calls]⟩

theorem alike_of_error {call : BuilderCall} (fault : Fault) (shows : assembly.Shows builder)
    (performs : assembly.perform call.shared = (⟨call.shared, .error fault⟩, assembly))
    (calls : builder.call call = .error fault) : Alike assembly builder call := by
  have calls := GrammarBuilder.perform_of_error calls
  exact ⟨by rw [performs, calls]; rfl, by rw [performs], by rwa [performs, calls]⟩

/-- A call that binds a name stops where the name cannot be bound, for the same reason. -/
theorem alike_define (shows : assembly.Shows builder) (opened : builder.isBuilt = false) (name : Text) (rule : Rule)
    (action : Action) : Alike assembly builder (.define name rule action) := by
  have admits := GrammarBuilder.checkOpen_eq_ok_iff.mpr opened
  have checked := Context.checkDefinable_tabled shows.table_eq name
  cases definable : builder.bindings.checkDefinable name with
  | error fault =>
    rw [definable] at checked
    refine alike_of_error fault shows ?_ ?_
    · rw [BuilderCall.shared, perform_define (shows.isBuilt_eq.trans opened), Context.defineRule, Stateful.bind_apply, checked]
    · rw [GrammarBuilder.call, GrammarBuilder.define, admits, Bindings.defineRule, definable]
      rfl
  | ok =>
    rw [definable] at checked
    have accepted : assembly.table.Definable name := Context.definable_of_checkDefinable checked
    rcases Context.defineRule_cases shows.has name rule with ⟨-, made⟩ | ⟨refused, -⟩
    · refine alike_of_ok (.done []) (shows.withRule accepted rule action) rfl ?_ ?_
      · rw [BuilderCall.shared, perform_define (shows.isBuilt_eq.trans opened), made]
        rfl
      · rw [GrammarBuilder.call, GrammarBuilder.define, admits, Bindings.defineRule, definable]
        rfl
    · exact absurd accepted refused

theorem alike_defineDynamic (shows : assembly.Shows builder) (opened : builder.isBuilt = false) (name : Text)
    (resolver : DynamicResolver) : Alike assembly builder (.defineDynamic name resolver) := by
  have admits := GrammarBuilder.checkOpen_eq_ok_iff.mpr opened
  have checked := Context.checkDefinable_tabled shows.table_eq name
  cases definable : builder.bindings.checkDefinable name with
  | error fault =>
    rw [definable] at checked
    refine alike_of_error fault shows ?_ ?_
    · rw [BuilderCall.shared, perform_defineDynamic (shows.isBuilt_eq.trans opened), Context.defineDynamic,
        Stateful.bind_apply, checked]
    · rw [GrammarBuilder.call, GrammarBuilder.defineDynamic, admits, Bindings.defineDynamic, definable]
      rfl
  | ok =>
    rw [definable] at checked
    have accepted : assembly.table.Definable name := Context.definable_of_checkDefinable checked
    rcases Context.defineDynamic_cases assembly.arena assembly.context name resolver.looking with
      ⟨-, made⟩ | ⟨refused, -⟩
    · refine alike_of_ok (.done []) (shows.withResolver name resolver) rfl ?_ ?_
      · rw [BuilderCall.shared, perform_defineDynamic (shows.isBuilt_eq.trans opened), made]
        rfl
      · rw [GrammarBuilder.call, GrammarBuilder.defineDynamic, admits, Bindings.defineDynamic, definable]
        rfl
    · exact absurd accepted refused

theorem alike_addRule (shows : assembly.Shows builder) (opened : builder.isBuilt = false) (store : RuleStore)
    (rule : Rule) (action : Action) (wrap : Option Bool) :
    Alike assembly builder (.addRule store rule action wrap) := by
  have admits := GrammarBuilder.checkOpen_eq_ok_iff.mpr opened
  let added := wrapped store rule (.builtIn action) wrap
  have after : Shows { assembly with active := assembly.active ++ [⟨added.1, .builtIn action⟩] }
      { builder with active := builder.active ++ [⟨added.1, action⟩] } :=
    { shows with active_eq := by simp [shows.active_eq, RuleBinding.bound] }
  refine alike_of_ok (.done added.2) after rfl ?_ ?_
  · exact perform_addRule (shows.isBuilt_eq.trans opened) ..
  · rw [GrammarBuilder.call, GrammarBuilder.addRule, admits]
    rfl

theorem closed (shows : assembly.Shows builder) : assembly.closed.Shows builder.closed where
  has := ⟨shows.has.context, by
    simpa [Assembly.closed, Assembly.withTable, Arena.setTable, Arena.cellOf] using shows.has.table⟩
  table_eq := (Arena.tableOf_setTable_self shows.has).trans (by rw [shows.table_eq]; rfl)
  active_eq := shows.active_eq
  definitions_eq := shows.definitions_eq
  isBuilt_eq := rfl
  names_eq := shows.names_eq

/-- Building warns of the same names. -/
theorem warnings_eq (shows : assembly.Shows builder) (store : RuleStore) :
    warnings store { assembly.table with isSealed := true } assembly.active assembly.definitions =
      (Grammar.unboundNames store builder.bindings.close (builder.active.map RuleBinding.rule ++
          builder.definitions.map fun entry => entry.2.rule)).map Notice.ruleNeverDefined ++
        (if builder.active.isEmpty then [Notice.noActiveRules] else []) := by
  have rules : ({ assembly.table with isSealed := true } : Table).bindings.rules = builder.bindings.close.rules := by
    rw [shows.table_eq]
    exact builder.bindings.close.rules_bindings_tabled
  rw [warnings, Grammar.unboundNames, Grammar.missingNames_congr rules, shows.active_eq, shows.definitions_eq,
    Grammar.unboundNames, List.map_map, List.map_map]
  simp only [List.isEmpty_map]
  rfl

theorem alike_build (shows : assembly.Shows builder) (opened : builder.isBuilt = false) (store : RuleStore) :
    Alike assembly builder (.build store) := by
  have admits := GrammarBuilder.checkOpen_eq_ok_iff.mpr opened
  have performs := perform_build shows.has (shows.isBuilt_eq.trans opened) store
  have kept_eq : assembly.kept = builder.closed.kept.shared assembly.context := by
    rw [Assembly.kept, shows.active_eq, shows.definitions_eq]
    rfl
  rw [shows.warnings_eq, kept_eq] at performs
  refine alike_of_ok (.grammar builder.closed.kept _) shows.closed rfl performs ?_
  rw [GrammarBuilder.call, GrammarBuilder.build, admits]
  rfl

/-- A call on a builder comes to the same on one that shows it, and this still shows it then. -/
theorem alike (shows : assembly.Shows builder) (call : BuilderCall) : Alike assembly builder call := by
  cases built : builder.isBuilt with
  | true =>
    exact alike_of_error .builderClosed shows (perform_of_isBuilt (shows.isBuilt_eq.trans built) _)
      (GrammarBuilder.call_of_isBuilt built call)
  | false =>
    cases call with
    | define name rule action => exact shows.alike_define built name rule action
    | defineDynamic name resolver => exact shows.alike_defineDynamic built name resolver
    | addRule store rule action wrap => exact shows.alike_addRule built store rule action wrap
    | build store => exact shows.alike_build built store

end Assembly.Shows

/-- A new builder shows an empty one. -/
theorem Assembly.shows_new (base : Arena) : (Assembly.new base).Shows {} where
  has := (Gathered.new base).has
  table_eq := by simp [Assembly.table, Assembly.new, Arena.create, Arena.tableOf, Arena.cellOf, Bindings.tabled,
    Bindings.ruleNames]
  active_eq := rfl
  definitions_eq := rfl
  isBuilt_eq := rfl
  names_eq := rfl

/-- Calls with the library's own actions, and with resolvers that look, come to the same on a builder as on one that shows
it. -/
theorem Assembly.Shows.performAll {assembly : Assembly} {builder : GrammarBuilder} (shows : assembly.Shows builder)
    (calls : List BuilderCall) :
    ((assembly.performAll (calls.map BuilderCall.shared)).1.map AssemblyEvent.outcome =
        (builder.performAll calls).1.map fun event => event.outcome.map (BuilderAnswer.shared assembly.context)) ∧
      (assembly.performAll (calls.map BuilderCall.shared)).2.Shows (builder.performAll calls).2 := by
  induction calls generalizing assembly builder with
  | nil => exact ⟨rfl, shows⟩
  | cons call rest ih =>
    obtain ⟨outcome_eq, context_eq, shows⟩ := shows.alike call
    obtain ⟨outcomes_eq, shows⟩ := ih shows
    refine ⟨?_, shows⟩
    rw [context_eq] at outcomes_eq
    exact congrArg₂ List.cons outcome_eq outcomes_eq

end TokenGrammar
