import TokenGrammar.Proofs.Captured
import TokenGrammar.Proofs.Processing
import TokenGrammar.Proofs.Resolvers

namespace TokenGrammar

namespace Arena

variable {arena : Arena} {self target : Nat}

/-- What is captured in a fork is captured in no context from before. -/
theorem getElem?_contexts_setCaptures_fork (captures : Captures) (inside : target < arena.contexts.size) :
    ((arena.fork self).2.setCaptures (arena.fork self).1 captures).contexts[target]? = arena.contexts[target]? := by
  have other : (arena.fork self).1 ≠ target := Nat.ne_of_gt inside
  rw [setCaptures, setCell, Array.getElem?_setIfInBounds_ne other, getElem?_contexts_fork inside]

/-- A fork adds an empty table, which nothing points at in the end. -/
theorem getElem?_tables_setCaptures_fork (captures : Captures) {address : Nat} (inside : address < arena.tables.size) :
    ((arena.fork self).2.setCaptures (arena.fork self).1 captures).tables[address]? = arena.tables[address]? := by
  have same : ((arena.fork self).2.setCaptures (arena.fork self).1 captures).tables = arena.tables.push {} := rfl
  rw [same, Array.getElem?_push, if_neg (Nat.ne_of_lt inside)]

end Arena

namespace Origins

variable {around : Surroundings} {stop : Stop}

theorem known_notice (notice : Notice) : Known around stop _ fun _ => Attempt.notice notice :=
  known_const fun answers => by cases answers; rfl

/-- Logging leaves the captures alone. -/
theorem known_log (configuration : Configuration) (notice : Notice) :
    Known around stop _ fun _ => Attempt.log configuration notice := by
  have composable := known_composable around stop
  have all (notices : List Notice) : Known around stop _ fun _ => notices.forM Attempt.notice := by
    induction notices with
    | nil => exact composable.pure _
    | cons notice rest ih => exact composable.bind (known_notice notice) fun _ => ih
  simp only [Attempt.log]
  obtain ⟨_, writes, loading⟩ := configuration.ask fun settings => settings.writes notice.level
  refine composable.bind (all loading) fun _ => ?_
  cases writes with
  | true => exact known_notice notice
  | false => exact composable.pure _

theorem known_matched (configuration : Configuration) (notice : Notice) :
    Known around stop _ fun _ => configuration.telling.matched notice := by
  simp only [Configuration.telling, Telling.logging]
  split
  · exact known_log _ notice
  · exact (known_composable around stop).pure _

end Origins

namespace Processor

/-- The pieces of a pass in a context that stops for a given reason where the marked step would be taken in the marked
situation. -/
noncomputable def piecesStopping (processor : Processor) (around : Surroundings) (matched : Notice → Attempt Unit)
    (fuel : Nat) (stop : Stop) (marked : Option (Step × Situation)) : Attempt (List Piece) :=
  Pass.pieces matched
    (fun bound found => Attempt.stopAt stop marked (.act bound found) (bound.action.apply around.store found))
    around.store (Rule.runStopping around stop marked fuel) processor.rules fuel

/-- What the rules of a pass find around them in a fork of the context. -/
def around (processor : Processor) (store : RuleStore) (arena : Arena) (configuration : Configuration) : Surroundings :=
  let forked := arena.fork processor.context
  .ofTable store (forked.2.tableOf forked.1) configuration.telling.lacking

/-- A pass takes a step in a situation on its way when it stops as soon as that is marked, for a reason for which it does
not stop by itself. -/
def Takes (processor : Processor) (store : RuleStore) (fuel : Nat) (tokens : List Token) (arena : Arena)
    (configuration : Configuration) (step : Step) (tried : Situation) : Prop :=
  let pieces := processor.piecesStopping (processor.around store arena configuration) configuration.telling.matched fuel
  let forked := arena.fork processor.context
  let begin := start forked.2 forked.1 tokens
  ∃ stop, ¬ (pieces stop none).Stops stop begin ∧ (pieces stop (some (step, tried))).Stops stop begin

/-- A pass asks the resolver of a name about captures when it does where these are captured. -/
def Asks (processor : Processor) (store : RuleStore) (fuel : Nat) (tokens : List Token) (arena : Arena)
    (configuration : Configuration) (name : Text) (captures : Captures) : Prop :=
  ∃ tried, processor.Takes store fuel tokens arena configuration (.ask name) tried ∧ tried.memory.captures = captures

/-- A pass keeps tokens under a key when a step on its way does. -/
def KeepsCapture (processor : Processor) (store : RuleStore) (fuel : Nat) (tokens : List Token) (arena : Arena)
    (configuration : Configuration) (key : Text) (kept : List Token) : Prop :=
  ∃ step tried, processor.Takes store fuel tokens arena configuration step tried ∧
    step.KeepsCapture (processor.around store arena configuration) tried key kept

variable {processor : Processor} {store : RuleStore} {fuel : Nat} {tokens : List Token} {arena arena' : Arena}
  {configuration : Configuration} {step : Step} {tried : Situation} {stop : Stop}

theorem around_eq (processor : Processor) (store : RuleStore) (arena : Arena) (configuration : Configuration) :
    processor.around store arena configuration =
      .ofTable store (arena.tableOf processor.context) configuration.telling.lacking := by
  rw [around, Arena.tableOf_fork_self]

/-- Where nothing is marked, a pass is not stopped. -/
theorem piecesStopping_none (processor : Processor) (store : RuleStore) (table : Table) (telling : Telling) :
    processor.piecesStopping (.ofTable store table telling.lacking) telling.matched fuel stop none =
      processor.piecesIn store telling fuel table := by
  simp only [piecesStopping, Attempt.stopAt_none, Rule.runStopping_none]
  rfl

/-- A pass is known as its rules and actions are. -/
theorem known_piecesStopping (processor : Processor) (store : RuleStore) (fuel : Nat) (arena : Arena)
    (configuration : Configuration) (stop : Stop) :
    Origins.Known (processor.around store arena configuration) stop _
      (processor.piecesStopping (processor.around store arena configuration) configuration.telling.matched fuel stop) :=
  (Origins.known_composable _ stop).pieces _ _ _ (fun _ _ => Origins.known_matched configuration _)
    (Origins.known_act _ stop) (fun rule => Origins.known_run (Origins.known_log _) rule fuel) fuel

/-- A pass asks resolvers in the situations in which it is known to ask them, and in no others. -/
theorem asking_piecesStopping (processor : Processor) (store : RuleStore) (fuel : Nat) (arena : Arena)
    (configuration : Configuration) (stop : Stop) (other : Text → Attempt (Option DynamicBinding)) :
    Origins.Asking (processor.around store arena configuration) other stop _ fun i =>
      processor.piecesStopping ((processor.around store arena configuration).beside other i)
        configuration.telling.matched fuel stop i.join :=
  (Origins.asking_composable _ other stop).pieces _ _ _ (fun _ _ => (Origins.known_matched configuration _).asking)
    (fun bound found => (Origins.known_act _ stop bound found).asking)
    (fun rule => Origins.asking_run other (Origins.known_log _) rule fuel) fuel

/-- What is captured where a pass takes a step was kept in the pass. -/
theorem Takes.keeps_of_find? (takes : processor.Takes store fuel tokens arena configuration step tried) {key : Text}
    {kept : List Token} (finds : tried.memory.captures.find? key = some kept) :
    processor.KeepsCapture store fuel tokens arena configuration key kept := by
  obtain ⟨stop, silent, stops⟩ := takes
  have known := processor.known_piecesStopping store fuel arena configuration stop
  rcases known.found silent stops key kept finds with before | ⟨keeper, earlier, stops, keeps⟩
  · -- Nothing is captured in a fork at first.
    rw [start_fork] at before
    cases before
  · exact ⟨keeper, earlier, ⟨stop, silent, stops⟩, keeps⟩

/-- A pass adds its fork to the contexts, and nothing else. -/
theorem snd_process (processor : Processor) (store : RuleStore) (fuel : Nat) (tokens : List Token) (arena : Arena)
    (configuration : Configuration) :
    ∃ captures, (processor.process store fuel tokens arena configuration).2.1 =
      (arena.fork processor.context).2.setCaptures (arena.fork processor.context).1 captures := by
  rw [process_eq, pass_eq]
  exact ⟨_, rfl⟩

/-- A pass comes to what its pieces come to where nothing is captured. -/
theorem process_congr (same : processor.piecesIn store configuration.telling fuel (arena'.tableOf processor.context)
        (.fresh tokens) =
      processor.piecesIn store configuration.telling fuel (arena.tableOf processor.context) (.fresh tokens)) :
    (processor.process store fuel tokens arena' configuration).1 =
        (processor.process store fuel tokens arena configuration).1 ∧
      (processor.process store fuel tokens arena' configuration).2.2 =
        (processor.process store fuel tokens arena configuration).2.2 := by
  simp only [process_eq, pass_eq, same, and_self]

/-- A pass comes to the same with other resolvers where these do the same when they are asked about what the pass asks
about. -/
theorem process_congr_of_asks
    (rules : (arena'.tableOf processor.context).rule? = (arena.tableOf processor.context).rule?)
    (agree : ∀ name captures, processor.Asks store fuel tokens arena configuration name captures →
      (arena'.tableOf processor.context).resolve name captures =
        (arena.tableOf processor.context).resolve name captures) :
    (processor.process store fuel tokens arena' configuration).1 =
        (processor.process store fuel tokens arena configuration).1 ∧
      (processor.process store fuel tokens arena' configuration).2.2 =
        (processor.process store fuel tokens arena configuration).2.2 := by
  let other (name : Text) := Attempt.callBack ((arena'.tableOf processor.context).resolve name)
  let begin := Situation.fresh tokens
  let pieces (table : Table) := processor.piecesIn store configuration.telling fuel table
  have around_eq := processor.around_eq store arena configuration
  have otherwise : (processor.around store arena configuration).beside other (none : Option Unit) =
      .ofTable store (arena'.tableOf processor.context) configuration.telling.lacking := by
    rw [around_eq]
    simp only [Surroundings.beside, Surroundings.ofTable, rules, other]
  obtain ⟨stop, silent⟩ := Attempt.exists_not_stops (pieces (arena.tableOf processor.context)) begin
  have unmarked : processor.piecesStopping (processor.around store arena configuration) configuration.telling.matched
      fuel stop none = pieces (arena.tableOf processor.context) := by
    rw [around_eq, piecesStopping_none]
  have asking := processor.asking_piecesStopping store fuel arena configuration stop other
  refine process_congr ?_
  calc pieces (arena'.tableOf processor.context) begin
    _ = processor.piecesStopping ((processor.around store arena configuration).beside other (none : Option Unit))
          configuration.telling.matched fuel stop none begin := by
      rw [otherwise, piecesStopping_none]
    _ = processor.piecesStopping (processor.around store arena configuration) configuration.telling.matched fuel stop
          none begin := by
      refine asking.same begin (unmarked ▸ silent) fun name tried stops => ?_
      have asks : processor.Asks store fuel tokens arena configuration name tried.memory.captures := by
        refine ⟨tried, ⟨stop, ?_, ?_⟩, rfl⟩
        · rw [start_fork, unmarked]
          exact silent
        · rw [start_fork]
          exact stops
      simp only [other, around_eq, Surroundings.ofTable, Attempt.callBack, agree name _ asks]
    _ = pieces (arena.tableOf processor.context) begin := by rw [unmarked]

end Processor

/-- A pass in a context is isolated when it comes to the same whatever contexts there are and whatever is captured in
them, as long as the context shows the same table, and when it leaves the contexts and tables from before as they were. -/
structure Isolated {α : Type} (context : Nat) (pass : Arena → α × Arena × Configuration) : Prop where
  fst_eq : ∀ arena arena', arena'.tableOf context = arena.tableOf context →
    (pass arena').1 = (pass arena).1 ∧ (pass arena').2.2 = (pass arena).2.2
  tables_eq : ∀ arena, ∀ address < arena.tables.size, (pass arena).2.1.tables[address]? = arena.tables[address]?
  contexts_eq : ∀ arena, ∀ scope < arena.contexts.size, (pass arena).2.1.contexts[scope]? = arena.contexts[scope]?

namespace Isolated

variable {α : Type} {context scope : Nat} {pass : Arena → α × Arena × Configuration} {arena : Arena}

theorem cellOf_eq (isolated : Isolated context pass) (inside : scope < arena.contexts.size) :
    (pass arena).2.1.cellOf scope = arena.cellOf scope := by
  rw [Arena.cellOf, Arena.cellOf, Array.getD_eq_getD_getElem?, Array.getD_eq_getD_getElem?,
    isolated.contexts_eq arena scope inside]

/-- A context has captured afterwards what it had captured before. -/
theorem capturesOf_eq (isolated : Isolated context pass) (inside : scope < arena.contexts.size) :
    (pass arena).2.1.capturesOf scope = arena.capturesOf scope := by
  rw [Arena.capturesOf, isolated.cellOf_eq inside, Arena.capturesOf]

/-- A context shows the same table afterwards. -/
theorem tableOf_eq (isolated : Isolated context pass) (has : arena.Has scope) :
    (pass arena).2.1.tableOf scope = arena.tableOf scope := by
  rw [Arena.tableOf, Arena.tableOf, isolated.cellOf_eq has.context, Array.getD_eq_getD_getElem?,
    Array.getD_eq_getD_getElem?, isolated.tables_eq arena _ has.table]

end Isolated

theorem Processor.process_isolated (processor : Processor) (store : RuleStore) (fuel : Nat) (tokens : List Token)
    (configuration : Configuration) :
    Isolated processor.context fun arena => processor.process store fuel tokens arena configuration where
  fst_eq arena arena' same := process_congr (by rw [same])
  tables_eq arena address inside := by
    obtain ⟨captures, after⟩ := processor.snd_process store fuel tokens arena configuration
    rw [after, Arena.getElem?_tables_setCaptures_fork captures inside]
  contexts_eq arena scope inside := by
    obtain ⟨captures, after⟩ := processor.snd_process store fuel tokens arena configuration
    rw [after, Arena.getElem?_contexts_setCaptures_fork captures inside]

theorem SharedGrammar.parseWith_isolated (grammar : SharedGrammar) (store : RuleStore) (fuel : Nat) (name : Text)
    (tokens : List Token) (configuration : Configuration) :
    Isolated grammar.context fun arena => grammar.parseWith store fuel name tokens arena configuration := by
  unfold SharedGrammar.parseWith
  cases grammar.definitions.lookup name with
  | none => exact ⟨fun _ _ _ => ⟨rfl, rfl⟩, fun _ _ _ => rfl, fun _ _ _ => rfl⟩
  | some bound =>
    have isolated := Processor.process_isolated ⟨[bound], grammar.context⟩ store fuel tokens configuration
    exact ⟨fun arena arena' same => (isolated.fst_eq arena arena' same).imp_left (congrArg Except.ok),
      isolated.tables_eq, isolated.contexts_eq⟩

/-- The passes of processors and grammars are isolated: whether they return or stop, they come to the same whatever was
captured in their context before, and they leave its captures and its table as they were, although resolvers and actions
may capture what they like. Whatever captures a resolver is asked about in a pass, each of them was kept in the pass; and
what resolvers do about these captures is all that a pass depends on them for. -/
theorem passes_isolated :
    (∀ (processor : Processor) store fuel tokens configuration,
      Isolated processor.context fun arena => processor.process store fuel tokens arena configuration) ∧
    (∀ (grammar : SharedGrammar) store fuel tokens configuration,
      Isolated grammar.context fun arena => grammar.parse store fuel tokens arena configuration) ∧
    (∀ (grammar : SharedGrammar) store fuel name tokens configuration,
      Isolated grammar.context fun arena => grammar.parseWith store fuel name tokens arena configuration) ∧
    ∀ (processor : Processor) store fuel tokens arena configuration,
      (∀ name captures, processor.Asks store fuel tokens arena configuration name captures →
        ∀ key kept, captures.find? key = some kept →
          processor.KeepsCapture store fuel tokens arena configuration key kept) ∧
      ∀ arena', (arena'.tableOf processor.context).rule? = (arena.tableOf processor.context).rule? →
        (∀ name captures, processor.Asks store fuel tokens arena configuration name captures →
          (arena'.tableOf processor.context).resolve name captures =
            (arena.tableOf processor.context).resolve name captures) →
        (processor.process store fuel tokens arena' configuration).1 =
            (processor.process store fuel tokens arena configuration).1 ∧
          (processor.process store fuel tokens arena' configuration).2.2 =
            (processor.process store fuel tokens arena configuration).2.2 := by
  refine ⟨Processor.process_isolated, fun grammar => Processor.process_isolated ⟨grammar.rules, grammar.context⟩,
    SharedGrammar.parseWith_isolated, fun processor store fuel tokens arena configuration =>
      ⟨?_, fun arena' => Processor.process_congr_of_asks⟩⟩
  rintro name captures ⟨tried, takes, rfl⟩ key kept finds
  exact takes.keeps_of_find? finds

namespace Brackets

open Rule

/-- Finds what has been captured first, and captures that it was asked. -/
def again : Resolver := fun captures =>
  .ok ((captures.find? "first").map .tokens) (captures.keep "asked" [])

def noting : CallerAction := .custom "note" false fun _ found captures =>
  .ok { tokens := found.tokens } (captures.keep "noted" found.tokens)

/-- Looks for two opening brackets, the first of which is captured, or else for what a resolver finds. -/
def echoing : Processor where
  rules := [⟨doubled, .builtIn .identity⟩, ⟨.reference "again" .dynamic, noting⟩]
  context := 0

/-- A context in which a closing bracket was captured before. -/
def echoes : Arena where
  tables := #[{ dynamics := [("again", again)] }]
  contexts := #[{ table := 0, captures := ⟨[("first", [closing])]⟩ }]

def captured : Situation := { single with memory.captures := ⟨[("first", [opening])]⟩ }

/-- What the two brackets do on the way asks nobody. -/
theorem doubled_runStopping (around : Surroundings) (stop : Stop) (situation : Situation) :
    doubled.runStopping around stop (some (.ask "again", captured)) 4 situation = doubled.runIn around 4 situation := by
  have runs (rule : Rule) (situation : Situation) :
      some (Step.ask "again", captured) ≠ some (Step.run rule, situation) := by simp
  have taking_eq (fuel : Nat) : (taking opening).runStopping around stop (some (.ask "again", captured)) (fuel + 1) =
      (taking opening).runIn around (fuel + 1) :=
    funext fun situation => Attempt.stopAt_other (runs _ situation)
  have capture_eq : (Rule.capture "first" (taking opening)).runStopping around stop (some (.ask "again", captured)) 3 =
      (Rule.capture "first" (taking opening)).runIn around 3 := by
    funext situation
    exact (Attempt.stopAt_other (runs _ situation)).trans (Origins.step_capture_congr (by rw [taking_eq]))
  refine (Attempt.stopAt_other (runs _ situation)).trans ?_
  simp only [doubled, Rule.stepIn, Rule.step, Rule.body, Run.inTurn, taking_eq, capture_eq]
  rfl

/-- Where the second token is missing, the first one is captured all the same. -/
theorem doubled_captures (around : Surroundings) : doubled.runIn around 4 single = .ok none captured := by
  rfl

theorem echoing_returns :
    (echoing.process {} 4 [opening, closing] echoes {}).1.result.isOk = true := by
  decide +kernel

theorem echoing_asks :
    echoing.Asks {} 4 [opening, closing] echoes {} "again" ⟨[("first", [opening])]⟩ := by
  refine ⟨captured, ⟨.exhausted, ?_, ?_⟩, rfl⟩
  · rw [Processor.start_fork, Processor.around_eq, Processor.piecesStopping_none]
    rintro ⟨stopped, stops⟩
    have returns := echoing_returns
    rw [Processor.process_eq, Processor.pass_eq] at returns
    simp only [stops] at returns
    cases returns
  · have second : ((Rule.reference "again" .dynamic).runStopping (echoing.around {} echoes {}) .exhausted
        (some (.ask "again", captured)) 4).Stops .exhausted captured :=
      Origins.stops_reference rfl captured 3
    have first : (Pass.firstMatch (Rule.runStopping (echoing.around {} echoes {}) .exhausted
        (some (.ask "again", captured)) 4) echoing.rules).Stops .exhausted single := by
      unfold Attempt.Stops
      rw [echoing, Pass.firstMatch, Stateful.bind_apply, Attempt.apart_apply]
      simp only [id_eq]
      rw [doubled_runStopping, doubled_captures]
      exact (Attempt.stops_apart_iff.mpr second).bind _
    unfold Attempt.Stops
    rw [Processor.start_fork, Processor.piecesStopping, Pass.pieces_succ, if_pos (by decide +kernel)]
    exact first.bind _

/-- The resolver and the action have captured something in the fork. -/
theorem echoing_captures :
    ((echoing.process {} 4 [opening, closing] echoes {}).2.1.capturesOf 1).entries.map Prod.fst =
      [("asked" : Text), "noted", "first"] := by
  decide +kernel

end Brackets

/-- A resolver finds what was captured in the pass, and what it and an action capture in turn is not captured in the
context. -/
theorem passes_isolated_from_callers :
    Brackets.echoing.Asks {} 4 [Brackets.opening, Brackets.closing] Brackets.echoes {} "again"
        ⟨[("first", [Brackets.opening])]⟩ ∧
      Brackets.echoing.KeepsCapture {} 4 [Brackets.opening, Brackets.closing] Brackets.echoes {} "first"
        [Brackets.opening] ∧
      ((Brackets.echoing.process {} 4 [Brackets.opening, Brackets.closing] Brackets.echoes {}).2.1.capturesOf
        1).entries.map Prod.fst = [("asked" : Text), "noted", "first"] ∧
      (Brackets.echoing.process {} 4 [Brackets.opening, Brackets.closing] Brackets.echoes {}).2.1.capturesOf 0 =
        ⟨[("first", [Brackets.closing])]⟩ ∧
      (Brackets.echoing.process {} 4 [Brackets.opening, Brackets.closing]
          { Brackets.echoes with contexts := #[{ table := 0 }] } {}).1 =
        (Brackets.echoing.process {} 4 [Brackets.opening, Brackets.closing] Brackets.echoes {}).1 := by
  obtain ⟨isolated, -, -, asked⟩ := passes_isolated
  obtain ⟨kept, same⟩ := asked Brackets.echoing {} 4 [Brackets.opening, Brackets.closing] Brackets.echoes {}
  refine ⟨Brackets.echoing_asks, kept _ _ Brackets.echoing_asks _ _ rfl, Brackets.echoing_captures, ?_, ?_⟩
  · have alone := isolated Brackets.echoing {} 4 [Brackets.opening, Brackets.closing] {}
    exact alone.capturesOf_eq (show 0 < Brackets.echoes.contexts.size by decide)
  · exact (same { Brackets.echoes with contexts := #[{ table := 0 }] } rfl fun _ _ _ => rfl).1

end TokenGrammar
