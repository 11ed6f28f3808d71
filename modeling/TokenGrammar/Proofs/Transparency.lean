import TokenGrammar.Proofs.Tracing

namespace TokenGrammar

namespace Configuration

/-- Settings that have been loaded are in effect, and loading them again changes nothing. -/
theorem load_load (configuration : Configuration) :
    configuration.load.1.load = (configuration.load.1, configuration.load.2.1, []) := by
  cases loaded : configuration.loaded <;> simp [load, loaded]

/-- What is noticed while settings are loaded is noticed in the name of the configuration. -/
theorem scope_of_mem_load {configuration : Configuration} {notice : Notice}
    (noticed : notice ∈ configuration.load.2.2) : notice.scope = "config" := by
  cases loaded : configuration.loaded with
  | some settings => simp [load, loaded] at noticed
  | none =>
    simp only [load, loaded] at noticed
    cases files : configuration.files with
    | failed reason =>
      rw [files] at noticed
      rw [List.mem_singleton.mp noticed]
      rfl
    | nothing =>
      rw [files] at noticed
      cases noticed
    | found filePath isEmpty content =>
      rw [files, fileSettings] at noticed
      split at noticed <;> cases noticed

end Configuration

/-- Under settings that have been loaded, a notice is written if its level is. -/
theorem Attempt.log_load (configuration : Configuration) (notice : Notice) :
    Attempt.log configuration.load.1 notice =
      if configuration.settings.writes notice.level then Attempt.notice notice else pure () := by
  simp only [Attempt.log, Configuration.ask, configuration.load_load]
  rfl

section Logs

variable (configuration : Configuration) {notice : Notice}

/-- Logging what is no trace is in step with noticing it. -/
theorem Attempt.log_inStep (untraced : notice.isTrace = false) :
    InStep (List.filter configuration.settings.shows) (Attempt.notice notice)
      (Attempt.log configuration.load.1 notice) := by
  have logs : Attempt.log configuration.load.1 notice =
      if configuration.settings.shows notice then Attempt.notice notice else pure () := by
    simp [log_load, LoadedSettings.shows, untraced]
  rw [logs]
  exact inStep_shown _ notice

/-- Logging a trace where passes are traced is in step with noticing it. -/
theorem Attempt.log_traced_inStep (traced : notice.isTrace = true) :
    InStep (List.filter configuration.settings.shows) (Attempt.notice notice)
      (if configuration.settings.traces then Attempt.log configuration.load.1 notice else pure ()) := by
  have logs : (if configuration.settings.traces then Attempt.log configuration.load.1 notice else pure ()) =
      if configuration.settings.shows notice then Attempt.notice notice else pure () := by
    cases traces : configuration.settings.traces <;> simp [log_load, LoadedSettings.shows, traced, traces]
  rw [logs]
  exact inStep_shown _ notice

end Logs

/-- What a caller does in a context does not depend on what is noticed. -/
theorem Attempt.callBack_inStep {α : Type} (change : List Notice → List Notice) (callback : Callback α) :
    InStep change (Attempt.callBack callback) (Attempt.callBack callback) := by
  intro situation
  simp only [Attempt.callBack, Situation.mapNotices]
  cases callback situation.memory.captures <;> rfl

theorem CallerAction.apply_inStep (change : List Notice → List Notice) (action : CallerAction) (store : RuleStore)
    (found : Match) : Attempt.InStep change (action.apply store found) (action.apply store found) := by
  cases action with
  | builtIn action =>
    intro situation
    simp only [apply, Attempt.captures_bind_apply, Situation.mapNotices]
    cases action.apply store situation.memory.captures found <;> rfl
  | custom => exact Attempt.callBack_inStep change _

namespace Processor

/-- A pass that logs is in step with one that notices everything. -/
theorem piecesIn_inStep (processor : Processor) (store : RuleStore) (fuel : Nat) (table : Table)
    (configuration : Configuration) :
    Attempt.InStep (List.filter configuration.settings.shows) (processor.piecesIn store .everything fuel table)
      (processor.piecesIn store configuration.telling fuel table) := by
  let telling (logs : Bool) : Telling := if logs then configuration.telling else .everything
  have composable := Attempt.inStep_composable (List.filter configuration.settings.shows)
  refine composable.pieces (fun logs => (telling logs).matched) (fun _ bound found => bound.action.apply store found)
    (fun logs => Rule.runIn (.ofTable store table (telling logs).lacking) fuel)
    (fun _ _ => Attempt.log_traced_inStep configuration rfl) (fun bound found => bound.action.apply_inStep _ store found)
    (fun rule => ?_) fuel
  exact composable.runIn (fun _ key => Attempt.callBack (table.resolve key)) (fun logs => (telling logs).lacking)
    (fun key => Attempt.callBack_inStep _ (table.resolve key))
    (fun _ rules => Attempt.log_inStep configuration (Notice.isTrace_of_rules rules)) (fun _ _ => rfl)
    (Run.leaveToCaller_inStep _) rule fuel

/-- A pass that logs comes to what it comes to when everything is noticed. It writes what is noticed while the settings
are loaded, and what of the notices on its way is shown under the settings. -/
theorem process_eq_pass (processor : Processor) (store : RuleStore) (fuel : Nat) (tokens : List Token) (arena : Arena)
    (configuration : Configuration) :
    processor.process store fuel tokens arena configuration =
      let (passage, after) := processor.pass store .everything fuel tokens arena
      ({ result := passage.result
         written := configuration.load.2.2 ++ passage.notices.reverse.filter configuration.settings.shows },
        after, configuration.load.1) := by
  have inStep := processor.piecesIn_inStep store fuel (arena.tableOf processor.context) configuration (.fresh tokens)
  -- A pass starts without notices.
  have fresh : (Situation.fresh tokens).mapNotices (List.filter configuration.settings.shows) = .fresh tokens := rfl
  rw [fresh] at inStep
  rw [process_eq, pass_eq, pass_eq, inStep]
  cases processor.piecesIn store .everything fuel (arena.tableOf processor.context) (.fresh tokens) <;>
    simp [Outcome.mapNotices, Situation.mapNotices, Outcome.left, Outcome.result, List.filter_reverse]

end Processor

/-- The lines that a pass has written in the name of the engine. -/
def LoggedPassage.engineLines (passage : LoggedPassage) : List Text :=
  (passage.written.filter fun notice : Notice => notice.scope = "engine").map Notice.line

def Pass.topLine (store : RuleStore) (top : BoundRule × Match) : Text :=
  "[tokenloom:engine] " ++
    (top.1.rule.kind store ++ s!" matched [{top.2.start.text}, {top.2.finish.text}) with " ++ top.1.action.kind)

theorem Pass.line_topNotice (store : RuleStore) (top : BoundRule × Match) : (topNotice store top).line = topLine store top := by
  have mark : (topNotice store top).mark = "[tokenloom:engine] " := rfl
  have reason : (topNotice store top).reason? = none := rfl
  rw [Notice.line, mark, reason, Option.getD_none, Text.append_empty]
  rfl

/-- A pass that logs is transparent when two configurations can only differ in what is written under them. It comes to
what it comes to when everything is noticed, and of these notices those are written that are shown under the settings,
behind those of loading the settings. The lines of the engine are one for each match, in order, where matches are traced
and everything is written, and there are none elsewhere. -/
structure Transparent (store : RuleStore) (tops : List (BoundRule × Match)) (plain : Passage × Arena)
    (pass : Configuration → LoggedPassage × Arena × Configuration) : Prop where
  result_eq : ∀ configuration configuration', (pass configuration).1.result = (pass configuration').1.result
  contexts_eq : ∀ configuration configuration', (pass configuration).2.1 = (pass configuration').2.1
  plain_eq : ∀ configuration, (pass configuration).1.result = plain.1.result ∧ (pass configuration).2.1 = plain.2
  loads : ∀ configuration, (pass configuration).2.2 = configuration.load.1
  written_eq : ∀ configuration, (pass configuration).1.written =
    configuration.load.2.2 ++ plain.1.notices.reverse.filter configuration.settings.shows
  found_eq : ∀ configuration pieces, (pass configuration).1.result = .ok pieces →
    pieces.filterMap Piece.found? = tops.map Prod.snd
  traced : ∀ configuration, configuration.settings.traces = true → configuration.settings.level = .debug →
    (pass configuration).1.engineLines = tops.map (Pass.topLine store)
  untraced : ∀ configuration, ¬ (configuration.settings.traces = true ∧ configuration.settings.level = .debug) →
    (pass configuration).1.engineLines = []

/-- A notice of a match is shown where matches are traced and everything is written. -/
theorem LoadedSettings.shows_topNotice (settings : LoadedSettings) (store : RuleStore) (top : BoundRule × Match) :
    settings.shows (Pass.topNotice store top) = true ↔ settings.traces = true ∧ settings.level = .debug := by
  have everything : settings.writes .debug = true ↔ settings.level = .debug := by
    rw [writes, decide_eq_true_iff]
    cases settings.level <;> simp [LogLevel.rank]
  simp [shows, Pass.topNotice, Pass.matchNotice, Notice.level, Notice.isTrace, everything, and_comm]

namespace Processor

variable (processor : Processor) (store : RuleStore) (fuel : Nat) (tokens : List Token) (arena : Arena)

theorem engineLines_process (configuration : Configuration) :
    (processor.process store fuel tokens arena configuration).1.engineLines =
      (((processor.matchesOn store fuel (arena.tableOf processor.context) tokens).map (Pass.topNotice store)).filter
        configuration.settings.shows).map Notice.line := by
  have loading : (configuration.load.2.2.filter fun notice : Notice => notice.scope = "engine") = [] := by
    rw [List.filter_eq_nil_iff]
    intro notice noticed
    simp [Configuration.scope_of_mem_load noticed]
  rw [LoggedPassage.engineLines, process_eq_pass, List.filter_append, loading, List.nil_append, List.filter_comm,
    engineNotices_pass]

/-- Passes that log are transparent. -/
theorem process_transparent :
    Transparent store (processor.matchesOn store fuel (arena.tableOf processor.context) tokens)
      (processor.pass store .everything fuel tokens arena) (processor.process store fuel tokens arena) where
  result_eq configuration configuration' := by rw [process_eq_pass, process_eq_pass]
  contexts_eq configuration configuration' := by rw [process_eq_pass, process_eq_pass]
  plain_eq configuration := by
    rw [process_eq_pass]
    exact ⟨rfl, rfl⟩
  loads configuration := by rw [process_eq_pass]
  written_eq configuration := by rw [process_eq_pass]
  found_eq configuration pieces returns := by
    rw [process_eq_pass] at returns
    exact processor.filterMap_found?_of_pass store fuel arena tokens returns
  traced configuration traces debug := by
    have all : ∀ notice ∈ (processor.matchesOn store fuel (arena.tableOf processor.context) tokens).map
        (Pass.topNotice store), configuration.settings.shows notice = true := by
      intro notice noticed
      obtain ⟨top, -, rfl⟩ := List.mem_map.mp noticed
      exact (configuration.settings.shows_topNotice store top).mpr ⟨traces, debug⟩
    rw [engineLines_process, List.filter_eq_self.mpr all, List.map_map]
    exact List.map_congr_left fun top _ => Pass.line_topNotice store top
  untraced configuration silent := by
    rw [engineLines_process, List.map_eq_nil_iff, List.filter_eq_nil_iff]
    intro notice noticed shown
    obtain ⟨top, -, rfl⟩ := List.mem_map.mp noticed
    exact silent ((configuration.settings.shows_topNotice store top).mp shown)

end Processor

/-- Passes of grammars are transparent. Where a name is not defined, a pass with its rule stops before the settings are
asked for. -/
theorem SharedGrammar.passes_transparent (grammar : SharedGrammar) (store : RuleStore) (fuel : Nat) (tokens : List Token)
    (arena : Arena) :
    Transparent store (Processor.matchesOn ⟨grammar.rules, grammar.context⟩ store fuel (arena.tableOf grammar.context) tokens)
        (Processor.pass ⟨grammar.rules, grammar.context⟩ store .everything fuel tokens arena)
        (grammar.parse store fuel tokens arena) ∧
      (∀ name bound, grammar.definitions.lookup name = some bound → ∃ pass,
        Transparent store (Processor.matchesOn ⟨[bound], grammar.context⟩ store fuel (arena.tableOf grammar.context) tokens)
            (Processor.pass ⟨[bound], grammar.context⟩ store .everything fuel tokens arena) pass ∧
          ∀ configuration, grammar.parseWith store fuel name tokens arena configuration =
            (.ok (pass configuration).1, (pass configuration).2)) ∧
      ∀ name, grammar.definitions.lookup name = none → ∀ configuration,
        grammar.parseWith store fuel name tokens arena configuration =
          (.error (.ruleNotDefined name), arena, configuration) := by
  refine ⟨Processor.process_transparent _ store fuel tokens arena, ?_, ?_⟩
  · intro name bound defined
    refine ⟨_, Processor.process_transparent ⟨[bound], grammar.context⟩ store fuel tokens arena, fun configuration => ?_⟩
    rw [parseWith, defined]
  · intro name undefined configuration
    rw [parseWith, undefined]

namespace Brackets

/-- An environment in which passes are traced and everything is written. -/
def tracing : Configuration where
  environment := [("TOKENLOOM_DEBUG", "1"), ("TOKENLOOM_ENGINE__TRACE", "true")]

/-- A grammar that looks for opening brackets in all passes, and for closing ones on demand. -/
def finding : SharedGrammar where
  rules := [⟨taking opening, .builtIn .identity⟩]
  definitions := [("closing", ⟨taking closing, .builtIn .identity⟩)]
  context := 0

/-- A context in which nothing is bound or captured. -/
def untouched : Arena where
  tables := #[{}]
  contexts := #[{ table := 0 }]

/-- A line is written for each bracket that is looked for, and by default none, for the same result. -/
theorem passes_transparent_with_trace :
    tracing.settings.traces = true ∧ tracing.settings.level = .debug ∧
      (finding.parse {} 4 [opening, closing] untouched tracing).1.engineLines =
        ["[tokenloom:engine] value matched [0, 1) with identity"] ∧
      (finding.parse {} 4 [opening, closing] untouched {}).1.engineLines = [] ∧
      (finding.parse {} 4 [opening, closing] untouched tracing).1.result =
        (finding.parse {} 4 [opening, closing] untouched {}).1.result ∧
      (∃ passage, (finding.parseWith {} 4 "closing" [opening, closing] untouched tracing).1 = .ok passage ∧
        passage.engineLines = ["[tokenloom:engine] value matched [1, 2) with identity"]) ∧
      (finding.parseWith {} 4 "opening" [opening, closing] untouched tracing).1 =
        .error (.ruleNotDefined "opening") := by
  have traces : tracing.settings.traces = true := by decide +kernel
  have debug : tracing.settings.level = .debug := by decide +kernel
  have quiet : ¬ (({} : Configuration).settings.traces = true ∧ ({} : Configuration).settings.level = .debug) := by
    decide +kernel
  obtain ⟨active, onDemand, undefined⟩ := SharedGrammar.passes_transparent finding {} 4 [opening, closing] untouched
  obtain ⟨pass, closes, passes⟩ := onDemand "closing" ⟨taking closing, .builtIn .identity⟩ rfl
  refine ⟨traces, debug, ?_, active.untraced {} quiet, active.result_eq tracing {}, ?_, ?_⟩
  · rw [active.traced tracing traces debug]
    decide +kernel
  · refine ⟨(pass tracing).1, by rw [passes], ?_⟩
    rw [closes.traced tracing traces debug]
    decide +kernel
  · rw [undefined "opening" rfl]

end Brackets

end TokenGrammar
