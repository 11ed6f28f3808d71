import TokenGrammar.Proofs.Variables

namespace TokenGrammar

namespace Configuration

open LoadedSettings (keysOf)

/-- What a run of a program does with a configuration. A change of files shows in what a search for settings comes to. -/
inductive Operation where
  | setVariable (name : String) (text : Option String)
  | changeFiles (files : FileSearch)
  | set (values : Value)
  | get (path : Text)
  | has (path : Text)
  | reset

def perform (configuration : Configuration) : Operation → Configuration
  | .setVariable name text => configuration.setVariable name text
  | .changeFiles files => { configuration with files }
  | .set values => (configuration.set values).1
  | .get path => (configuration.ask fun settings => settings.get path).1
  | .has path => (configuration.ask fun settings => settings.has path).1
  | .reset => configuration.reset

def run (configuration : Configuration) (operations : List Operation) : Configuration :=
  operations.foldl perform configuration

/-- The value at the end of a path when it is asked for, if the path leads to one. -/
def get? (configuration : Configuration) (path : Text) : Option Value :=
  (configuration.ask fun settings => settings.get? path).2.1

/-- What a setting is when it is asked for. -/
def get (configuration : Configuration) (path : Text) : Value :=
  (configuration.ask fun settings => settings.get path).2.1

/-- What settings are made of: the variables and the files as they were at the first access, and what was set by each call
since then, in their order. -/
structure Access where
  environment : List (String × String)
  files : FileSearch
  set : List Fields := []

/-- The sources of settings from the lowest to the highest. -/
def Access.sources (access : Access) : List Fields :=
  [defaults, (fileSettings access.files).1, Environment.settings access.environment] ++ access.set

/-- The sources that were supplied from outside as records with any keys. -/
def Access.supplied (access : Access) : List Fields := (fileSettings access.files).1 :: access.set

/-- A record of what happened to a configuration: the variables and the files as they are, and what the settings in effect
are made of, once there was an access. Nothing is laid over anything here. -/
structure History where
  environment : List (String × String)
  files : FileSearch
  accessed : Option Access := none

namespace History

/-- What the settings are made of at an access. -/
def access (history : History) : Access :=
  history.accessed.getD { environment := history.environment, files := history.files }

def perform (history : History) : Operation → History
  | .setVariable name text =>
    { history with environment := (setVariable { environment := history.environment } name text).environment }
  | .changeFiles files => { history with files }
  | .set values =>
    { history with
      accessed := some { history.access with set := history.access.set ++ values.entries?.toList } }
  | .get _ | .has _ => { history with accessed := some history.access }
  | .reset => { history with accessed := none }

def run (history : History) (operations : List Operation) : History := operations.foldl perform history

end History

variable {configuration : Configuration} {history : History}

/-- A configuration reflects a history when it has the same variables and files, and when its settings are the sources of
what was accessed, laid over each other. -/
structure Reflects (configuration : Configuration) (history : History) : Prop where
  environment_eq : configuration.environment = history.environment
  files_eq : configuration.files = history.files
  loaded_eq : configuration.loaded.map LoadedSettings.root =
    history.accessed.map fun access => Value.stack access.sources

theorem overlayFields_defaults : Value.overlayFields (.record []) defaults = .record defaults := by rfl

/-- Where no settings are in effect, those of a file and of the environment are laid over the defaults. -/
theorem load_of_not_loaded (unloaded : configuration.loaded = none) (access : Access)
    (given : access = { environment := configuration.environment, files := configuration.files }) :
    ∃ filePath notices, configuration.load =
      ({ configuration with loaded := some ⟨Value.stack access.sources, filePath⟩ },
        ⟨Value.stack access.sources, filePath⟩, notices) := by
  subst given
  refine ⟨(fileSettings configuration.files).2.1, (fileSettings configuration.files).2.2, ?_⟩
  have first : Value.overlayFields (.record (Value.record []).fields) defaults = .record defaults := overlayFields_defaults
  simp only [Configuration.load, unloaded, Value.stack, Access.sources, List.append_nil, List.foldl_cons, List.foldl_nil,
    first]
  rfl

/-- To load is to lay the sources at the access over each other. -/
theorem Reflects.load (reflects : configuration.Reflects history) :
    configuration.load.1.Reflects { history with accessed := some history.access } ∧
      configuration.load.2.1.root = Value.stack history.access.sources := by
  have loaded_eq := reflects.loaded_eq
  cases loaded : configuration.loaded with
  | some settings =>
    rw [loaded] at loaded_eq
    obtain ⟨access, accessed, stacked⟩ := Option.map_eq_some_iff.mp loaded_eq.symm
    have same : history.access = access := by rw [History.access, accessed, Option.getD_some]
    simp only [Configuration.load, loaded, same]
    exact ⟨⟨reflects.environment_eq, reflects.files_eq, by simp [loaded, stacked]⟩, stacked.symm⟩
  | none =>
    rw [loaded] at loaded_eq
    have accessed : history.accessed = none := Option.map_eq_none_iff.mp loaded_eq.symm
    have given : history.access = { environment := configuration.environment, files := configuration.files } := by
      rw [History.access, accessed, Option.getD_none, reflects.environment_eq, reflects.files_eq]
    obtain ⟨filePath, notices, loads⟩ := load_of_not_loaded loaded history.access given
    rw [loads]
    exact ⟨⟨reflects.environment_eq, reflects.files_eq, rfl⟩, rfl⟩

/-- A call that sets values adds them to the sources, if there are any to be enumerated. -/
theorem Reflects.set (reflects : configuration.Reflects history) (values : Value) :
    (configuration.set values).1.Reflects (history.perform (.set values)) := by
  obtain ⟨after, root_eq⟩ := reflects.load
  cases enumerated : values.entries? with
  | none =>
    have same : history.perform (.set values) = { history with accessed := some history.access } := by
      simp [History.perform, enumerated]
    have stays : (configuration.set values).1 = configuration.load.1 := by rw [Configuration.set, enumerated]
    rwa [same, stays]
  | some entries =>
    have sources_eq : Access.sources { history.access with set := history.access.set ++ [entries] } =
        history.access.sources ++ [entries] := by
      simp [Access.sources]
    have stacked : Value.overlayFields (.record configuration.load.2.1.root.fields) entries =
        Value.stack (Access.sources { history.access with set := history.access.set ++ [entries] }) := by
      rw [sources_eq, Value.stack_append_singleton, root_eq]
    have same : history.perform (.set values) =
        { history with accessed := some { history.access with set := history.access.set ++ [entries] } } := by
      simp [History.perform, enumerated]
    rw [same, Configuration.set, enumerated]
    exact ⟨after.environment_eq, after.files_eq, congrArg some stacked⟩

/-- An operation does to the settings in effect what it does to their sources. -/
theorem Reflects.perform (reflects : configuration.Reflects history) (operation : Operation) :
    (configuration.perform operation).Reflects (history.perform operation) := by
  cases operation with
  | setVariable name text =>
    have same := reflects.environment_eq
    exact ⟨by simp [Configuration.perform, History.perform, setVariable, same], reflects.files_eq, reflects.loaded_eq⟩
  | changeFiles files => exact ⟨reflects.environment_eq, rfl, reflects.loaded_eq⟩
  | set values => exact reflects.set values
  | get path | has path => exact reflects.load.1
  | reset => exact ⟨reflects.environment_eq, reflects.files_eq, rfl⟩

/-- Operations do to the settings in effect what they do to their sources. -/
theorem Reflects.run (reflects : configuration.Reflects history) (operations : List Operation) :
    (configuration.run operations).Reflects (history.run operations) := by
  induction operations generalizing configuration history with
  | nil => exact reflects
  | cons operation rest ih => exact ih (reflects.perform operation)

theorem keysOf_ne_nil (path : Text) : keysOf path ≠ [] := by
  rw [keysOf, ne_eq, List.map_eq_nil_iff]
  exact Environment.splitPoints_ne_nil Text.point path.units

/-- All sources are plain along a path on which the supplied ones are. -/
theorem Access.isPlain_of_mem_sources {access : Access} {path : List Text}
    (plain : ∀ source ∈ access.supplied, (Value.record source).IsPlain path) {source : Fields}
    (member : source ∈ access.sources) : (Value.record source).IsPlain path := by
  obtain ⟨file, others⟩ := List.forall_mem_cons.mp plain
  rcases List.mem_append.mp member with first | set
  · simp only [List.mem_cons, List.not_mem_nil, or_false] at first
    rcases first with rfl | rfl | rfl
    · exact isPlain_defaults path
    · exact file
    · exact Environment.isPlain_settings access.environment path
  · exact others source set

/-- Along a path on which the supplied sources are plain, a setting that is no record is what the sources give. -/
theorem Reflects.get?_eq_some_iff (reflects : configuration.Reflects history) {path : Text} {value : Value}
    (scalar : value.isRecord = false) (own : ∀ key ∈ keysOf path, key ∉ Value.inheritedKeys)
    (plain : ∀ source ∈ history.access.supplied, (Value.record source).IsPlain (keysOf path)) :
    configuration.get? path = some value ↔ Value.Gives history.access.sources (keysOf path) value := by
  have filled : keysOf path ≠ [] := keysOf_ne_nil path
  have plainly : ∀ source ∈ history.access.sources, (Value.record source).IsPlain (keysOf path) :=
    fun source member => Access.isPlain_of_mem_sources plain member
  obtain ⟨fields, stacked, under⟩ := Value.exists_record_stack own filled plainly
  have root_eq : configuration.load.2.1.root = .record fields := reflects.load.2.trans stacked
  have asks : configuration.get? path = configuration.load.2.1.root.follow (keysOf path) := rfl
  rw [asks, root_eq, Value.follow_plain own under, ← stacked, Value.at?_stack_iff own filled plainly scalar]

/-- Whatever was done since the start, a setting that is no record is what the sources give: the latest call that set it, else
the environment, else the file, else the defaults, as far as nothing higher hides it. Nothing may have been supplied under the
key of the parent in a record on the path, nor anything under a key of the path that is no field. What is undefined is told
from what is not there by the path alone, as both are the same to the one who asks. -/
theorem get?_run_eq_some_iff (environment : List (String × String)) (files : FileSearch) (operations : List Operation)
    {path : Text} {value : Value} (scalar : value.isRecord = false) (own : ∀ key ∈ keysOf path, key ∉ Value.inheritedKeys)
    (plain : ∀ source ∈ (History.run { environment, files } operations).access.supplied,
      (Value.record source).IsPlain (keysOf path)) :
    ((run { environment, files } operations).get? path = some value ↔
        Value.Gives (History.run { environment, files } operations).access.sources (keysOf path) value) ∧
      (value ≠ .undefined →
        ((run { environment, files } operations).get path = value ↔
          Value.Gives (History.run { environment, files } operations).access.sources (keysOf path) value)) := by
  have start : Reflects { environment, files } { environment, files } := ⟨rfl, rfl, rfl⟩
  have leads := (start.run operations).get?_eq_some_iff scalar own plain
  refine ⟨leads, fun something => ?_⟩
  have shown : (run { environment, files } operations).get path =
      ((run { environment, files } operations).get? path).getD .undefined := rfl
  rw [← leads, shown]
  cases (run { environment, files } operations).get? path with
  | none => simpa using something.symm
  | some found => simp

/-- A setting of the engine beside its trace. -/
def depthOfEngine : Fields := [("engine", .record [("depth", .number 2)])]

/-- The engine is set to a number, which is forgotten, and then a setting is put beside its trace. -/
def resettingOperations : List Operation :=
  [.set (.record [("engine", .number 1)]), .get "engine", .reset, .set (.record depthOfEngine)]

theorem get_behind_reset :
    (∀ key ∈ keysOf "engine.trace", key ∉ Value.inheritedKeys) ∧
      (∀ source ∈ (History.run { environment := [], files := .nothing } resettingOperations).access.supplied,
        (Value.record source).IsPlain (keysOf "engine.trace")) ∧
      (run { environment := [], files := .nothing } resettingOperations).get? "engine.trace" = some (.boolean false) ∧
      (run { environment := [], files := .nothing } resettingOperations).get "engine.trace" = .boolean false := by
  have own : ∀ key ∈ keysOf "engine.trace", key ∉ Value.inheritedKeys := by decide
  have supplied : (History.run { environment := [], files := .nothing } resettingOperations).access.supplied =
      [[], depthOfEngine] := rfl
  have plain : ∀ source ∈ (History.run { environment := [], files := .nothing } resettingOperations).access.supplied,
      (Value.record source).IsPlain (keysOf "engine.trace") := by
    have depth (path : List Text) : (Value.record [("depth", .number 2)]).IsPlain path :=
      Value.isPlain_record (by decide) (by decide) (List.forall_mem_singleton.mpr fun _ => Value.isPlain_of_not_isRecord rfl)
    rw [supplied, List.forall_mem_cons, List.forall_mem_singleton]
    exact ⟨Value.isPlain_nil, Value.isPlain_record (by decide) (by decide) (List.forall_mem_singleton.mpr depth)⟩
  have visible : ∀ source ∈ [[], [], depthOfEngine], ¬ (Value.record source).Hides ["engine", "trace"] := by
    have empty : ¬ (Value.record []).Hides ["engine", "trace"] := by
      intro hides
      obtain ⟨_, here, -⟩ := (Value.hides_cons_iff rfl).mp hides
      cases here
    have beside : ¬ (Value.record depthOfEngine).Hides ["engine", "trace"] := by
      intro hides
      obtain ⟨inner, engine, hides⟩ := (Value.hides_cons_iff rfl).mp hides
      cases engine
      obtain ⟨_, trace, -⟩ := (Value.hides_cons_iff rfl).mp hides
      cases trace
    simp [empty, beside]
  have gives : Value.Gives (History.run { environment := [], files := .nothing } resettingOperations).access.sources
      (keysOf "engine.trace") (.boolean false) := ⟨[], defaults, [[], [], depthOfEngine], rfl, rfl, visible⟩
  have scalar : (Value.boolean false).isRecord = false := rfl
  obtain ⟨leads, shows⟩ := get?_run_eq_some_iff [] .nothing resettingOperations scalar own plain
  exact ⟨own, plain, leads.mpr gives, (shows nofun).mpr gives⟩

/-- A setting under the key of the parent. -/
def parentWithSetting : Fields := [("__proto__", .record [("x", .number 5)])]

/-- A setting is put under the key of the parent. -/
def bearingOperations : List Operation := [.set (.record parentWithSetting)]

/-- What is supplied under the key of the parent becomes the parent of the settings, and they show what no source gives. -/
theorem not_get?_run_eq_some_iff :
    (∀ key ∈ keysOf "x", key ∉ Value.inheritedKeys) ∧
      (run { environment := [], files := .nothing } bearingOperations).get "x" = .number 5 ∧
      ¬ Value.Gives (History.run { environment := [], files := .nothing } bearingOperations).access.sources (keysOf "x")
        (.number 5) := by
  refine ⟨by decide, rfl, ?_⟩
  rintro ⟨lower, source, higher, split, leads, -⟩
  have sources : (History.run { environment := [], files := .nothing } bearingOperations).access.sources =
      [defaults, [], [], parentWithSetting] := rfl
  have nowhere : ∀ source ∈ [defaults, [], [], parentWithSetting], (Value.record source).at? (keysOf "x") = none := by
    simp only [List.forall_mem_cons]
    exact ⟨rfl, rfl, rfl, rfl, nofun⟩
  have member : source ∈ lower ++ source :: higher := List.mem_append_right lower List.mem_cons_self
  rw [← split, sources] at member
  rw [nowhere source member] at leads
  cases leads

end Configuration

end TokenGrammar
