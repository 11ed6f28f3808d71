import TokenGrammar.Configuration.Environment
import TokenGrammar.Notice
import TokenGrammar.Value.Inheritance

namespace TokenGrammar

/-- What a search for a settings file comes to: it fails, finds no file, or finds one, which may be marked as empty. -/
inductive FileSearch where
  | failed (reason : Text)
  | nothing
  | found (filePath : Text) (isEmpty : Bool) (content : Value)

/-- The settings in effect, which are one record, and the file that some of them come from. -/
structure LoadedSettings where
  root : Value
  filePath : Option Text

/-- The variables of the environment in the order in which they were first set, what a search for a settings file would
come to, and the settings in effect, if they have been loaded. -/
structure Configuration where
  environment : List (String × String) := []
  files : FileSearch := .nothing
  loaded : Option LoadedSettings := none

namespace Configuration

/-- The settings that hold where no source gives others. -/
def defaults : Fields :=
  [("debug", .boolean false), ("logLevel", .text "warn"), ("engine", .record [("trace", .boolean false)])]

/-- The settings that a search comes to, the file they come from, and what was noticed. Only a record holds settings. -/
def fileSettings : FileSearch → Fields × Option Text × List Notice
  | .failed reason => ([], none, [.fileUnreadable reason])
  | .nothing => ([], none, [])
  | .found filePath isEmpty content =>
    if !isEmpty && content.isRecord then (content.fields, some filePath, []) else ([], none, [])

/-- Loads the settings if they have not been loaded: those of a file and of the environment over the defaults. -/
def load (configuration : Configuration) : Configuration × LoadedSettings × List Notice :=
  match configuration.loaded with
  | some loaded => (configuration, loaded, [])
  | none =>
    let (fields, filePath, notices) := fileSettings configuration.files
    let withFile := Value.overlayFields (.record defaults) fields
    let root := Value.overlayFields (.record withFile.fields) (Environment.settings configuration.environment)
    let loaded : LoadedSettings := ⟨root, filePath⟩
    ({ configuration with loaded := some loaded }, loaded, notices)

/-- Asks something about the settings in effect. -/
def ask {α : Type} (configuration : Configuration) (question : LoadedSettings → α) :
    Configuration × α × List Notice :=
  let (configuration, loaded, notices) := configuration.load
  (configuration, question loaded, notices)

end Configuration

/-- The unit of the point in dotted paths. -/
def Text.point : UInt16 := 0x2E

namespace LoadedSettings

def keysOf (path : Text) : List Text := (Environment.splitPoints Text.point path.units).map Text.mk

/-- The value at the end of a dotted path, if the path leads to one. -/
def get? (settings : LoadedSettings) (path : Text) : Option Value := settings.root.follow (keysOf path)

/-- The setting at the end of a dotted path, which is undefined where the path leads nowhere. -/
def get (settings : LoadedSettings) (path : Text) : Value := (settings.get? path).getD .undefined

/-- Whether what a dotted path leads to counts as yes. -/
def has (settings : LoadedSettings) (path : Text) : Bool := (settings.get path).isTruthy

def isDebugging (settings : LoadedSettings) : Bool := settings.has "debug"

/-- The level in effect; debugging overrides what is set. -/
def level (settings : LoadedSettings) : LogLevel :=
  if settings.isDebugging then .debug
  else
    match settings.get "logLevel" with
    | .text name => (LogLevel.ofName? name.toString).getD .warn
    | _ => .warn

/-- Whether notices of a level are written. -/
def writes (settings : LoadedSettings) (level : LogLevel) : Bool := settings.level.rank ≤ level.rank

def traces (settings : LoadedSettings) : Bool :=
  match settings.get "engine.trace" with
  | .boolean flag => flag
  | _ => false

def shows (settings : LoadedSettings) (notice : Notice) : Bool :=
  settings.writes notice.level && (!notice.isTrace || settings.traces)

end LoadedSettings

namespace Configuration

/-- Sets settings over those in effect. Where there is no value to take them from, this fails and sets nothing. -/
def set (configuration : Configuration) (values : Value) : Configuration × List Notice :=
  let (configuration, loaded, notices) := configuration.load
  match values.entries? with
  | some entries =>
    let loaded := { loaded with root := Value.overlayFields (.record loaded.root.fields) entries }
    ({ configuration with loaded := some loaded }, notices)
  | none => (configuration, notices)

/-- Forgets the settings in effect, so that the next access loads them again. -/
def reset (configuration : Configuration) : Configuration := { configuration with loaded := none }

def setVariable (configuration : Configuration) (name : String) (text : Option String) : Configuration :=
  { configuration with
    environment := match text with
      | some text => Entries.put configuration.environment name text
      | none => configuration.environment.filter fun entry => entry.1 ≠ name }

/-- The notices that are written, in their order. What is noticed while loading is always written. -/
def report (configuration : Configuration) (notices : List Notice) : Configuration × List Notice :=
  if notices.isEmpty then (configuration, [])
  else
    let (configuration, loaded, loading) := configuration.load
    (configuration, loading ++ notices.filter loaded.shows)

end Configuration

end TokenGrammar
