import TokenGrammar.Rule.Basic

namespace TokenGrammar

/-- Levels of notices, the least important first; at the last level nothing is written. -/
inductive LogLevel where
  | debug
  | info
  | warn
  | error
  | silent
  deriving DecidableEq

namespace LogLevel

def rank : LogLevel → Nat
  | .debug => 0
  | .info => 1
  | .warn => 2
  | .error => 3
  | .silent => 4

def name : LogLevel → String
  | .debug => "debug"
  | .info => "info"
  | .warn => "warn"
  | .error => "error"
  | .silent => "silent"

def ofName? (name : String) : Option LogLevel :=
  [LogLevel.debug, .info, .warn, .error, .silent].find? fun level => level.name = name

end LogLevel

inductive Notice where
  | recursionNotDefined (name : Text)
  | referenceNotBound (key : Text) (kind : ReferenceKind)
  | ruleMatched (kind : Text) (start finish : Number) (action : Text)
  | ruleWrapped (kind : Text) (grouped : Nat)
  | ruleKept (kind : Text)
  | ruleNeverDefined (name : Text)
  | noActiveRules
  | fileUnreadable (reason : Text)
  | message (scope : Text) (level : LogLevel) (text : Text)

namespace Notice

/-- The part of the library that noticed something. -/
def scope : Notice → Text
  | .recursionNotDefined _ | .referenceNotBound .. => "rules"
  | .ruleMatched .. => "engine"
  | .ruleWrapped .. | .ruleKept _ | .ruleNeverDefined _ | .noActiveRules => "grammar"
  | .fileUnreadable _ => "config"
  | .message scope _ _ => scope

def level : Notice → LogLevel
  | .recursionNotDefined _ | .referenceNotBound .. | .ruleMatched .. | .ruleWrapped .. | .ruleKept _ => .debug
  | .noActiveRules => .info
  | .ruleNeverDefined _ | .fileUnreadable _ => .warn
  | .message _ level _ => level

/-- A notice in words, up to the reason behind it. -/
def summary : Notice → Text
  | .recursionNotDefined name => "recursive rule \"" ++ name ++ "\" is not defined"
  | .referenceNotBound key kind => "reference \"" ++ key ++ s!"\" ({kind.name}) is not bound"
  | .ruleMatched kind start finish action => kind ++ s!" matched [{start.text}, {finish.text}) with " ++ action
  | .ruleWrapped kind grouped => "wrapped " ++ kind ++ s!" rule ({grouped} grouped alternatives)"
  | .ruleKept kind => "kept " ++ kind ++ " rule: already wrapped"
  | .ruleNeverDefined name => "rule \"" ++ name ++ "\" is referenced but never defined"
  | .noActiveRules => "grammar has no active rules; parse() returns its input unchanged"
  | .fileUnreadable _ => "ignoring unreadable config file: "
  | .message _ _ text => text

/-- The mark in front of a notice, which names its scope. -/
def mark (notice : Notice) : Text := "[tokenloom:" ++ notice.scope ++ "] "

def reason? : Notice → Option Text
  | .fileUnreadable reason => some reason
  | _ => none

def line (notice : Notice) : Text := notice.mark ++ notice.summary ++ notice.reason?.getD ""

/-- Whether a notice belongs to the trace of a pass, which is written on demand only. -/
def isTrace : Notice → Bool
  | .ruleMatched .. => true
  | _ => false

end Notice

end TokenGrammar
