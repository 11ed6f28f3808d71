import TokenGrammar.Pattern.Parser
import TokenGrammar.Text.Quoted
import TokenGrammar.Value

namespace TokenGrammar

/-- The contracts that a fault can break: those on making things, on using them, and the library's own. -/
inductive Contract where
  | construction
  | precondition
  | invariant
  deriving DecidableEq

def Contract.name : Contract → String
  | .construction => "construction"
  | .precondition => "precondition"
  | .invariant => "invariant"

def Contract.ofName? (name : String) : Option Contract :=
  [Contract.construction, .precondition, .invariant].find? fun contract => contract.name = name

/-- What is wrong with a character of a text that is being read. -/
inductive ReadProblem where
  | danglingEscape
  | unexpected (character : Text)
  deriving DecidableEq

/-- A character that cannot be read: where it stands, counted from zero, and what stands around it. -/
structure ReadFailure where
  problem : ReadProblem
  line : Nat
  characterInLine : Nat
  absoluteCharacter : Nat
  excerpt : Text
  deriving DecidableEq

inductive Fault where
  | emptySequence
  | emptyChoice
  | emptyConjunction
  | emptyValueText
  | emptyPattern
  | invalidPattern (source : Text) (problem : Pattern.Problem)
  | badLengthMinimum (given : Number)
  | badLengthMaximum (given : Number)
  | lengthsOutOfOrder (maximum minimum : Number)
  | noTypes
  | badRepetitionMinimum (given : Number)
  | badRepetitionMaximum (given : Number)
  | repetitionsOutOfOrder (maximum minimum : Number)
  | noRepetitions
  | emptyRecursionName
  | incompleteRecursion
  | lazyRuleSetAgain
  | emptyCaptureRuleKey
  | emptyReferenceKey
  | sealedContext (name : Text)
  | emptyRuleName
  | ruleDefinedAgain (name : Text)
  | valueNotAccepted (value : Text) (description : Text)
  | notAnEscape (value : Text)
  | groupTooSmall (count : Nat)
  | badOrdinal (given : Number)
  | notOneCharacter (content : Text)
  | emptyStringDefinition
  | notOneEscapedCharacter (content : Text)
  | noDefinitions
  | notLiteral (description : Text)
  | badLine (given : Number)
  | badCharacterInLine (given : Number)
  | badAbsoluteCharacter (given : Number)
  | emptyTypeName
  | negativeStart (start : Number)
  | endBeforeStart (finish start : Number)
  | emptySeparator
  | invalidSeparator (source : Text) (problem : Pattern.Problem)
  | badIndexStart (given : Number)
  | builderClosed
  | separatorNotOneCharacter (separator : Text)
  | noRuleWithId (id : Number)
  | outsideStream (index : Number) (size : Nat)
  | endOfStream (index size : Nat)
  | badAdvance (count : Number)
  | advancePastEnd (count : Number) (index size : Nat)
  | badTarget (index : Nat) (target : Number) (size : Nat)
  | emptyCaptureKey
  | ruleNotDefined (name : Text)
  | wrongStart (kind : Text) (start : Number) (expected : Nat)
  | unreachable (shown : Option Text)
  | unwritable
  | broken (contract : Contract) (message : Text)
  | general (contract : Contract) (message : Text)
  | unreadable (failure : ReadFailure)

namespace ReadProblem

def message : ReadProblem → String
  | .danglingEscape => "escape character at end of input"
  | .unexpected character => "unexpected character " ++ Text.quote character

end ReadProblem

namespace ReadFailure

/-- The line of a failure, counted from one. -/
def lineNumber (failure : ReadFailure) : Nat := failure.line + 1

/-- The column of a failure, counted from one. -/
def columnNumber (failure : ReadFailure) : Nat := failure.characterInLine + 1

def message (failure : ReadFailure) : Text :=
  .ofString (s!"Read error at line {failure.lineNumber}, col {failure.columnNumber}: {failure.problem.message}" ++
    "\n  ...") ++ failure.excerpt ++ .ofString "..."

end ReadFailure

namespace Fault

/-- The contract that a fault breaks; a text that cannot be read and a value that cannot be written break
none. -/
def contract? : Fault → Option Contract
  | .noRuleWithId _ | .outsideStream .. | .endOfStream .. | .badAdvance _ | .advancePastEnd .. | .badTarget ..
  | .emptyCaptureKey | .ruleNotDefined _ => some .precondition
  | .wrongStart .. | .unreachable _ => some .invariant
  | .broken contract _ | .general contract _ => some contract
  | .unreadable _ | .unwritable => none
  | _ => some .construction

def name (fault : Fault) : String :=
  match fault with
  | .endOfStream .. => "EndOfTokenStreamError"
  | .general .. => "ContractError"
  | .unreadable _ => "TokenReadError"
  | .unwritable => "TypeError"
  | _ =>
    match fault.contract? with
    | some .precondition => "PreconditionError"
    | some .invariant => "InvariantError"
    | _ => "ConstructionError"

/-- The complaint about a number that should be a count. -/
def notACount (subject : String) (given : Number) : String :=
  s!"{subject} must be a non-negative integer, got {given.text}"

/-- The complaint about an upper bound below the lower one. -/
def outOfOrder (subject : String) (maximum minimum : Number) : String :=
  s!"Maximum {subject} {maximum.text} is less than the minimum {minimum.text}"

/-- What is wrong, up to the reason behind it. -/
def summary : Fault → Text
  | .emptySequence => "A sequence needs at least one rule"
  | .emptyChoice => "anyOf needs at least one alternative"
  | .emptyConjunction => "allOf needs at least one rule"
  | .emptyValueText => "Value rule text must not be empty"
  | .emptyPattern => "Pattern must not be empty"
  | .invalidPattern source _ => s!"Invalid pattern {Text.quote source}: "
  | .badLengthMinimum given => notACount "Minimum length" given
  | .badLengthMaximum given => notACount "Maximum length" given
  | .lengthsOutOfOrder maximum minimum => outOfOrder "length" maximum minimum
  | .noTypes => "Type rule needs at least one token type"
  | .badRepetitionMinimum given => notACount "Minimum repetitions" given
  | .badRepetitionMaximum given => notACount "Maximum repetitions" given
  | .repetitionsOutOfOrder maximum minimum => outOfOrder "repetitions" maximum minimum
  | .noRepetitions => "Repetition bounds must not both be zero"
  | .emptyRecursionName => "Recursive rule name must not be empty"
  | .incompleteRecursion => "Recursive rule needs an opening rule, a closing rule and content"
  | .lazyRuleSetAgain => "Lazy rule is already set"
  | .emptyCaptureRuleKey | .emptyCaptureKey => "Capture key must not be empty"
  | .emptyReferenceKey => "Reference key must not be empty"
  | .sealedContext name => "Cannot define \"" ++ name ++ "\": the context is sealed"
  | .emptyRuleName => "Rule name must not be empty"
  | .ruleDefinedAgain name => "Rule \"" ++ name ++ "\" is already defined"
  | .valueNotAccepted value description =>
    s!"Token value {Text.quote value} is not accepted by its definition (" ++ description ++ ")"
  | .notAnEscape value =>
    s!"Escaped token must be a backslash followed by one character, got {Text.quote value}"
  | .groupTooSmall count => s!"A token group needs at least two tokens, got {count}"
  | .badOrdinal given => notACount "Token ordinal" given
  | .notOneCharacter content => s!"Char definition needs exactly one character, got {Text.quote content}"
  | .emptyStringDefinition => "String definition must not be empty"
  | .notOneEscapedCharacter content =>
    s!"Escaped definition needs exactly one character, got {Text.quote content}"
  | .noDefinitions => "At least one definition is required"
  | .notLiteral description => "Cannot combine non-literal definition (" ++ description ++ ")"
  | .badLine given => notACount "Line" given
  | .badCharacterInLine given => notACount "Character in line" given
  | .badAbsoluteCharacter given => notACount "Absolute character" given
  | .emptyTypeName => "Token type name must not be empty"
  | .negativeStart start => s!"Match start {start.text} must not be negative"
  | .endBeforeStart finish start => s!"Match end {finish.text} is before its start {start.text}"
  | .emptySeparator => "Split separator must not be empty"
  | .invalidSeparator source _ => s!"Invalid split separator {Text.quote source}: "
  | .badIndexStart given => notACount "Index start" given
  | .builderClosed => "GrammarBuilder cannot be used after build()"
  | .separatorNotOneCharacter separator =>
    s!"Separator must be a single character, got {Text.quote separator}"
  | .noRuleWithId id => s!"No rule with id {id.text}"
  | .outsideStream index size => s!"Stream index {index.text} is outside [0, {size}]"
  | .endOfStream index size => s!"No token at index {index} (stream size {size})"
  | .badAdvance count => s!"Cannot advance by {count.text}"
  | .advancePastEnd count index size =>
    s!"Cannot advance by {count.text} from index {index} (stream size {size})"
  | .badTarget index target size => s!"Cannot move from index {index} to {target.text} (stream size {size})"
  | .ruleNotDefined name => "Rule \"" ++ name ++ "\" is not defined in this grammar"
  | .wrongStart kind start expected =>
    "Rule \"" ++ kind ++ s!"\" returned a match starting at {start.text}, expected {expected}"
  | .unreachable none => "Unreachable code reached"
  | .unreachable (some shown) => "Unreachable code reached: " ++ shown
  | .unwritable => "Cannot convert object to primitive value"
  | .broken _ message | .general _ message => message
  | .unreadable failure => failure.message

/-- The reason behind a fault, where it comes from reading a pattern. -/
def reason? : Fault → Option Text
  | .invalidPattern _ problem | .invalidSeparator _ problem => some problem.message
  | _ => none

def message (fault : Fault) : Text := fault.summary ++ fault.reason?.getD ""

end Fault

def ensure (condition : Bool) (message : Text) : Except Fault Unit :=
  if condition then .ok () else .error (.broken .construction message)

def require (condition : Bool) (message : Text) : Except Fault Unit :=
  if condition then .ok () else .error (.broken .precondition message)

/-- The fault of having come to a place that should not be reached with a value in hand, which may be undefined. How a
value is written is up to its own operations, and some values cannot be written. -/
def reached (write : Value → Option Text) : Value → Fault
  | .undefined => .unreachable none
  | value =>
    match write value with
    | some shown => .unreachable (some shown)
    | none => .unwritable

/-- A condition that should hold by design. -/
def invariant (condition : Bool) (message : Option Text) : Except Fault Unit :=
  if condition then .ok () else .error (.broken .invariant (message.getD "Invariant violation"))

/-- Stops with a fault where a condition does not hold. -/
def check (condition : Bool) (fault : Fault) : Except Fault Unit := if condition then .ok () else .error fault

theorem bind_eq_ok_iff {ε α β : Type} {first : Except ε α} {next : α → Except ε β} {result : β} :
    (first >>= next) = .ok result ↔ ∃ value, first = .ok value ∧ next value = .ok result := by
  cases first <;> simp [bind, Except.bind]

theorem eq_ok_of_toOption {ε α : Type} {result : Except ε α} {answer : α} (evaluated : result.toOption = some answer) :
    result = .ok answer := by
  cases result with
  | error problem => cases evaluated
  | ok value => exact congrArg Except.ok (Option.some.inj evaluated)

theorem check_bind_eq_ok_iff {α : Type} {condition : Bool} {fault : Fault} {next : Unit → Except Fault α}
    {result : α} : (check condition fault >>= next) = .ok result ↔ condition = true ∧ next () = .ok result := by
  cases condition <;> simp [check, bind, Except.bind]

end TokenGrammar
