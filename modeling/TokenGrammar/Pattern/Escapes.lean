import TokenGrammar.Pattern.Syntax
import TokenGrammar.Text.Basic

namespace TokenGrammar.Pattern

inductive Problem where
  | invalidFlags
  | nothingToRepeat
  | repetitionOutOfOrder
  | unterminatedGroup
  | unmatchedParenthesis
  | invalidGroup
  | invalidGroupName
  | duplicateGroupName
  | invalidReference
  | unterminatedClass
  | rangeOutOfOrder
  | invalidClass
  | negatedWords
  | danglingEscape
  | invalidEscape
  | invalidProperty
  | loneBracket
  deriving DecidableEq

namespace Problem

def message : Problem → String
  | .invalidFlags => "invalid flags"
  | .nothingToRepeat => "nothing to repeat"
  | .repetitionOutOfOrder => "repetition bounds out of order"
  | .unterminatedGroup => "unterminated group"
  | .unmatchedParenthesis => "unmatched closing parenthesis"
  | .invalidGroup => "invalid group"
  | .invalidGroupName => "invalid group name"
  | .duplicateGroupName => "duplicate group name"
  | .invalidReference => "invalid named reference"
  | .unterminatedClass => "unterminated character class"
  | .rangeOutOfOrder => "range out of order in character class"
  | .invalidClass => "invalid character class"
  | .negatedWords => "negated character class may contain strings"
  | .danglingEscape => "escape at end of pattern"
  | .invalidEscape => "invalid escape"
  | .invalidProperty => "invalid property name"
  | .loneBracket => "lone bracket"

end Problem

/-- What the tables of characters say: which codes beyond the ASCII letters begin and continue names, which codes have a
property, and which words have a property of words. -/
structure CharacterData where
  startsName : Nat → Bool
  continuesName : Nat → Bool
  property? : (name : List Nat) → (value? : Option (List Nat)) → Option (List (Nat × Nat))
  words? : (name : List Nat) → Option (List (List Nat))

/-- What the reading of a term depends on: the tables of characters, whether codes are code points, whether classes are
sets of texts, and the groups of the pattern with their names. -/
structure Mode where
  data : CharacterData
  codePoints : Bool
  sets : Bool
  groups : List (Option (List Nat))

/-- Whether the letter k behind a backslash begins a reference. -/
def Mode.named (mode : Mode) : Bool := mode.codePoints || mode.groups.any Option.isSome

/-- The groups of a name; group one comes first. -/
def Mode.groupsOf (mode : Mode) (name : List Nat) : List Nat :=
  mode.groups.zipIdx.filterMap fun group => if group.1 = some name then some (group.2 + 1) else none

def codeOf (character : Char) : Nat := character.toNat

/-- Whether a code is one of the characters of a text. -/
def isOneOf (text : String) (code : Nat) : Bool := text.toList.any fun character => codeOf character = code

/-- The codes behind a code, if it is ahead. -/
def skip? (code : Nat) : List Nat → Option (List Nat)
  | [] => none
  | next :: rest => if next = code then some rest else none

def decimalDigit? (code : Nat) : Option Nat :=
  if codeOf '0' ≤ code ∧ code ≤ codeOf '9' then some (code - codeOf '0') else none

def hexDigit? (code : Nat) : Option Nat :=
  if codeOf '0' ≤ code ∧ code ≤ codeOf '9' then some (code - codeOf '0')
  else if codeOf 'a' ≤ code ∧ code ≤ codeOf 'f' then some (code - codeOf 'a' + 10)
  else if codeOf 'A' ≤ code ∧ code ≤ codeOf 'F' then some (code - codeOf 'A' + 10)
  else none

/-- Whether a code is an ASCII letter. -/
def isLetter (code : Nat) : Bool :=
  (codeOf 'a' ≤ code && code ≤ codeOf 'z') || (codeOf 'A' ≤ code && code ≤ codeOf 'Z')

/-- Reads decimal digits onto a count; the flag says whether there was one. -/
def readDecimal (read : Bool) (count : Nat) : List Nat → Bool × Nat × List Nat
  | [] => (read, count, [])
  | code :: rest =>
    match decimalDigit? code with
    | some digit => readDecimal true (count * 10 + digit) rest
    | none => (read, count, code :: rest)

def readHex? : Nat → Nat → List Nat → Option (Nat × List Nat)
  | 0, value, rest => some (value, rest)
  | _ + 1, _, [] => none
  | count + 1, value, code :: rest => do
    let digit ← hexDigit? code
    readHex? count (value * 16 + digit) rest

/-- Reads hexadecimal digits up to a closing brace. -/
def readBraced? (read : Bool) (value : Nat) : List Nat → Option (Nat × List Nat)
  | [] => none
  | code :: rest =>
    if code = codeOf '\x7d' then (if read && value ≤ 0x10FFFF then some (value, rest) else none)
    else match hexDigit? code with
      | some digit => readBraced? true (value * 16 + digit) rest
      | none => none

/-- Reads an octal code of at most three digits that stays below 256. -/
def readOctal : Nat → Nat → List Nat → Nat × List Nat
  | 0, value, rest => (value, rest)
  | _ + 1, value, [] => (value, [])
  | count + 1, value, code :: rest =>
    if codeOf '0' ≤ code ∧ code ≤ codeOf '7' ∧ value * 8 + (code - codeOf '0') < 256 then
      readOctal count (value * 8 + (code - codeOf '0')) rest
    else (value, code :: rest)

def digitAhead (codes : List Nat) : Bool :=
  match codes with
  | next :: _ => (decimalDigit? next).isSome
  | [] => false

/-- Reads the second half of a pair that is an escape of its own. -/
def readTrailing? (codes : List Nat) : Option (Nat × List Nat) := do
  let rest ← skip? (codeOf '\\') codes
  let digits ← skip? (codeOf 'u') rest
  let read ← readHex? 4 0 digits
  if Text.isTrailing read.1 then some read else none

/-- The code that four hexadecimal digits name, and that of a pair if it begins one and pairs are joined. -/
def joinUnits (codePoints : Bool) (read : Nat × List Nat) : Nat × List Nat :=
  if codePoints && Text.isLeading read.1 then
    match readTrailing? read.2 with
    | some trailing => (Text.pairCode read.1 trailing.1, trailing.2)
    | none => read
  else read

/-- Reads the code behind the letter u of an escape. -/
def readUnitEscape? (codePoints : Bool) (codes : List Nat) : Option (Nat × List Nat) :=
  match if codePoints then skip? (codeOf '\x7b') codes else none with
  | some digits => readBraced? false 0 digits
  | none => (readHex? 4 0 codes).map (joinUnits codePoints)

/-- The control code that a letter names. -/
def controlOf? (code : Nat) : Option Nat :=
  if code = codeOf 'f' then some 0x0C
  else if code = codeOf 'n' then some 0x0A
  else if code = codeOf 'r' then some 0x0D
  else if code = codeOf 't' then some 0x09
  else if code = codeOf 'v' then some 0x0B
  else none

/-- Whether a code names a control code behind the letter c of an escape. -/
def namesControl (mode : Mode) (inClass : Bool) (letter : Nat) : Bool :=
  isLetter letter || (!mode.codePoints && inClass && ((decimalDigit? letter).isSome || letter = codeOf '_'))

/-- Reads the control code that is named behind the letter c of an escape. The backslash stands for itself where none is
named. -/
def readControl (mode : Mode) (inClass : Bool) (rest : List Nat) : Except Problem (Nat × List Nat) :=
  let unnamed := if mode.codePoints then .error .invalidEscape else .ok (codeOf '\\', codeOf 'c' :: rest)
  match rest with
  | letter :: after => if namesControl mode inClass letter then .ok (letter % 32, after) else unnamed
  | [] => unnamed

/-- Reads an escaped digit that is no back reference. -/
def readDigits (mode : Mode) (code : Nat) (rest : List Nat) : Except Problem (Nat × List Nat) :=
  if mode.codePoints then
    if code = codeOf '0' && !digitAhead rest then .ok (0, rest) else .error .invalidEscape
  else if code ≤ codeOf '7' then .ok (readOctal 3 0 (code :: rest))
  else .ok (code, rest)

/-- Reads the code that digits behind the letter x or u name. -/
def readNumbered? (mode : Mode) (code : Nat) (rest : List Nat) : Option (Nat × List Nat) :=
  if code = codeOf 'x' then readHex? 2 0 rest
  else if code = codeOf 'u' then readUnitEscape? mode.codePoints rest
  else none

/-- The codes that mean something in a pattern. -/
def isSyntaxCode (code : Nat) : Bool := isOneOf "^$\\.*+?()[]\x7b\x7d|/" code

/-- The codes that only a set of texts may escape. -/
def isReservedCode (code : Nat) : Bool := isOneOf "&-!#%,:;<=>@`~" code

/-- Reads an escape that names nothing: it stands for its own code, with code points only where that code has a
meaning of its own. -/
def readIdentity (mode : Mode) (inClass : Bool) (code : Nat) (rest : List Nat) : Except Problem (Nat × List Nat) :=
  if mode.codePoints then
    if isSyntaxCode code || (inClass && (code = codeOf '-' || (mode.sets && isReservedCode code))) then .ok (code, rest)
    else .error .invalidEscape
  else if code = codeOf 'k' && mode.named then .error .invalidReference
  else .ok (code, rest)

/-- Reads what stands behind a backslash for a code. -/
def readCodeEscape (mode : Mode) (inClass : Bool) (code : Nat) (rest : List Nat) : Except Problem (Nat × List Nat) :=
  match controlOf? code with
  | some control => .ok (control, rest)
  | none =>
    if inClass && code = codeOf 'b' then .ok (0x08, rest)
    else if code = codeOf 'c' then readControl mode inClass rest
    else if (decimalDigit? code).isSome then readDigits mode code rest
    else
      match readNumbered? mode code rest with
      | some read => .ok read
      | none => readIdentity mode inClass code rest

/-- Whether a code may begin a name. No line end does. -/
def CharacterData.beginsName (data : CharacterData) (code : Nat) : Bool :=
  isLetter code || isOneOf "$_" code || (0x80 ≤ code && !isLineEnd code && data.startsName code)

/-- Whether a code may stand in a name behind its beginning. -/
def CharacterData.isInName (data : CharacterData) (code : Nat) : Bool :=
  data.beginsName code || (decimalDigit? code).isSome || code = 0x200C || code = 0x200D ||
    (0x80 ≤ code && !isLineEnd code && data.continuesName code)

/-- Reads a code of a name: a code, a pair of units or an escape. -/
def readNameCode? : List Nat → Option (Nat × List Nat)
  | [] => none
  | code :: rest =>
    if code = codeOf '\\' then (skip? (codeOf 'u') rest).bind (readUnitEscape? true)
    else
      match rest with
      | next :: after =>
        if Text.isLeading code && Text.isTrailing next then some (Text.pairCode code next, after) else some (code, rest)
      | [] => some (code, [])

/-- Reads a code that may come next in a name. -/
def readNamePart? (data : CharacterData) (first : Bool) (codes : List Nat) : Option (Nat × List Nat) := do
  let part ← readNameCode? codes
  if (if first then data.beginsName part.1 else data.isInName part.1) then some part else none

/-- Reads a name up to its closing bracket. Each part of it takes a code at least. -/
def readName? (data : CharacterData) : Nat → List Nat → List Nat → Option (List Nat × List Nat)
  | 0, _, _ => none
  | fuel + 1, read, codes =>
    match skip? (codeOf '>') codes with
    | some rest => if read.isEmpty then none else some (read.reverse, rest)
    | none => do
      let part ← readNamePart? data read.isEmpty codes
      readName? data fuel (part.1 :: read) part.2

/-- Reads a name behind its opening bracket. -/
def readGroupName? (data : CharacterData) (codes : List Nat) : Option (List Nat × List Nat) :=
  readName? data (codes.length + 1) [] codes

end TokenGrammar.Pattern
