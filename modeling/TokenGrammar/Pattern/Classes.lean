import TokenGrammar.Pattern.Escapes

namespace TokenGrammar.Pattern

/-- What an escape or another part of a class stands for: a code, codes or a set of texts. -/
inductive Escape where
  | code (code : Nat)
  | item (item : ClassItem)
  | set (set : ClassSet)

def setOf? (code : Nat) : Option ClassItem :=
  if code = codeOf 'd' then some (.set .digit false)
  else if code = codeOf 'D' then some (.set .digit true)
  else if code = codeOf 'w' then some (.set .word false)
  else if code = codeOf 'W' then some (.set .word true)
  else if code = codeOf 's' then some (.set .blank false)
  else if code = codeOf 'S' then some (.set .blank true)
  else none

/-- Whether a code may stand in the name or the value of a property. -/
def isPropertyCode (code : Nat) : Bool := isLetter code || (decimalDigit? code).isSome || code = codeOf '_'

/-- Reads the value of a property, if it has one, and its closing brace. -/
def readPropertyValue? (codes : List Nat) : Option (Option (List Nat) × List Nat) :=
  match skip? (codeOf '=') codes with
  | some rest => (skip? (codeOf '\x7d') (rest.dropWhile isPropertyCode)).map (some (rest.takeWhile isPropertyCode), ·)
  | none => (skip? (codeOf '\x7d') codes).map (none, ·)

/-- The codes or the words that have a property. Only words may be asked for where classes are sets of texts. -/
def propertyOf? (mode : Mode) (negated : Bool) (name : List Nat) (value? : Option (List Nat)) : Option Escape :=
  match mode.data.property? name value? with
  | some ranges => some (.item (.property ranges negated))
  | none => if mode.sets && !negated && value?.isNone then (mode.data.words? name).map fun words => .set (.words words) else none

def readProperty (mode : Mode) (negated : Bool) (codes : List Nat) : Except Problem (Escape × List Nat) :=
  match skip? (codeOf '\x7b') codes with
  | none => .error .invalidProperty
  | some rest =>
    match readPropertyValue? (rest.dropWhile isPropertyCode) with
    | none => .error .invalidProperty
    | some (value?, rest') =>
      match propertyOf? mode negated (rest.takeWhile isPropertyCode) value? with
      | none => .error .invalidProperty
      | some escape => .ok (escape, rest')

/-- Whether a code has a meaning of its own in a set of texts: always, or because it stands there twice. -/
def isSetSyntax (code : Nat) (rest : List Nat) : Bool :=
  isOneOf "()[]\x7b\x7d/-|" code || (isOneOf "&!#$%*+,.:;<=>?@^`~" code && (skip? code rest).isSome)

/-- Reads a code of a set of texts. -/
def readSetCode (mode : Mode) : List Nat → Except Problem (Nat × List Nat)
  | [] => .error .unterminatedClass
  | code :: rest =>
    if code = codeOf '\\' then
      match rest with
      | [] => .error .danglingEscape
      | mark :: after => readCodeEscape mode true mark after
    else if isSetSyntax code rest then .error .invalidClass
    else .ok (code, rest)

/-- Reads words up to the closing brace. Each round takes a code at least. -/
def readWords (mode : Mode) : Nat → List (List Nat) → List Nat → List Nat → Except Problem (List (List Nat) × List Nat)
  | 0, _, _, _ => .error .unterminatedClass
  | fuel + 1, words, word, codes =>
    match skip? (codeOf '\x7d') codes with
    | some rest => .ok ((word.reverse :: words).reverse, rest)
    | none =>
      match skip? (codeOf '|') codes with
      | some rest => readWords mode fuel (word.reverse :: words) [] rest
      | none => readSetCode mode codes >>= fun read => readWords mode fuel words (read.1 :: word) read.2

/-- Reads what follows the backslash of an escape that is neither an edge nor a reference. -/
def readEscape (mode : Mode) (inClass : Bool) (code : Nat) (rest : List Nat) : Except Problem (Escape × List Nat) :=
  match setOf? code with
  | some item => .ok (.item item, rest)
  | none =>
    if mode.codePoints && code = codeOf 'p' then readProperty mode false rest
    else if mode.codePoints && code = codeOf 'P' then readProperty mode true rest
    else if mode.sets && inClass && code = codeOf 'q' then
      match skip? (codeOf '\x7b') rest with
      | some inside => (readWords mode (inside.length + 1) [] [] inside).map fun read => (.set (.words read.1), read.2)
      | none => .error .invalidEscape
    else (readCodeEscape mode inClass code rest).map fun read => (.code read.1, read.2)

/-- Reads one member of a character class. -/
def readClassMember (mode : Mode) : List Nat → Except Problem (Escape × List Nat)
  | [] => .error .unterminatedClass
  | code :: rest =>
    if code = codeOf '\\' then
      match rest with
      | [] => .error .danglingEscape
      | mark :: after => readEscape mode true mark after
    else if mode.sets && isSetSyntax code rest then .error .invalidClass
    else .ok (.code code, rest)

/-- The parts that a member of a class of codes makes by itself. -/
def Escape.items : Escape → List ClassItem
  | .code single => [.range single single]
  | .item part => [part]
  | .set _ => []

/-- The codes from the upper end of a range on, if a dash makes one. -/
def rangeAhead? (codes : List Nat) : Option (List Nat) := do
  let rest ← skip? (codeOf '-') codes
  if (skip? (codeOf ']') rest).isSome then none else some rest

/-- The members that a dash between two others makes, the last first. -/
def rangeBetween (mode : Mode) (lower upper : Escape) : Except Problem (List ClassItem) :=
  match lower, upper with
  | .code first, .code last => if first ≤ last then .ok [.range first last] else .error .rangeOutOfOrder
  | _, _ =>
    if mode.codePoints then .error .invalidClass
    else .ok (upper.items ++ .range (codeOf '-') (codeOf '-') :: lower.items)

/-- Reads what makes a range of a member, if anything does. -/
def readRange (mode : Mode) (member : Escape) (codes : List Nat) : Except Problem (List ClassItem × List Nat) :=
  match rangeAhead? codes with
  | some rest => do
    let (upper, rest) ← readClassMember mode rest
    let items ← rangeBetween mode member upper
    return (items, rest)
  | none => .ok (member.items, codes)

/-- Reads the members of a class of codes up to its closing bracket; each of them takes a code at least. -/
def readClass (mode : Mode) : Nat → List ClassItem → List Nat → Except Problem (List ClassItem × List Nat)
  | 0, _, _ => .error .unterminatedClass
  | fuel + 1, read, codes =>
    match skip? (codeOf ']') codes with
    | some rest => .ok (read.reverse, rest)
    | none =>
      readClassMember mode codes >>= fun member =>
        readRange mode member.1 member.2 >>= fun items => readClass mode fuel (items.1 ++ read) items.2

/-- A class escape as a set of texts. The complement of such a set is taken among the codes that all compare apart. -/
def ClassItem.asSet : ClassItem → ClassSet
  | .set named true => .complement (.items [.set named false])
  | .property ranges true => .complement (.items [.property ranges false])
  | item => .items [item]

/-- The set that a part of a class makes by itself. -/
def Escape.asSet (sets : Bool) : Escape → ClassSet
  | .code single => .items [.range single single]
  | .item part => if sets then part.asSet else .items [part]
  | .set inner => inner

/-- How the parts of a set of texts that have been read are put together; a part by itself leaves it open. -/
inductive SetReading where
  | nothing
  | operand (set : ClassSet)
  | union (set : ClassSet)
  | intersection (set : ClassSet)
  | difference (set : ClassSet)

def SetReading.set : SetReading → ClassSet
  | .nothing => .items []
  | .operand set | .union set | .intersection set | .difference set => set

/-- The codes behind a code that is ahead twice. -/
def skipTwice? (code : Nat) (codes : List Nat) : Option (List Nat) := (skip? code codes).bind (skip? code)

/-- The codes from the upper end of a range of a set of texts on. -/
def setRangeAhead? (codes : List Nat) : Option (List Nat) := do
  let rest ← skip? (codeOf '-') codes
  if (skip? (codeOf '-') rest).isSome then none else some rest

section Sets

variable (mode : Mode) (nested : List Nat → Except Problem (ClassSet × List Nat))

/-- Reads a part of a set of texts that may stand beside an operator. -/
def readOperand (codes : List Nat) : Except Problem (Escape × List Nat) :=
  match skip? (codeOf '[') codes with
  | some inside => (nested inside).map fun read => (.set read.1, read.2)
  | none => readClassMember mode codes

/-- Reads a range or another part of a set of texts; the flag says whether it may stand beside an operator. -/
def readSetMember (codes : List Nat) : Except Problem (ClassSet × Bool × List Nat) := do
  let (part, rest) ← readOperand mode nested codes
  match part, setRangeAhead? rest with
  | .code first, some rest => do
    let (last, rest) ← readSetCode mode rest
    if first ≤ last then .ok (.items [.range first last], false, rest) else .error .rangeOutOfOrder
  | part, _ => .ok (part.asSet true, true, rest)

/-- Reads one more member of a union. -/
def readUnion (set : ClassSet) (codes : List Nat) : Except Problem (SetReading × List Nat) :=
  (readSetMember mode nested codes).map fun member => (.union (.union set member.1), member.2.2)

/-- Reads one more operand of an intersection, behind the operator. -/
def readIntersection (set : ClassSet) (codes : List Nat) : Except Problem (SetReading × List Nat) :=
  if (skip? (codeOf '&') codes).isSome then .error .invalidClass
  else (readOperand mode nested codes).map fun part => (.intersection (.intersection set (part.1.asSet true)), part.2)

/-- Reads one more operand of a difference, behind the operator. -/
def readDifference (set : ClassSet) (codes : List Nat) : Except Problem (SetReading × List Nat) :=
  (readOperand mode nested codes).map fun part => (.difference (.difference set (part.1.asSet true)), part.2)

/-- Reads one more part of a set of texts. Operators of different kinds do not mix, nor do they with a mere row of parts. -/
def readSetPart (codes : List Nat) : SetReading → Except Problem (SetReading × List Nat)
  | .nothing => (readSetMember mode nested codes).map fun member =>
    (if member.2.1 then .operand member.1 else .union member.1, member.2.2)
  | .union set => readUnion mode nested set codes
  | .operand set =>
    match skipTwice? (codeOf '&') codes, skipTwice? (codeOf '-') codes with
    | some rest, _ => readIntersection mode nested set rest
    | none, some rest => readDifference mode nested set rest
    | none, none => readUnion mode nested set codes
  | .intersection set =>
    match skipTwice? (codeOf '&') codes with
    | some rest => readIntersection mode nested set rest
    | none => .error .invalidClass
  | .difference set =>
    match skipTwice? (codeOf '-') codes with
    | some rest => readDifference mode nested set rest
    | none => .error .invalidClass

end Sets

/-- Reads a class behind its opening bracket: its contents, or their complement. -/
def openClass (contents : List Nat → Except Problem (ClassSet × List Nat)) (codes : List Nat) :
    Except Problem (ClassSet × List Nat) :=
  match skip? (codeOf '^') codes with
  | some inside => do
    let (set, rest) ← contents inside
    if set.mayHoldWords then .error .negatedWords else .ok (.complement set, rest)
  | none => contents codes

/-- Reads the parts of a set of texts up to its closing bracket; each of them takes a code at least. -/
def readSet (mode : Mode) : Nat → SetReading → List Nat → Except Problem (ClassSet × List Nat)
  | 0, _, _ => .error .unterminatedClass
  | fuel + 1, reading, codes =>
    match skip? (codeOf ']') codes with
    | some rest => .ok (reading.set, rest)
    | none =>
      readSetPart mode (openClass (readSet mode fuel .nothing)) codes reading >>= fun next =>
        readSet mode fuel next.1 next.2

/-- Reads a class behind its opening bracket. -/
def readBrackets (mode : Mode) (codes : List Nat) : Except Problem (ClassSet × List Nat) :=
  openClass (fun inside =>
    if mode.sets then readSet mode (codes.length + 1) .nothing inside
    else (readClass mode (codes.length + 1) [] inside).map fun items => (.items items.1, items.2)) codes

end TokenGrammar.Pattern
