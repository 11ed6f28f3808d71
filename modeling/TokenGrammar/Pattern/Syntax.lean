namespace TokenGrammar.Pattern

def isLineEnd (code : Nat) : Bool := code = 0x0A || code = 0x0D || code = 0x2028 || code = 0x2029

/-- A class escape names a set of codes or its complement. -/
inductive CodeSet where
  | digit
  | word
  | blank
  deriving DecidableEq

/-- The parts of a character class. A property of characters is given by the ranges of codes that have it. -/
inductive ClassItem where
  | range (first last : Nat)
  | set (set : CodeSet) (negated : Bool)
  | property (ranges : List (Nat × Nat)) (negated : Bool)
  deriving DecidableEq

/-- What a character class takes: codes, and words where classes are sets of texts. -/
inductive ClassSet where
  | items (items : List ClassItem)
  | words (words : List (List Nat))
  | complement (set : ClassSet)
  | union (first second : ClassSet)
  | intersection (first second : ClassSet)
  | difference (first second : ClassSet)
  deriving DecidableEq

/-- The words that a set is made of. -/
def ClassSet.listed : ClassSet → List (List Nat)
  | .items _ | .complement _ => []
  | .words all => all
  | .union first second | .intersection first second => first.listed ++ second.listed
  | .difference first _ => first.listed

/-- Whether a set may hold a word that is no single code, by the way it is written. -/
def ClassSet.mayHoldWords : ClassSet → Bool
  | .items _ | .complement _ => false
  | .words all => all.any (·.length ≠ 1)
  | .union first second => first.mayHoldWords || second.mayHoldWords
  | .intersection first second => first.mayHoldWords && second.mayHoldWords
  | .difference first _ => first.mayHoldWords

structure Flags where
  indices : Bool := false
  global : Bool := false
  ignoreCase : Bool := false
  multiline : Bool := false
  dotAll : Bool := false
  unicode : Bool := false
  unicodeSets : Bool := false
  sticky : Bool := false
  deriving DecidableEq

/-- Options that a group changes for its inside; what is not said stays as it is. -/
structure Modifiers where
  ignoreCase : Option Bool := none
  multiline : Option Bool := none
  dotAll : Option Bool := none
  deriving DecidableEq

def Modifiers.apply (modifiers : Modifiers) (flags : Flags) : Flags :=
  { flags with
    ignoreCase := modifiers.ignoreCase.getD flags.ignoreCase
    multiline := modifiers.multiline.getD flags.multiline
    dotAll := modifiers.dotAll.getD flags.dotAll }

/-- An expression. A repetition clears the groups opened inside of it, `firstGroup` up to below `endGroup`,
before each round. A reference is to the first of its groups that has taken part. -/
inductive Node where
  | empty
  | code (code : Nat)
  | any
  | class (set : ClassSet)
  | lineStart
  | lineEnd
  | wordEdge (negated : Bool)
  | backReference (groups : List Nat)
  | capturing (group : Nat) (body : Node)
  | look (behind negative : Bool) (body : Node)
  | modified (modifiers : Modifiers) (body : Node)
  | sequence (first second : Node)
  | choice (first second : Node)
  | repetition (body : Node) (least : Nat) (most : Option Nat) (greedy : Bool) (firstGroup endGroup : Nat)
  deriving DecidableEq

namespace Node

/-- Whether an expression takes no code wherever it matches. -/
def takesNothing : Node → Bool
  | .empty | .lineStart | .lineEnd | .wordEdge _ | .look .. => true
  | .code _ | .any | .class _ | .backReference _ => false
  | .capturing _ body | .modified _ body => body.takesNothing
  | .sequence first second | .choice first second => first.takesNothing && second.takesNothing
  | .repetition body _ most .. => most == some 0 || body.takesNothing

def append : Node → Node → Node
  | .empty, term => term
  | node, term => .sequence node term

/-- The groups that are opened in an expression. -/
def groups : Node → List Nat
  | .empty | .code _ | .any | .class _ | .lineStart | .lineEnd | .wordEdge _ | .backReference _ => []
  | .capturing group body => group :: body.groups
  | .look _ _ body | .modified _ body | .repetition body .. => body.groups
  | .sequence first second | .choice first second => first.groups ++ second.groups

end Node

namespace Flags

/-- Whether a text is read by code points. -/
def codePoints (flags : Flags) : Bool := flags.unicode || flags.unicodeSets

/-- Each flag has a letter and stands at most once; the two ways to read code points exclude each other. -/
def read? : Flags → List Char → Option Flags
  | flags, [] => if flags.unicode && flags.unicodeSets then none else some flags
  | flags, 'd' :: rest => if flags.indices then none else read? { flags with indices := true } rest
  | flags, 'g' :: rest => if flags.global then none else read? { flags with global := true } rest
  | flags, 'i' :: rest => if flags.ignoreCase then none else read? { flags with ignoreCase := true } rest
  | flags, 'm' :: rest => if flags.multiline then none else read? { flags with multiline := true } rest
  | flags, 's' :: rest => if flags.dotAll then none else read? { flags with dotAll := true } rest
  | flags, 'u' :: rest => if flags.unicode then none else read? { flags with unicode := true } rest
  | flags, 'v' :: rest => if flags.unicodeSets then none else read? { flags with unicodeSets := true } rest
  | flags, 'y' :: rest => if flags.sticky then none else read? { flags with sticky := true } rest
  | _, _ => none

def ofText? (text : String) : Option Flags := read? {} text.toList

/-- The letters of the flags in their fixed order. -/
def text (flags : Flags) : String :=
  String.ofList <|
    (if flags.indices then ['d'] else []) ++ (if flags.global then ['g'] else []) ++
    (if flags.ignoreCase then ['i'] else []) ++ (if flags.multiline then ['m'] else []) ++
    (if flags.dotAll then ['s'] else []) ++ (if flags.unicode then ['u'] else []) ++
    (if flags.unicodeSets then ['v'] else []) ++ (if flags.sticky then ['y'] else [])

/-- The flags without those that steer a search. -/
def forTest (flags : Flags) : Flags := { flags with global := false, sticky := false }

def forSplit (flags : Flags) : Flags := { flags with global := true, sticky := false }

end Flags

end TokenGrammar.Pattern
