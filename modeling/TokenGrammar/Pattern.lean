import TokenGrammar.Pattern.Matcher
import TokenGrammar.Pattern.Parser

namespace TokenGrammar

/-- A pattern that has been read without a problem. -/
structure Pattern where
  source : Text
  flags : Pattern.Flags
  root : Pattern.Node
  groups : Nat

namespace Pattern

/-- The codes of a text: its code points where a pattern asks for them, and its units otherwise. -/
def codesOf (flags : Flags) (content : Text) : List Nat :=
  if flags.codePoints then content.codes else content.units.map UInt16.toNat

def ofSource (data : CharacterData) (source : Text) (flags : Flags) : Except Problem Pattern := do
  let codes := codesOf flags source
  let mode := Mode.of data flags codes
  let root ← readPattern mode codes
  return { source, flags, root, groups := mode.groups.length }

/-- Reads a source text under flag letters. -/
def compile (data : CharacterData) (source : Text) (letters : String) : Except Problem Pattern :=
  match Flags.ofText? letters with
  | some flags => ofSource data source flags
  | none => .error .invalidFlags

/-- What the escape of a line end has behind its backslash. -/
def lineEndSpelling? (code : Nat) : Option (List Nat) :=
  if code = codeOf '\n' then some [codeOf 'n']
  else if code = codeOf '\r' then some [codeOf 'r']
  else if code = codeOf '\u2028' then some ("u2028".toList.map codeOf)
  else if code = codeOf '\u2029' then some ("u2029".toList.map codeOf)
  else none

/-- How a code is written in the text of a pattern. -/
def writtenAs (escaped inClass : Bool) (code : Nat) : List Nat :=
  match lineEndSpelling? code with
  | some spelling => if escaped then spelling else codeOf '\\' :: spelling
  | none => if code = codeOf '/' && !escaped && !inClass then [codeOf '\\', codeOf '/'] else [code]

/-- Whether a class is open behind a code. -/
def classBehind (escaped inClass : Bool) (code : Nat) : Bool :=
  if escaped then inClass else if inClass then code ≠ codeOf ']' else code = codeOf '['

/-- Writes a source so that it can stand between slashes: a slash outside of classes gets a backslash unless
it has one, and line ends are written as escapes. -/
def escapeSource (escaped inClass : Bool) : List Nat → List Nat
  | [] => []
  | code :: rest =>
    writtenAs escaped inClass code ++
      escapeSource (code = codeOf '\\' && !escaped) (classBehind escaped inClass code) rest

/-- The text of a pattern as it is shown; the empty pattern is shown as an empty group. -/
def text (pattern : Pattern) : Text :=
  if pattern.source.isEmpty then "(?:)" else .ofCodes (escapeSource false false pattern.source.codes)

/-- Matches a pattern at one place of a text. -/
def matchAt? (pattern : Pattern) (subject : Subject) (place : Nat) : Option Progress :=
  pattern.root.matches subject ⟨place, Array.replicate pattern.groups none⟩ some

/-- The first match at or behind a place, trying so many places: where it begins and ends. -/
def searchFrom? (pattern : Pattern) (subject : Subject) : Nat → Nat → Option (Nat × Nat)
  | 0, _ => none
  | tries + 1, place =>
    match pattern.matchAt? subject place with
    | some reached => some (place, reached.place)
    | none => pattern.searchFrom? subject tries (place + 1)

def subjectOf (pattern : Pattern) (content : Text) : Subject :=
  { codes := (codesOf pattern.flags content).toArray, flags := pattern.flags }

/-- Whether a pattern matches anywhere in a text. -/
def occursIn (pattern : Pattern) (content : Text) : Bool :=
  let subject := pattern.subjectOf content
  (pattern.searchFrom? subject (subject.codes.size + 1) 0).isSome

/-- The matches from left to right, each at or behind the end of the one before it; behind an empty match the
search moves on by one code. The fuel bounds the number of matches. -/
def matchesFrom (pattern : Pattern) (subject : Subject) : Nat → Nat → List (Nat × Nat)
  | 0, _ => []
  | fuel + 1, place =>
    match pattern.searchFrom? subject (subject.codes.size + 1 - place) place with
    | none => []
    | some (first, last) =>
      (first, last) :: pattern.matchesFrom subject fuel (if last = first then last + 1 else last)

/-- All matches in a text from left to right. -/
def allMatches (pattern : Pattern) (subject : Subject) : List (Nat × Nat) :=
  pattern.matchesFrom subject (subject.codes.size + 1) 0

/-- The pattern between the ends of a text, and without the flags that steer a search. The source is taken
as text, so that a source that closes the group around it still makes a pattern. -/
def whole (data : CharacterData) (source : Text) (flags : Flags) : Except Problem Pattern :=
  ofSource data ("^(?:" ++ source ++ ")$") flags.forTest

end Pattern

/-- A pattern is given as a source text or as a compiled pattern. -/
inductive PatternSource where
  | text (source : Text)
  | compiled (pattern : Pattern)

namespace PatternSource

def source : PatternSource → Text
  | .text content => content
  | .compiled pattern => pattern.text

/-- The flags of a pattern source; a source text has none. -/
def flags : PatternSource → Pattern.Flags
  | .text _ => {}
  | .compiled pattern => pattern.flags

end PatternSource

end TokenGrammar
