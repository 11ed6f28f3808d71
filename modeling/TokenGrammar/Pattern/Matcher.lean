import TokenGrammar.Pattern.Syntax
import TokenGrammar.Text.Blank
import TokenGrammar.Text.LetterCase

namespace TokenGrammar.Pattern

/-- A text under a pattern: its codes, the flags that decide how codes are compared, and the direction in which
the text is gone through. -/
structure Subject where
  codes : Array Nat
  flags : Flags
  backward : Bool := false

/-- A place in the text and the spans of the groups matched so far; group one comes first. -/
structure Progress where
  place : Nat
  groups : Array (Option (Nat × Nat))

def isDigit (code : Nat) : Bool := 0x30 ≤ code && code ≤ 0x39

/-- The codes of letters, digits and the underscore. -/
def isWord (code : Nat) : Bool :=
  isDigit code || (0x41 ≤ code && code ≤ 0x5A) || (0x61 ≤ code && code ≤ 0x7A) || code = 0x5F

/-- Puts a word among others, behind those that are as long and in front of those that are shorter. -/
def insertWord (word : List Nat) : List (List Nat) → List (List Nat)
  | [] => [word]
  | other :: rest => if other.length < word.length then word :: other :: rest else other :: insertWord word rest

namespace Subject

/-- The form of a code in comparisons. -/
def canonical (subject : Subject) (code : Nat) : Nat :=
  if subject.flags.ignoreCase then
    if subject.flags.codePoints then Text.foldCode code else Text.upperUnit code
  else code

/-- The codes that compare equal to a code. -/
def variants (subject : Subject) (code : Nat) : List Nat :=
  if subject.flags.ignoreCase then
    let common := subject.canonical code
    let candidates := [code, common, Text.lowerCode common] ++
      Text.lowerCaseRuns.filterMap (fun run => run.source? common) ++
      Text.foldingRuns.filterMap (fun run => run.source? common) ++
      Text.upperCaseRuns.filterMap (fun run => run.source? common)
    candidates.filter fun candidate => subject.canonical candidate = common
  else [code]

/-- Whether a code belongs to a word; with code points and without case, the long s and the kelvin sign
belong to words as well. -/
def isWord (subject : Subject) (code : Nat) : Bool :=
  Pattern.isWord code ||
  (subject.flags.ignoreCase && subject.flags.codePoints && (code = 0x17F || code = 0x212A))

def inSet (subject : Subject) (set : CodeSet) (code : Nat) : Bool :=
  match set with
  | .digit => isDigit code
  | .word => subject.isWord code
  | .blank => Text.isBlankCode code

def inItem (subject : Subject) (item : ClassItem) (code : Nat) : Bool :=
  match item with
  | .range first last => first ≤ code && code ≤ last
  | .set set negated => subject.inSet set code != negated
  | .property ranges negated => (ranges.any fun range => range.1 ≤ code && code ≤ range.2) != negated

/-- Whether a set holds a word. A code is in a part of a class when some code that compares equal to it is. -/
def holds (subject : Subject) (word : List Nat) : ClassSet → Bool
  | .items items =>
    match word with
    | [code] => (subject.variants code).any fun variant => items.any fun item => subject.inItem item variant
    | _ => false
  | .words words => words.any fun other => other.map subject.canonical = word.map subject.canonical
  | .complement set => word.length = 1 && !subject.holds word set
  | .union first second => subject.holds word first || subject.holds word second
  | .intersection first second => subject.holds word first && subject.holds word second
  | .difference first second => subject.holds word first && !subject.holds word second

/-- Whether a place is at the start of the text, or of a line where lines count. -/
def atLineStart (subject : Subject) (place : Nat) : Bool :=
  place = 0 || (subject.flags.multiline &&
    match subject.codes[place - 1]? with
    | some code => isLineEnd code
    | none => false)

/-- Whether a place is at the end of the text, or of a line where lines count. -/
def atLineEnd (subject : Subject) (place : Nat) : Bool :=
  match subject.codes[place]? with
  | none => true
  | some code => subject.flags.multiline && isLineEnd code

def wordAt (subject : Subject) (place : Nat) : Bool :=
  match subject.codes[place]? with
  | some code => subject.isWord code
  | none => false

/-- Whether a word begins or ends at a place. -/
def atWordEdge (subject : Subject) (place : Nat) : Bool :=
  (place ≠ 0 && subject.wordAt (place - 1)) != subject.wordAt place

/-- The place so many codes ahead in the direction in which the text is gone through. -/
def ahead? (subject : Subject) (length place : Nat) : Option Nat :=
  if subject.backward then (if length ≤ place then some (place - length) else none)
  else if place + length ≤ subject.codes.size then some (place + length) else none

def left (subject : Subject) (place : Nat) : Nat :=
  if subject.backward then place else subject.codes.size - place

/-- The code that comes next at a place. -/
def next? (subject : Subject) (place : Nat) : Option Nat :=
  if subject.backward then (if place = 0 then none else subject.codes[place - 1]?) else subject.codes[place]?

/-- The place behind one code that passes a test. -/
def step? (subject : Subject) (test : Nat → Bool) (progress : Progress) : Option Progress :=
  match subject.next? progress.place, subject.ahead? 1 progress.place with
  | some code, some place => if test code then some { progress with place } else none
  | _, _ => none

def word? (subject : Subject) : List Nat → Progress → Option Progress
  | [], progress => some progress
  | code :: rest, progress =>
    (subject.step? (fun found => subject.canonical found = subject.canonical code) progress).bind (subject.word? rest)

/-- The places behind a member of a set: behind the longer words first, then behind a code. -/
def behind (subject : Subject) (set : ClassSet) (progress : Progress) : List Progress :=
  let long := set.listed.filter fun word => 2 ≤ word.length && subject.holds word set
  (long.foldr insertWord []).filterMap (fun word => subject.word? (if subject.backward then word.reverse else word) progress) ++
    (subject.step? (fun code => subject.holds [code] set) progress).toList ++
    (if subject.holds [] set then [progress] else [])

/-- Whether two stretches of the same length compare equal, code by code. -/
def sameStretch (subject : Subject) (first second : Nat) : Nat → Bool
  | 0 => true
  | length + 1 =>
    match subject.codes[first]?, subject.codes[second]? with
    | some one, some other =>
      subject.canonical one = subject.canonical other && subject.sameStretch (first + 1) (second + 1) length
    | _, _ => false

/-- The place behind a stretch that compares equal to an earlier one. -/
def repeated? (subject : Subject) (span : Nat × Nat) (place : Nat) : Option Nat :=
  let length := span.2 - span.1
  match subject.ahead? length place with
  | some ahead => if subject.sameStretch span.1 (min place ahead) length then some ahead else none
  | none => none

def between (subject : Subject) (here ahead : Nat) : Nat × Nat := if subject.backward then (ahead, here) else (here, ahead)

end Subject

/-- Forgets the groups from `firstGroup` up to below `endGroup`. -/
def Progress.clear (progress : Progress) (firstGroup endGroup : Nat) : Progress :=
  if firstGroup < endGroup then
    { progress with groups := progress.groups.mapIdx fun group span =>
        if firstGroup ≤ group ∧ group < endGroup then none else span }
  else progress

/-- The span of the first of some groups that has taken part. -/
def Progress.span? (progress : Progress) (groups : List Nat) : Option (Nat × Nat) :=
  groups.findSome? fun group => (progress.groups[group - 1]?).join

/-- What a matched part hands on to. -/
abbrev Continuation := Progress → Option Progress

/-- Repeats a part at least and at most so often. Rounds that are not required must move on, so that the
fuel, one more than the required rounds and the codes left, always suffices. -/
def repeatPart (part : Progress → Continuation → Option Progress) (greedy : Bool)
    (firstGroup endGroup : Nat) : Nat → Nat → Option Nat → Progress → Continuation → Option Progress
  | 0, _, _, _, _ => none
  | fuel + 1, least, most, progress, next =>
    if most = some 0 then next progress
    else
      let round (_ : Unit) := part (progress.clear firstGroup endGroup) fun reached =>
        if least = 0 ∧ reached.place = progress.place then none
        else repeatPart part greedy firstGroup endGroup fuel (least - 1) (most.map (· - 1)) reached next
      if least ≠ 0 then round ()
      else if greedy then
        match round () with
        | some reached => some reached
        | none => next progress
      else
        match next progress with
        | some reached => some reached
        | none => round ()

/-- Matches an expression and hands on to what follows it in the direction in which the text is gone through. What
takes no code need not be repeated more than once where it is required, and not at all where it is not. -/
def Node.matches (subject : Subject) : Node → Progress → Continuation → Option Progress
  | .empty, progress, next => next progress
  | .code wanted, progress, next =>
    let wanted := subject.canonical wanted
    (subject.step? (fun found => subject.canonical found = wanted) progress).bind next
  | .any, progress, next =>
    (subject.step? (fun found => subject.flags.dotAll || !isLineEnd found) progress).bind next
  | .class set, progress, next => (subject.behind set progress).findSome? next
  | .lineStart, progress, next => if subject.atLineStart progress.place then next progress else none
  | .lineEnd, progress, next => if subject.atLineEnd progress.place then next progress else none
  | .wordEdge negated, progress, next =>
    if subject.atWordEdge progress.place != negated then next progress else none
  | .backReference groups, progress, next =>
    match progress.span? groups with
    | none => next progress
    | some span =>
      match subject.repeated? span progress.place with
      | some place => next { progress with place }
      | none => none
  | .capturing group body, progress, next =>
    body.matches subject progress fun reached =>
      next { reached with
        groups := reached.groups.setIfInBounds (group - 1) (some (subject.between progress.place reached.place)) }
  | .look behind negative body, progress, next =>
    match body.matches { subject with backward := behind } progress some with
    | some reached => if negative then none else next { reached with place := progress.place }
    | none => if negative then next progress else none
  | .modified modifiers body, progress, next =>
    body.matches { subject with flags := modifiers.apply subject.flags } progress next
  | .sequence first second, progress, next =>
    if subject.backward then
      second.matches subject progress fun reached => first.matches subject reached next
    else first.matches subject progress fun reached => second.matches subject reached next
  | .choice first second, progress, next =>
    (first.matches subject progress next).orElse fun _ => second.matches subject progress next
  | .repetition body least most greedy firstGroup endGroup, progress, next =>
    if body.takesNothing then
      if least = 0 then next progress else body.matches subject (progress.clear firstGroup endGroup) next
    else
      repeatPart (fun progress next => body.matches subject progress next) greedy firstGroup endGroup
        (least + subject.left progress.place + 1) least most progress next

end TokenGrammar.Pattern
