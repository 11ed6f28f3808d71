import TokenGrammar.Pattern.Classes

namespace TokenGrammar.Pattern

/-- The bounds of a repetition and whether it takes as much as it can. -/
structure Quantifier where
  least : Nat
  most : Option Nat
  greedy : Bool

/-- The largest bound of a repetition. As an upper bound it is none. -/
def largestBound : Nat := 2147483647

def upperBound? (bound : Nat) : Option Nat := if bound < largestBound then some bound else none

def closeBounds? (least : Nat) (most : Option Nat) (codes : List Nat) : Option (Nat × Option Nat × List Nat) :=
  (skip? (codeOf '\x7d') codes).map (least, most, ·)

/-- Reads what stands behind the lower bound of a repetition, from its comma or closing brace on. -/
def readUpper? (lower : Nat) (codes : List Nat) : Option (Nat × Option Nat × List Nat) :=
  match skip? (codeOf ',') codes with
  | some rest =>
    let upper := readDecimal false 0 rest
    closeBounds? (min lower largestBound) (if upper.1 then upperBound? upper.2.1 else none) upper.2.2
  | none => closeBounds? (min lower largestBound) (upperBound? lower) codes

/-- Reads bounds in braces, behind the opening brace. -/
def readBounds? (codes : List Nat) : Option (Nat × Option Nat × List Nat) :=
  let lower := readDecimal false 0 codes
  if lower.1 then readUpper? lower.2.1 lower.2.2 else none

/-- Reads the bounds of a repetition, if some follow. -/
def readRepetition? : List Nat → Option (Nat × Option Nat × List Nat)
  | [] => none
  | code :: rest =>
    if code = codeOf '*' then some (0, none, rest)
    else if code = codeOf '+' then some (1, none, rest)
    else if code = codeOf '?' then some (0, some 1, rest)
    else if code = codeOf '\x7b' then readBounds? rest
    else none

/-- Reads the mark that makes a repetition take as little as it can. -/
def readGreed (codes : List Nat) : Bool × List Nat :=
  match skip? (codeOf '?') codes with
  | some rest => (false, rest)
  | none => (true, codes)

def readQuantifier (codes : List Nat) : Except Problem (Option Quantifier × List Nat) :=
  match readRepetition? codes with
  | none => .ok (none, codes)
  | some (least, most, rest) =>
    if most.all (least ≤ ·) then .ok (some ⟨least, most, (readGreed rest).1⟩, (readGreed rest).2)
    else .error .repetitionOutOfOrder

def Quantifier.apply (quantifier : Option Quantifier) (term : Node) (firstGroup endGroup : Nat) : Node :=
  match quantifier with
  | none => term
  | some bounds => .repetition term bounds.least bounds.most bounds.greedy firstGroup endGroup

/-- The groups that are open while their inside is read. -/
inductive Opening where
  | capturing (group : Nat)
  | plain
  | look (behind negative : Bool)
  | modified (modifiers : Modifiers)

/-- The term that a group makes of its inside. -/
def Opening.close (opening : Opening) (inside : Node) : Node :=
  match opening with
  | .capturing group => .capturing group inside
  | .plain => inside
  | .look behind negative => .look behind negative inside
  | .modified modifiers => .modified modifiers inside

/-- Whether a closed group may be repeated. -/
def Opening.repeatable (mode : Mode) : Opening → Bool
  | .look behind _ => !behind && !mode.codePoints
  | _ => true

/-- Reads the letters of modifiers, each of which stands at most once. -/
def readLetters? (value : Bool) (modifiers : Modifiers) : List Nat → Option (Modifiers × List Nat)
  | [] => some (modifiers, [])
  | code :: rest =>
    if code = codeOf 'i' then
      if modifiers.ignoreCase.isSome then none else readLetters? value { modifiers with ignoreCase := some value } rest
    else if code = codeOf 'm' then
      if modifiers.multiline.isSome then none else readLetters? value { modifiers with multiline := some value } rest
    else if code = codeOf 's' then
      if modifiers.dotAll.isSome then none else readLetters? value { modifiers with dotAll := some value } rest
    else some (modifiers, code :: rest)

/-- Reads the modifiers that a group takes away, if a dash is ahead. -/
def readRemoved? (added : Modifiers) (codes : List Nat) : Option (Modifiers × List Nat) :=
  match skip? (codeOf '-') codes with
  | some rest => readLetters? false added rest
  | none => some (added, codes)

/-- Reads the modifiers of a group and the colon behind them. -/
def readModifiers? (codes : List Nat) : Option (Modifiers × List Nat) := do
  let (added, rest) ← readLetters? true {} codes
  let (modifiers, rest) ← readRemoved? added rest
  let inside ← skip? (codeOf ':') rest
  if modifiers = {} then none else some (modifiers, inside)

/-- Reads the name of a group or the kind of a look behind, behind the opening bracket. -/
def readAngle (mode : Mode) (opened : Nat) (codes : List Nat) : Except Problem (Opening × Nat × List Nat) :=
  match skip? (codeOf '=') codes, skip? (codeOf '!') codes with
  | some inside, _ => .ok (.look true false, opened, inside)
  | none, some inside => .ok (.look true true, opened, inside)
  | none, none =>
    match readGroupName? mode.data codes with
    | some (_, inside) => .ok (.capturing (opened + 1), opened + 1, inside)
    | none => .error .invalidGroupName

/-- Reads what kind of group a question mark begins, and the number of groups opened then. -/
def readKind (mode : Mode) (opened : Nat) (codes : List Nat) : Except Problem (Opening × Nat × List Nat) :=
  match codes with
  | [] => .error .invalidGroup
  | kind :: inside =>
    if kind = codeOf ':' then .ok (.plain, opened, inside)
    else if kind = codeOf '=' then .ok (.look false false, opened, inside)
    else if kind = codeOf '!' then .ok (.look false true, opened, inside)
    else if kind = codeOf '<' then readAngle mode opened inside
    else
      match readModifiers? (kind :: inside) with
      | some (modifiers, inside) => .ok (.modified modifiers, opened, inside)
      | none => .error .invalidGroup

/-- Reads what an opening parenthesis opens, and the number of groups opened then. -/
def readOpening (mode : Mode) (opened : Nat) (codes : List Nat) : Except Problem (Opening × Nat × List Nat) :=
  match skip? (codeOf '?') codes with
  | some rest => readKind mode opened rest
  | none => .ok (.capturing (opened + 1), opened + 1, codes)

/-- The group that an opening parenthesis opens, if it can be referred to, with its name. -/
def groupAhead (data : CharacterData) (codes : List Nat) : List (Option (List Nat)) :=
  match skip? (codeOf '?') codes with
  | none => [none]
  | some rest =>
    match skip? (codeOf '<') rest with
    | none => []
    | some inside =>
      if (skip? (codeOf '=') inside).isSome || (skip? (codeOf '!') inside).isSome then []
      else [(readGroupName? data inside).map Prod.fst]

/-- The groups of a pattern that can be referred to, with their names; the depth tells how many classes are open. -/
def groupsIn (data : CharacterData) (sets : Bool) : Nat → List Nat → List (Option (List Nat))
  | _, [] => []
  | depth, code :: rest =>
    if code = codeOf '\\' then
      match rest with
      | [] => []
      | _ :: after => groupsIn data sets depth after
    else if 0 < depth then
      groupsIn data sets
        (if code = codeOf ']' then depth - 1 else if sets && code = codeOf '[' then depth + 1 else depth) rest
    else if code = codeOf '[' then groupsIn data sets 1 rest
    else (if code = codeOf '(' then groupAhead data rest else []) ++ groupsIn data sets 0 rest

/-- The name of a group, if it has one. -/
def nameOf? (names : List (Option (List Nat))) (group : Nat) : Option (List Nat) := (names[group - 1]?).join

/-- Whether a group of one list has the name of one of another list. -/
def shareName (names : List (Option (List Nat))) (first second : List Nat) : Bool :=
  first.any fun group => second.any fun other =>
    (nameOf? names group).isSome && nameOf? names group = nameOf? names other

/-- Whether groups of one name stand in different alternatives only. -/
def Node.namesApart (names : List (Option (List Nat))) : Node → Bool
  | .empty | .code _ | .any | .class _ | .lineStart | .lineEnd | .wordEdge _ | .backReference _ => true
  | .capturing group body => body.namesApart names && !shareName names [group] body.groups
  | .look _ _ body | .modified _ body | .repetition body .. => body.namesApart names
  | .sequence first second =>
    first.namesApart names && second.namesApart names && !shareName names first.groups second.groups
  | .choice first second => first.namesApart names && second.namesApart names

/-- Reads a reference by name, behind the letter k of an escape. -/
def readReference (mode : Mode) (codes : List Nat) : Except Problem (Node × Bool × List Nat) :=
  match (skip? (codeOf '<') codes).bind (readGroupName? mode.data) with
  | some (name, rest) =>
    if (mode.groupsOf name).isEmpty then .error .invalidReference
    else .ok (.backReference (mode.groupsOf name), true, rest)
  | none => .error .invalidReference

/-- The term that an escape outside of classes makes. -/
def Escape.term (mode : Mode) : Escape → Node
  | .code single => .code single
  | escape => .class (escape.asSet mode.sets)

/-- Reads an escape outside of classes as a term; the flag says whether the term may be repeated. A number that no group
has is no reference. -/
def readEscapedTerm (mode : Mode) (codes : List Nat) : Except Problem (Node × Bool × List Nat) :=
  match codes with
  | [] => .error .danglingEscape
  | code :: rest =>
    if code = codeOf 'b' then .ok (.wordEdge false, false, rest)
    else if code = codeOf 'B' then .ok (.wordEdge true, false, rest)
    else if code = codeOf 'k' && mode.named then readReference mode rest
    else
      let number := readDecimal false 0 (code :: rest)
      if codeOf '1' ≤ code ∧ code ≤ codeOf '9' ∧ number.2.1 ≤ mode.groups.length then
        .ok (.backReference [number.2.1], true, number.2.2)
      else (readEscape mode false code rest).map fun escape => (escape.1.term mode, true, escape.2)

/-- Reads a term that neither begins nor ends a group or an alternative; the flag says whether it may be repeated. Without
code points, a brace or a closing bracket that opens nothing stands for itself. -/
def readAtom (mode : Mode) (code : Nat) (rest : List Nat) : Except Problem (Node × Bool × List Nat) :=
  if code = codeOf '^' then .ok (.lineStart, false, rest)
  else if code = codeOf '$' then .ok (.lineEnd, false, rest)
  else if code = codeOf '\\' then readEscapedTerm mode rest
  else if code = codeOf '.' then .ok (.any, true, rest)
  else if code = codeOf '[' then (readBrackets mode rest).map fun set => (.class set.1, true, set.2)
  else if isOneOf "*+?" code then .error .nothingToRepeat
  else if code = codeOf '\x7b' then
    if mode.codePoints || (readBounds? rest).isSome then .error .nothingToRepeat else .ok (.code code, true, rest)
  else if code = codeOf '\x7d' || code = codeOf ']' then
    if mode.codePoints then .error .loneBracket else .ok (.code code, true, rest)
  else .ok (.code code, true, rest)

/-- The part of an alternation read so far. -/
structure Partial where
  earlier : Option Node
  current : Node

namespace Partial

def start : Partial := ⟨none, .empty⟩

/-- The choice between the alternatives before the current one and the current one. -/
def finish (read : Partial) : Node :=
  match read.earlier with
  | none => read.current
  | some earlier => .choice earlier read.current

def nextAlternative (read : Partial) : Partial := ⟨some read.finish, .empty⟩

/-- Appends a term to the current alternative. -/
def append (read : Partial) (term : Node) : Partial := { read with current := read.current.append term }

end Partial

/-- An open group, what was read around it, and the number of groups opened before it. -/
structure Frame where
  opening : Opening
  outside : Partial
  firstGroup : Nat

/-- What has been read of an expression: how many groups have been opened, which of them are open, the innermost first,
and the part that has been read inside of that one. -/
structure Reading where
  opened : Nat
  frames : List Frame
  read : Partial

namespace Reading

/-- Reads the quantifier of a term that may have one, and appends the term. -/
def append (reading : Reading) (firstGroup : Nat) (term : Node) (mayRepeat : Bool) (codes : List Nat) :
    Except Problem (Reading × List Nat) :=
  if mayRepeat then
    readQuantifier codes >>= fun quantifier =>
      let quantified := Quantifier.apply quantifier.1 term firstGroup reading.opened
      .ok ({ reading with read := reading.read.append quantified }, quantifier.2)
  else .ok ({ reading with read := reading.read.append term }, codes)

def close (mode : Mode) (reading : Reading) (codes : List Nat) : Except Problem (Reading × List Nat) :=
  match reading.frames with
  | [] => .error .unmatchedParenthesis
  | frame :: outer =>
    let outside : Reading := ⟨reading.opened, outer, frame.outside⟩
    outside.append frame.firstGroup (frame.opening.close reading.read.finish) (frame.opening.repeatable mode) codes

/-- Reads one term, or one end of a group or of an alternative. -/
def next (mode : Mode) (reading : Reading) (code : Nat) (rest : List Nat) : Except Problem (Reading × List Nat) :=
  if code = codeOf '|' then .ok ({ reading with read := reading.read.nextAlternative }, rest)
  else if code = codeOf '(' then
    readOpening mode reading.opened rest >>= fun group =>
      .ok (⟨group.2.1, ⟨group.1, reading.read, reading.opened⟩ :: reading.frames, .start⟩, group.2.2)
  else if code = codeOf ')' then reading.close mode rest
  else readAtom mode code rest >>= fun atom => reading.append reading.opened atom.1 atom.2.1 atom.2.2

def finish (mode : Mode) : Nat → Reading × List Nat → Except Problem Node
  | 0, _ => .error .unterminatedGroup
  | _ + 1, (reading, []) => if reading.frames.isEmpty then .ok reading.read.finish else .error .unterminatedGroup
  | fuel + 1, (reading, code :: rest) => reading.next mode code rest >>= finish mode fuel

end Reading

/-- Reads a whole pattern. Each round takes a code at least. -/
def readPattern (mode : Mode) (codes : List Nat) : Except Problem Node :=
  Reading.finish mode (codes.length + 1) (⟨0, [], .start⟩, codes) >>= fun root =>
    if root.namesApart mode.groups then .ok root else .error .duplicateGroupName

/-- How a pattern is read under flags. -/
def Mode.of (data : CharacterData) (flags : Flags) (codes : List Nat) : Mode :=
  ⟨data, flags.codePoints, flags.unicodeSets, groupsIn data flags.unicodeSets 0 codes⟩

end TokenGrammar.Pattern
