import TokenGrammar.Text.Basic
import TokenGrammar.Text.CaseData

namespace TokenGrammar.Text

/-- The lower-case form of a code point that has a single one, and any other code point itself. -/
def lowerCode (code : Nat) : Nat :=
  match lowerCaseRuns.find? fun run => run.holds code with
  | some run => run.image code
  | none => code

/-- A code point whose lower-case form is the given one, and otherwise the code point itself. -/
def raiseCode (code : Nat) : Nat := (lowerCaseRuns.findSome? fun run => run.source? code).getD code

/-- Two code units are the same letter of a pattern without code points if their upper-case forms agree. -/
def upperUnit (unit : Nat) : Nat :=
  match upperCaseRuns.find? fun run => run.holds unit with
  | some run => run.image unit
  | none =>
    let raised := raiseCode unit
    if raised < 0x10000 ∧ (unit < 0x80 ∨ 0x80 ≤ raised) then raised else unit

/-- Two code points are the same letter of a pattern with code points if their foldings agree. -/
def foldCode (code : Nat) : Nat :=
  match foldingRuns.find? fun run => run.holds code with
  | some run => run.image code
  | none => lowerCode code

def inRanges (ranges : List (Nat × Nat)) (code : Nat) : Bool :=
  ranges.any fun (first, last) => first ≤ code && code ≤ last

/-- Whether a code is passed over in the search for the letters beside a sigma. -/
def isCaseIgnorable (code : Nat) : Bool := inRanges caseIgnorableRanges code

/-- Whether a code is that of a letter with case. -/
def isCased (code : Nat) : Bool := inRanges casedRanges code

/-- Whether the first code that counts is that of a letter with case. -/
def beginsWithLetter (codes : List Nat) : Bool := (codes.dropWhile isCaseIgnorable).head?.any isCased

def capitalSigma : Nat := 0x3A3

/-- The sigma at the end of a word. -/
def finalSigma : Nat := 0x3C2

def innerSigma : Nat := 0x3C3

/-- The lower-case form of a capital sigma, given the codes before it, the nearest one first, and behind it. -/
def lowerSigma (before behind : List Nat) : Nat :=
  if beginsWithLetter before && !beginsWithLetter behind then finalSigma else innerSigma

/-- The lower-case form of any other code: the dot of a capital I becomes a code of its own. -/
def lowerCodes (code : Nat) : List Nat := if code = 0x130 then [0x69, 0x307] else [lowerCode code]

/-- Lower-cases codes, given the codes before them, the nearest one first. -/
def lowerFrom (before : List Nat) : List Nat → List Nat
  | [] => []
  | code :: rest =>
    (if code = capitalSigma then [lowerSigma before rest] else lowerCodes code) ++
      lowerFrom (code :: before) rest

def lowerCase (text : Text) : Text := ofCodes (lowerFrom [] text.codes)

/-- Whether a text is another one, or is the same without regard to case. -/
def agrees (text expected : Text) (ignoreCase : Bool) : Bool :=
  if ignoreCase then text.lowerCase == expected.lowerCase else text == expected

end TokenGrammar.Text
