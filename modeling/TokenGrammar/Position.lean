import TokenGrammar.Fault

namespace TokenGrammar

structure Position where
  line : Number
  characterInLine : Number
  absoluteCharacter : Number
  deriving DecidableEq

namespace Position

/-- The position of what was not read from a text. -/
def unpositioned : Position := ⟨Number.minusOne, Number.minusOne, Number.minusOne⟩

instance : Inhabited Position := ⟨unpositioned⟩

/-- The coordinates of a place in a text. -/
def ofCounts (line characterInLine absoluteCharacter : Nat) : Position :=
  ⟨.ofNat line, .ofNat characterInLine, .ofNat absoluteCharacter⟩

/-- Makes a position; every coordinate has to be a count. -/
def create (line characterInLine absoluteCharacter : Number) : Except Fault Position := do
  check line.toNat?.isSome (.badLine line)
  check characterInLine.toNat?.isSome (.badCharacterInLine characterInLine)
  check absoluteCharacter.toNat?.isSome (.badAbsoluteCharacter absoluteCharacter)
  return ⟨line, characterInLine, absoluteCharacter⟩

theorem create_ofNat (line characterInLine absoluteCharacter : Nat) :
    create (.ofNat line) (.ofNat characterInLine) (.ofNat absoluteCharacter) =
      .ok (ofCounts line characterInLine absoluteCharacter) := by
  simp [create, check, ofCounts, bind, Except.bind, pure, Except.pure]

/-- Whether a position is a place in a text. -/
def isPositioned (position : Position) : Bool := (Number.ofNat 0).atMost position.absoluteCharacter

/-- Whether two positions agree in every coordinate. -/
def isSame (first second : Position) : Bool :=
  first.line.same second.line && first.characterInLine.same second.characterInLine &&
    first.absoluteCharacter.same second.absoluteCharacter

/-- The line and the place in it behind one character. -/
def nextPlace (place : Number × Number) (code : Nat) : Number × Number :=
  if code = '\n'.toNat then (place.1 + Number.ofNat 1, Number.ofNat 0)
  else (place.1, place.2 + Number.ofNat 1)

/-- The number of characters that a walk of the given length takes. -/
def walkLength (offset : Number) (size : Nat) : Nat :=
  match offset with
  | .finite distance => min (distance.ceil.toNat) size
  | .infinite negative => if negative then 0 else size
  | .notANumber => 0

/-- The position so many characters behind a start, walking over the text that begins there. A line feed
begins a new line. -/
def shift (start : Position) (text : Text) (offset : Number) : Except Fault Position :=
  if start.isPositioned then
    let walked := text.codes.take (walkLength offset text.length)
    let place := walked.foldl nextPlace (start.line, start.characterInLine)
    create place.1 place.2 (start.absoluteCharacter + offset)
  else .ok unpositioned

/-- The position of the last character of a text that begins at a start. -/
def endOf (start : Position) (text : Text) : Except Fault Position :=
  start.shift text (.ofNat (text.length - 1))

end Position

end TokenGrammar
