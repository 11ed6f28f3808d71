import TokenGrammar.Rule.Store

namespace TokenGrammar

/-- Grouping takes the matched tokens as they are, or the leaves of all of them. -/
inductive GroupingMode where
  | matched
  | all
  deriving DecidableEq

def GroupingMode.name : GroupingMode → String
  | .matched => "matched"
  | .all => "all"

/-- The tokens that replace a match, and those that were handed out. -/
structure Edit where
  tokens : List Token
  extracted : List Token := []

/-- The actions. A transformation is given the stored rules, the captures and the match. -/
inductive Action where
  | identity
  | transform (transformer : RuleStore → Captures → Match → Except Fault (List Token))
  | convert (converter : Token → Except Fault Token)
  | filter (accepts : Token → Bool)
  | skip (accepts : Token → Bool)
  | extract (accepts : Token → Bool)
  | grouping (mode : GroupingMode) (definition : Option Definition)
  | wrap (opening closing : Token)
  | split (separator : Pattern)
  | annotate (metadata : Fields)
  | classify (classifier : Token → List TokenType)
  | index (start : Number)

namespace Action

def kind : Action → Text
  | .identity => "identity"
  | .transform _ => "transform"
  | .convert _ => "convert"
  | .filter _ => "filter"
  | .skip _ => "skip"
  | .extract _ => "extract"
  | .grouping .. => "grouping"
  | .wrap .. => "wrap"
  | .split _ => "split"
  | .annotate _ => "annotate"
  | .classify _ => "classify"
  | .index _ => "index"

/-- Whether an action merges tokens into a group. -/
def isGrouping : Action → Bool
  | .grouping .. => true
  | _ => false

/-- An action that splits tokens at each match of a separator. -/
def ofSeparator (data : Pattern.CharacterData) (separator : PatternSource) : Except Fault Action :=
  if separator.source.isEmpty then .error .emptySeparator
  else
    match Pattern.ofSource data separator.source separator.flags.forSplit with
    | .ok expression => .ok (.split expression)
    | .error problem => .error (.invalidSeparator separator.source problem)

def ofIndexStart (start : Number) : Except Fault Action := do
  check start.toNat?.isSome (.badIndexStart start)
  return .index start

/-- The stretches of codes between separators from a code on; empty separators do not separate and empty
stretches are dropped. Each stretch comes with the number of codes before it. -/
def stretches (size : Nat) : Nat → List (Nat × Nat) → List (Nat × Nat)
  | last, [] => if last < size then [(last, size)] else []
  | last, (first, finish) :: rest =>
    if first = finish then stretches size last rest
    else (if last < first then [(last, first)] else []) ++ stretches size finish rest

/-- A part of a token: its text and the number of characters before it. -/
structure Part where
  text : Text
  offset : Nat
  deriving DecidableEq

/-- The parts of a text between separators. -/
def parts (separator : Pattern) (content : Text) : List Part :=
  let subject := separator.subjectOf content
  let codes := subject.codes.toList
  (stretches codes.length 0 (separator.allMatches subject)).map fun (first, last) =>
    { text := .ofCodes ((codes.drop first).take (last - first))
      offset := (Text.ofCodes (codes.take first)).length }

/-- The token of a part; it keeps the definition of the whole token if that accepts the part, and is a word
otherwise. -/
def ofPart (token : Token) (part : Part) : Except Fault Token := do
  let definition := if token.definition.accepts part.text then token.definition else .word
  let position ← token.position.shift token.value (.ofNat part.offset)
  Token.ofWord definition part.text position

/-- The tokens of the parts of a token; a token in one part stays as it is. -/
def splitToken (separator : Pattern) (token : Token) : Except Fault (List Token) :=
  let parts := parts separator token.value
  if parts.map Part.text = [token.value] then .ok [token] else parts.mapM (ofPart token)

def numberFrom (start : Number) : Nat → List Token → Except Fault (List Token)
  | _, [] => .ok []
  | place, token :: rest => do
    let numbered ← token.number (start + .ofNat place)
    return numbered :: (← numberFrom start (place + 1) rest)

/-- Merges tokens into one group; fewer than two stay as they are. -/
def group (mode : GroupingMode) (definition : Option Definition) (tokens : List Token) :
    Except Fault (List Token) := do
  let members := match mode with
    | .matched => tokens
    | .all => tokens.flatMap Token.leaves
  if members.length < 2 then return tokens else return [← Token.ofGroup members definition]

/-- What an action makes of the tokens of a match. -/
def apply (action : Action) (store : RuleStore) (captures : Captures) (found : Match) :
    Except Fault Edit := do
  let tokens := found.tokens
  match action with
  | .identity => return { tokens }
  | .transform transformer => return { tokens := ← transformer store captures found }
  | .convert converter => return { tokens := ← tokens.mapM converter }
  | .filter accepts => return { tokens := tokens.filter accepts }
  | .skip accepts => return { tokens := tokens.filter fun token => !accepts token }
  | .extract accepts =>
    return { tokens := tokens.filter fun token => !accepts token, extracted := tokens.filter accepts }
  | .grouping mode definition => return { tokens := ← group mode definition tokens }
  | .wrap opening closing => return { tokens := opening :: tokens ++ [closing] }
  | .split separator => return { tokens := (← tokens.mapM (splitToken separator)).flatten }
  | .annotate metadata => return { tokens := tokens.map fun token => token.annotate metadata }
  | .classify classifier => return { tokens := tokens.map fun token => token.withTypes (classifier token) }
  | .index start => return { tokens := ← numberFrom start 0 tokens }

end Action

end TokenGrammar
