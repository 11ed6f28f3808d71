import TokenGrammar.Engine

namespace TokenGrammar

/-- A number among plain values; one that is not finite is shown as its text. -/
def Number.shown : Number → Value
  | .finite value => .number (.finite value)
  | number => .text number.text

/-- The number that a value shows, which is not a number for all but numbers and their texts. -/
def Value.shownNumber : Value → Number
  | .number amount => amount
  | .text content =>
    ([Number.infinity, .infinite true].find? fun one => one.text = content.toString).getD .notANumber
  | _ => .notANumber

def Value.ofCount (count : Nat) : Value := .number (.ofNat count)

/-- A fault shows its name, the contract it breaks, and where it arose. -/
def Fault.properties (fault : Fault) : Fields :=
  let contract : Fields := match fault.contract? with
    | some contract => [("contractType", Value.text contract.name)]
    | none => []
  let place : Fields := match fault with
    | .endOfStream index _ => [("index", Value.ofCount index)]
    | .unreadable failure =>
      [("pos", Value.ofCount failure.absoluteCharacter), ("line", Value.ofCount failure.lineNumber),
        ("col", Value.ofCount failure.columnNumber)]
    | _ => []
  let name : Fields := [("error", .text fault.name)]
  name ++ contract ++ place

/-- A pattern shows its text and its flags. -/
def Pattern.shown (expression : Pattern) : Value :=
  .record [("source", .text expression.text), ("flags", .text expression.flags.text)]

/-- Types are shown by their serial numbers. -/
def TokenType.allShown (types : List TokenType) : Value :=
  .list (types.map fun type => .ofCount type.serial)

namespace Definition

/-- The name of a kind of literal definition. -/
def LiteralKind.name : LiteralKind → String
  | .char => "char"
  | .string => "string"
  | .escaped => "escaped"

/-- What a definition shows besides its description: its kind, its text and whether case is ignored. -/
def properties (definition : Definition) : Fields :=
  let type : Fields := match definition.literalKind? with
    | some kind => [("type", Value.text kind.name)]
    | none => []
  let token : Fields := match definition.token? with
    | some content => [("token", Value.text content)]
    | none => []
  let ignoreCase : Fields := match definition with
    | .string _ flag => [("ignoreCase", Value.boolean flag)]
    | _ => []
  type ++ token ++ ignoreCase

end Definition

def Position.shown (position : Position) : Value :=
  .list [.number position.line, .number position.characterInLine, .number position.absoluteCharacter]

/-- A position under a key, where there is one. -/
def Position.field (key : String) (position : Position) : Fields :=
  if position.isSame .unpositioned then [] else [(key, position.shown)]

namespace Token

/-- A token in short: the text of a simple token, and the form and text of any other one. -/
def brief : Token → Value
  | .simple leaf => .text leaf.value
  | token => .list [.text token.kind.name, .text token.value]

/-- What all tokens show, and what only some of them show. -/
def shownWith (token : Token) (own : Fields) : Value :=
  let types : Fields := if token.types.isEmpty then [] else [("types", TokenType.allShown token.types)]
  let common : Fields := [("kind", .text token.kind.name), ("value", .text token.value),
    ("def", .text token.definition.description)]
  let place := Position.field "pos" token.position ++ Position.field "end" token.endPosition
  .record (common ++ place ++ types ++ own)

mutual

def shown : Token → Value
  | .simple leaf => shownWith (.simple leaf) []
  | .escaped leaf character =>
    shownWith (.escaped leaf character) [("escaped", .text character)]
  | .group definition types members =>
    shownWith (.group definition types members) [("tokens", .list (allShown members))]
  | .annotated types token metadata =>
    shownWith (.annotated types token metadata) [("meta", .record metadata), ("token", token.shown)]
  | .indexed types token ordinal =>
    shownWith (.indexed types token ordinal) [("ordinal", .number ordinal), ("token", token.shown)]
  | .shadow types token => shownWith (.shadow types token) [("token", token.shown)]

def allShown : List Token → List Value
  | [] => []
  | token :: rest => token.shown :: allShown rest

end

/-- A list of tokens, each in short or in full. -/
def listShown (inShort : Bool) (tokens : List Token) : Value :=
  .list (tokens.map fun token => if inShort then token.brief else token.shown)

end Token

/-- A rule to a depth: at depth zero only its kind, and otherwise its properties, with the rules inside of it
shown to the next smaller depth. -/
def Rule.shown (store : RuleStore) : Nat → Rule → Value
  | 0, rule => .text (rule.kind store)
  | depth + 1, rule =>
    let property : Rule.Property → Value
      | .text content => .text content
      | .flag flag => .boolean flag
      | .number amount => amount.shown
      | .pattern expression => expression.shown
      | .types types => TokenType.allShown types
      | .absent => .null
      | .rule inner => Rule.shown store depth inner
      | .rules inner => .list (inner.map (Rule.shown store depth))
    .record (("kind", .text (rule.kind store)) ::
      (rule.properties store).map fun (key, shown) => (.ofString key, property shown))

/-- A match shows its ends, the texts of its tokens, whether it takes nothing, and its rule without what is
inside of it. -/
def Match.shown (store : RuleStore) (found : Match) : Value :=
  .record [("span", .list [.number found.start, .number found.finish]),
    ("values", .list (found.tokens.map fun token => .text token.value)),
    ("zero", .boolean found.isZeroWidth), ("by", found.rule.shown store 1)]

/-- An action shows its kind and what it was made with. -/
def Action.shown (action : Action) : Value :=
  let own : Fields := match action with
    | .split separator => [("separator", separator.shown)]
    | .grouping mode none => [("mode", .text mode.name)]
    | .grouping mode (some definition) =>
      [("mode", .text mode.name), ("definition", .text definition.description)]
    | .wrap opening closing => [("prefix", opening.shown), ("suffix", closing.shown)]
    | .annotate metadata => [("metadata", .record metadata)]
    | .index start => [("start", .number start)]
    | _ => []
  .record (("kind", .text action.kind) :: own)

/-- A rule binding shows its rule to a depth, and its action. -/
def RuleBinding.properties (store : RuleStore) (depth : Nat) (binding : RuleBinding) : Fields :=
  [("rule", binding.rule.shown store depth), ("action", binding.action.shown)]

end TokenGrammar
