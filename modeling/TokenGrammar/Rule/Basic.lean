import TokenGrammar.Pattern
import TokenGrammar.Token

namespace TokenGrammar

/-- A range of counts with or without an upper end. -/
structure Range where
  least : Nat
  most : Option Nat
  ordered : ∀ limit, most = some limit → least ≤ limit

namespace Range

/-- Whether a count stays below the upper end. -/
def admits (range : Range) (count : Nat) : Bool := range.most.all fun limit => count ≤ limit

def contains (range : Range) (count : Nat) : Bool := range.least ≤ count && range.admits count

def upperEnd (range : Range) : Number :=
  match range.most with
  | some limit => .ofNat limit
  | none => .infinity

end Range

inductive TokenTest where
  | value (text : Text) (ignoreCase : Bool)
  | pattern (pattern : Pattern)
  | length (range : Range)
  | custom (description : Text) (predicate : Token → Bool)
  | type (types : List TokenType)

namespace TokenTest

/-- Whether a token passes a test. All but custom tests look at the token's value or types only. -/
def accepts : TokenTest → Token → Bool
  | .value text ignoreCase, token => token.value.agrees text ignoreCase
  | .pattern expression, token => expression.occursIn token.value
  | .length range, token => range.contains token.value.length
  | .custom _ predicate, token => predicate token
  | .type wanted, token => wanted.all fun type => token.types.any fun actual => actual.isTypeOf type

end TokenTest

/-- The side of a place that a rule looks at. -/
inductive Direction where
  | ahead
  | behind
  deriving DecidableEq

inductive Anchor where
  | startDocument
  | endDocument
  | startLine
  | endLine
  deriving DecidableEq

inductive ReferenceKind where
  | rule
  | tokens
  | dynamic
  deriving DecidableEq

/-- The name of a kind of reference. -/
def ReferenceKind.name : ReferenceKind → String
  | .rule => "rule"
  | .tokens => "tokens"
  | .dynamic => "dynamic"

/-- What a rule mentions: a name that has to be bound to a rule, or an external rule. -/
inductive Mention where
  | name (name : Text)
  | external (number : Nat)
  deriving DecidableEq

namespace Mention

/-- Mentions followed by others, each of them once. -/
def join (first second : List Mention) : List Mention := first ++ second.filter fun other => !first.contains other

/-- The mentions of several rules, those of the last rule first. -/
def joinAll (mentions : List (List Mention)) : List Mention :=
  mentions.foldl (fun later earlier => join earlier later) []

end Mention

/-- The rules. A negated optional rule stands for the optional negation of its inner rule. A `boundary` takes
any tokens up to its end, a `filledBoundary` only what its body takes. Every rule keeps what the rules inside
of it mention, so that rules can share parts without being searched again and again. -/
inductive Rule where
  | always
  | never
  | matcher (test : TokenTest) (negated : Bool)
  | sequence (rules : List Rule)
  | anyOf (alternatives : List Rule)
  | allOf (rules : List Rule)
  | optional (rule : Rule) (negated : Bool)
  | repeated (rule : Rule) (range : Range) (negated : Bool)
  | lookaround (direction : Direction) (rule : Rule) (negative : Bool)
  | anchor (anchor : Anchor) (negated : Bool)
  | boundary (opening closing : Rule)
  | filledBoundary (opening body closing : Rule)
  | named (name : Text)
  | selfReferring (cell : Nat)
  | lazy (cell : Nat)
  | group (rule : Rule)
  | capture (key : Text) (rule : Rule)
  | reference (key : Text) (kind : ReferenceKind)
  | not (rule : Rule)
  | external (number : Nat)
with
  /-- The mentions of a rule and of what it shows, each once and in the order of a walk that visits what is shown
  last first. -/
  @[computed_field] mentions : Rule → List Mention
    | .sequence rules => Mention.joinAll (rules.map mentions)
    | .anyOf alternatives => Mention.joinAll (alternatives.map mentions)
    | .allOf rules => Mention.joinAll (rules.map mentions)
    | .optional rule _ => rule.mentions
    | .repeated rule _ _ => rule.mentions
    | .lookaround _ rule _ => rule.mentions
    | .boundary opening closing => Mention.join closing.mentions opening.mentions
    | .filledBoundary opening body closing =>
      Mention.join closing.mentions (Mention.join body.mentions opening.mentions)
    | .group rule => rule.mentions
    | .capture _ rule => rule.mentions
    | .not rule => rule.mentions
    | .named name => [.name name]
    | .reference key kind => if kind = .rule then [.name key] else []
    | .external number => [.external number]
    | .always => []
    | .never => []
    | .matcher .. => []
    | .anchor .. => []
    | .selfReferring _ => []
    | .lazy _ => []

namespace Rule

instance : Inhabited Rule := ⟨.never⟩

/-- The negation of a rule: the opposite polarity where the rule has one, and otherwise the assertion that
the rule does not match. -/
def negate : Rule → Rule
  | .always => .never
  | .never => .always
  | .matcher test negated => .matcher test !negated
  | .optional rule negated => .optional rule !negated
  | .repeated rule range negated => .repeated rule range !negated
  | .lookaround direction rule negative => .lookaround direction rule !negative
  | .anchor place negated => .anchor place !negated
  | .not rule => rule
  | rule => .not rule

/-- The assertion that a rule does not match; of an assertion of this form it is the inner rule. -/
def complement : Rule → Rule
  | .not rule => rule
  | rule => .not rule

/-- The rule that an optional rule tries. -/
def attempted (rule : Rule) (negated : Bool) : Rule := if negated then rule.negate else rule

/-- Whether a rule is an ordered choice. -/
def isAnyOf : Rule → Bool
  | .anyOf _ => true
  | _ => false

def isGroup : Rule → Bool
  | .group _ => true
  | _ => false

/-- Whether a rule asserts that another one does not match. -/
def isNot : Rule → Bool
  | .not _ => true
  | _ => false

end Rule

end TokenGrammar
