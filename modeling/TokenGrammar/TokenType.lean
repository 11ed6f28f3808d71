import TokenGrammar.Fault

namespace TokenGrammar

/-- A type stands by itself or refines another type. Types that are made apart are different though they bear the same name,
so each carries the serial number of its making. -/
inductive TokenType where
  | root (serial : Nat) (name : Text)
  | refining (serial : Nat) (name : Text) (superType : TokenType)
  deriving DecidableEq

namespace TokenType

/-- The number under which a type was made. -/
def serial : TokenType → Nat
  | .root serial _ => serial
  | .refining serial _ _ => serial

def name : TokenType → Text
  | .root _ name => name
  | .refining _ name _ => name

def superType? : TokenType → Option TokenType
  | .root .. => none
  | .refining _ _ superType => some superType

/-- Whether a type is the given one or refines it, directly or through others. -/
def isTypeOf (type ancestor : TokenType) : Bool :=
  type == ancestor ||
    match type with
    | .root .. => false
    | .refining _ _ superType => superType.isTypeOf ancestor

/-- The types from the root down to a type. -/
def hierarchy : TokenType → List TokenType
  | .root serial name => [.root serial name]
  | .refining serial name superType => superType.hierarchy ++ [.refining serial name superType]

/-- The names from the root down to a type. -/
def path (type : TokenType) : Text := ⟨(Text.ofString "/").units.intercalate (type.hierarchy.map fun above => above.name.units)⟩

end TokenType

/-- The types made so far; a type's serial number is its place among them. -/
structure TypeRegistry where
  types : Array TokenType := #[]

namespace TypeRegistry

def create (registry : TypeRegistry) (name : Text) (superType : Option TokenType) :
    Except Fault (TokenType × TypeRegistry) := do
  check (name ≠ "") .emptyTypeName
  let serial := registry.types.size
  let type := match superType with
    | none => TokenType.root serial name
    | some superType => .refining serial name superType
  return (type, ⟨registry.types.push type⟩)

end TypeRegistry

end TokenGrammar
