import TokenGrammar.Text.Basic

namespace TokenGrammar.Text

/-- The hexadecimal digit of a value below sixteen. -/
def hexDigit (value : Nat) : Char :=
  if value < 10 then Char.ofNat ('0'.toNat + value) else Char.ofNat ('a'.toNat + (value - 10))

/-- The escape of a code by its four hexadecimal digits. -/
def escapeCode (code : Nat) : List Char :=
  '\\' :: 'u' :: [code / 0x1000, code / 0x100 % 16, code / 16 % 16, code % 16].map hexDigit

/-- The form of one character between the quotes. -/
def quoteCharacter (character : Char) : List Char :=
  if character = '"' then ['\\', '"']
  else if character = '\\' then ['\\', '\\']
  else if character = '\x08' then ['\\', 'b']
  else if character = '\x0c' then ['\\', 'f']
  else if character = '\n' then ['\\', 'n']
  else if character = '\r' then ['\\', 'r']
  else if character = '\t' then ['\\', 't']
  else if character.toNat < 0x20 then escapeCode character.toNat
  else [character]

/-- The form of one code between the quotes. -/
def quoteCode (code : Nat) : List Char :=
  if isPairUnit code then escapeCode code else quoteCharacter (Char.ofNat code)

def quote (text : Text) : String := "\"" ++ String.ofList (text.codes.flatMap quoteCode) ++ "\""

end TokenGrammar.Text
