/-!
# Data texts

JSON values and their compact text: no blanks, members in order, and only those characters escaped
that must be.  A number is kept as its literal.
-/

namespace TensorDiffusion

/-- A JSON value. -/
inductive Json where
  | null
  | bool (b : Bool)
  | number (literal : String)
  | string (s : String)
  | array (items : List Json)
  | object (members : List (String × Json))

namespace Json

/-- A natural number. -/
def nat (n : Nat) : Json :=
  .number (Nat.repr n)

/-- The four-digit hexadecimal code of a character below U+10000. -/
def hexCode (c : Char) : List Char :=
  let digit (k : Nat) : Char := Nat.digitChar (c.toNat / Nat.pow 16 k % 16)
  [digit 3, digit 2, digit 1, digit 0]

/-- A character within quotes. -/
def escape (c : Char) : List Char :=
  if c = '"' then ['\\', '"']
  else if c = '\\' then ['\\', '\\']
  else if c = '\n' then ['\\', 'n']
  else if c = '\r' then ['\\', 'r']
  else if c = '\t' then ['\\', 't']
  else if c = '\x08' then ['\\', 'b']
  else if c = '\x0c' then ['\\', 'f']
  else if c.toNat < 32 then '\\' :: 'u' :: hexCode c
  else [c]

/-- A string in quotes. -/
def quote (s : String) : String :=
  "\"" ++ String.ofList (s.toList.flatMap escape) ++ "\""

mutual

/-- The compact text of a value. -/
def compact : Json → String
  | .null           => "null"
  | .bool b         => if b then "true" else "false"
  | .number literal => literal
  | .string s       => quote s
  | .array items    => "[" ++ ",".intercalate (compactItems items) ++ "]"
  | .object members => "\x7b" ++ ",".intercalate (compactMembers members) ++ "\x7d"

/-- The compact texts of the items of an array. -/
def compactItems : List Json → List String
  | []            => []
  | item :: items => compact item :: compactItems items

/-- The compact texts of the members of an object. -/
def compactMembers : List (String × Json) → List String
  | []                     => []
  | (key, value) :: members => (quote key ++ ":" ++ compact value) :: compactMembers members

end

end Json

end TensorDiffusion
