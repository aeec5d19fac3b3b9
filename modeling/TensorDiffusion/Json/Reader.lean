import TensorDiffusion.Decimal.Layout

/-!
# Reading data texts

A reader takes what it needs from the front of the remaining characters.  It knows the type that it
reads, so a text is judged in reading order: a value of the wrong type is reported where it stands,
even if the text breaks off later.

Records may be written as objects, or as arrays of their leading fields; unknown members are
skipped, and a member that is repeated is refused.  Skipped values are checked for their form only.
-/

namespace TensorDiffusion

/-- Why a text cannot be read. -/
inductive ReadError where
  /-- The text ends too early. -/
  | unfinished
  /-- The text is not JSON, or not in the form that is read. -/
  | malformed
  /-- A value of the wrong type, a missing or repeated field, or an unknown name. -/
  | unexpected
  deriving Repr, DecidableEq

/-- A reader of the remaining characters. -/
abbrev Reader := StateT (List Char) (Except ReadError)

namespace Reader

/-! ### Characters -/

/-- Blanks between tokens. -/
def isBlank (c : Char) : Bool :=
  c = ' ' || c = '\n' || c = '\t' || c = '\r'

/-- The next character, left in place. -/
def peek : Reader (Option Char) :=
  return (← get).head?

/-- Drops the next character. -/
def advance : Reader Unit :=
  modify List.tail

/-- The first character of the next token, left in place. -/
def peekToken : Reader (Option Char) := do
  modify (List.dropWhile isBlank)
  peek

/-- The next character; there must be one. -/
def char : Reader Char := do
  match ← peek with
  | none   => throw .unfinished
  | some c => advance; return c

/-- Takes the rest of a word. -/
def word : List Char → Reader Unit
  | [] => return ()
  | c :: rest => do
    if (← char) = c then word rest else throw .malformed

/-! ### Numbers -/

/-- A number as it is written. -/
inductive Literal where
  /-- A whole number below `2 ^ 64`. -/
  | natural (n : Nat)
  /-- A whole number below zero, not less than `- 2 ^ 63`. -/
  | minus (n : Nat)
  /-- Any other number. -/
  | decimal (negative : Bool) (value : Decimal.Digits)
  deriving Repr, DecidableEq

/-- Takes digits while they last. -/
def digits : Reader (List Char) := do
  let (taken, rest) := (← get).span Char.isDigit
  set rest
  return taken

/-- The value of a list of digits. -/
def digitsValue (ds : List Char) : Nat :=
  ds.foldl (fun n c => 10 * n + (c.toNat - '0'.toNat)) 0

/-- Takes the digits before the point: a zero alone, or digits that do not start with zero. -/
def wholeDigits : Reader (List Char) := do
  let c ← char
  if c = '0' then
    match ← peek with
    | some c => if c.isDigit then throw .malformed else return ['0']
    | none   => return ['0']
  else if c.isDigit then
    return c :: (← digits)
  else throw .malformed

/-- Takes the point and the digits after it, if there is a point. -/
def fraction : Reader (Option (List Char)) := do
  if (← peek) = some '.' then
    advance
    let ds ← digits
    if ds.isEmpty then
      throw (if (← peek).isNone then .unfinished else .malformed)
    return some ds
  else return none

/-- Takes the mark, the sign and the digits of an exponent, if there is one. -/
def exponent : Reader (Option Int) := do
  match ← peek with
  | some c =>
    if c = 'e' ∨ c = 'E' then
      advance
      let sign ← peek
      if sign = some '+' ∨ sign = some '-' then
        advance
      let first ← char
      if ¬ first.isDigit then
        throw .malformed
      let n := digitsValue (first :: (← digits))
      return some (if sign = some '-' then -(n : Int) else n)
    else return none
  | none => return none

/-- The whole number `n` below `2 ^ 64`, rounded to 53 binary digits if it has 64 of them.  A tie
goes to the even neighbour. -/
def roundWhole (n : Nat) : Nat :=
  let q := n / 2048
  let r := n % 2048
  if r < 1024 ∨ (r = 1024 ∧ q % 2 = 0) then 2048 * q else 2048 * (q + 1)

/-- A number without its sign.  A whole number below `- 2 ^ 63` whose absolute value is below
`2 ^ 64` is rounded to double precision first, whatever scalar is asked for.  Zeros at the end of a
fraction are dropped; those at the end of a whole number are digits like others. -/
def unsigned (negative : Bool) : Reader Literal := do
  let whole ← wholeDigits
  let fraction ← fraction
  let exponent ← exponent
  match fraction, exponent with
  | none, none =>
    let n := digitsValue whole
    if negative then
      if 0 < n ∧ n ≤ UInt64.size / 2 then return .minus n
      else if 0 < n ∧ n < UInt64.size then return .decimal true ⟨roundWhole n, 0⟩
      else return .decimal true ⟨n, 0⟩
    else if n < UInt64.size then return .natural n
    else return .decimal false ⟨n, 0⟩
  | _, _ =>
    let fraction := ((fraction.getD []).reverse.dropWhile (· = '0')).reverse
    return .decimal negative
      ⟨digitsValue (whole ++ fraction), exponent.getD 0 - (fraction.length : Int)⟩

/-- A number whose first character is known. -/
def literal (first : Char) : Reader Literal := do
  if first = '-' then
    advance
    unsigned true
  else unsigned false

/-- The sign and the absolute value of a number. -/
def Literal.parts : Literal → Bool × Decimal.Digits
  | .natural n          => (false, ⟨n, 0⟩)
  | .minus n            => (true, ⟨n, 0⟩)
  | .decimal negative d => (negative, d)

/-- The scalar that a number stands for; it must be finite. -/
def Literal.toScalar {α : Type} [Decimal.Binary α] (number : Literal) : Reader α := do
  let x : α := number.parts.2.nearest
  match Decimal.Binary.number x with
  | .finite .. => return if number.parts.1 then Decimal.Binary.negate x else x
  | _          => throw ReadError.malformed

/-! ### Strings -/

/-- The value of a hexadecimal digit. -/
def hexValue? (c : Char) : Option Nat :=
  if c.isDigit then some (c.toNat - '0'.toNat)
  else if 'a' ≤ c ∧ c ≤ 'f' then some (c.toNat - 'a'.toNat + 10)
  else if 'A' ≤ c ∧ c ≤ 'F' then some (c.toNat - 'A'.toNat + 10)
  else none

/-- The length of a text in bytes. -/
def byteLength (cs : List Char) : Nat :=
  cs.foldl (fun n c => n + c.utf8Size) 0

/-- The four hexadecimal digits of an escape.  A text with fewer than four bytes left is unfinished,
whatever they are. -/
def hexEscape : Reader Nat := do
  let cs ← get
  if byteLength (cs.take 4) < 4 then
    throw .unfinished
  match (cs.take 4).mapM hexValue? with
  | some ds => set (cs.drop 4); return ds.foldl (fun n d => 16 * n + d) 0
  | none    => throw .malformed

/-- The character of an escape that starts with `u`.  A character beyond U+FFFF is written as two
escapes, the halves of a pair. -/
def unicodeEscape : Reader Char := do
  let high ← hexEscape
  if 0xDC00 ≤ high ∧ high ≤ 0xDFFF then
    throw .malformed
  if high < 0xD800 ∨ 0xDBFF < high then
    return Char.ofNat high
  if (← char) ≠ '\\' then
    throw .malformed
  if (← char) ≠ 'u' then
    throw .malformed
  let low ← hexEscape
  if low < 0xDC00 ∨ 0xDFFF < low then
    throw .malformed
  return Char.ofNat (0x10000 + (high - 0xD800) * 0x400 + (low - 0xDC00))

/-- The character that a letter after a backslash stands for. -/
def simpleEscape? (c : Char) : Option Char :=
  if c = '"' ∨ c = '\\' ∨ c = '/' then some c
  else if c = 'b' then some '\x08'
  else if c = 'f' then some '\x0c'
  else if c = 'n' then some '\n'
  else if c = 'r' then some '\r'
  else if c = 't' then some '\t'
  else none

/-- The rest of a string after its first quote, with at most `fuel` characters. -/
def stringRest : Nat → Reader (List Char)
  | 0 => throw .unfinished
  | fuel + 1 => do
    let c ← char
    if c = '"' then return []
    else if c = '\\' then
      let e ← char
      let c ←
        if e = 'u' then unicodeEscape
        else match simpleEscape? e with
          | some c => pure c
          | none   => throw .malformed
      return c :: (← stringRest fuel)
    else if c.toNat < 32 then throw .malformed
    else return c :: (← stringRest fuel)

/-- A string whose first quote is next. -/
def string : Reader String := do
  advance
  return String.ofList (← stringRest ((← get).length + 1))

/-! ### Skipping -/

/-- Skips the rest of a string after its first quote.  Escapes are checked for their form. -/
def skipString : Nat → Reader Unit
  | 0 => throw .unfinished
  | fuel + 1 => do
    let c ← char
    if c = '"' then return ()
    else if c = '\\' then
      let e ← char
      if e = 'u' then
        let _ ← hexEscape
      else if (simpleEscape? e).isNone then
        throw .malformed
      skipString fuel
    else if c.toNat < 32 then throw .malformed
    else skipString fuel

/-- Takes one character of a class.  What is missing counts as malformed, also at the end. -/
def oneOf (accept : Char → Bool) : Reader Unit := do
  match ← peek with
  | some c => if accept c then advance else throw .malformed
  | none   => throw .malformed

/-- Skips a number without its sign, of any size. -/
def skipUnsigned : Reader Unit := do
  if (← peek) = some '0' then
    advance
    if ((← peek).map Char.isDigit).getD false then
      throw .malformed
  else
    oneOf Char.isDigit
    let _ ← digits
  if (← peek) = some '.' then
    advance
    oneOf Char.isDigit
    let _ ← digits
  if (← peek) = some 'e' ∨ (← peek) = some 'E' then
    advance
    if (← peek) = some '+' ∨ (← peek) = some '-' then
      advance
    oneOf Char.isDigit
    let _ ← digits

/-- Takes the colon after a key. -/
def colon : Reader Unit := do
  match ← peekToken with
  | some ':' => advance
  | some _   => throw .malformed
  | none     => throw .unfinished

mutual

/-- Skips a value of any type. -/
def skipValue : Nat → Reader Unit
  | 0 => throw .unfinished
  | fuel + 1 => do
    match ← peekToken with
    | none     => throw .unfinished
    | some 'n' => advance; word ['u', 'l', 'l']
    | some 't' => advance; word ['r', 'u', 'e']
    | some 'f' => advance; word ['a', 'l', 's', 'e']
    | some '-' => advance; skipUnsigned
    | some '"' => advance; skipString ((← get).length + 1)
    | some '[' =>
      advance
      if (← peekToken) = some ']' then advance else skipItems fuel
    | some '{' =>
      advance
      if (← peekToken) = some '}' then advance else skipMembers fuel
    | some c   => if c.isDigit then skipUnsigned else throw .malformed

/-- Skips the items of an array, of which there is one at least, and its end. -/
def skipItems : Nat → Reader Unit
  | 0 => throw .unfinished
  | fuel + 1 => do
    skipValue fuel
    match ← peekToken with
    | none     => throw .unfinished
    | some ',' => advance; skipItems fuel
    | some ']' => advance
    | some _   => throw .malformed

/-- Skips the members of an object, of which there is one at least, and its end. -/
def skipMembers : Nat → Reader Unit
  | 0 => throw .unfinished
  | fuel + 1 => do
    match ← peekToken with
    | none     => throw .unfinished
    | some '"' => advance; skipString ((← get).length + 1)
    | some _   => throw .malformed
    colon
    skipValue fuel
    match ← peekToken with
    | none     => throw .unfinished
    | some ',' => advance; skipMembers fuel
    | some '}' => advance
    | some _   => throw .malformed

end

/-- Skips a value of any type. -/
def skip : Reader Unit := do
  skipValue (2 * (← get).length + 2)

/-! ### Typed values -/

/-- Reports the next value as being of the wrong type.  A scalar is read first, and reported as
malformed if it is. -/
def wrongType {β : Type} : Reader β := do
  match ← peekToken with
  | none     => throw .unfinished
  | some 'n' => advance; word ['u', 'l', 'l']; throw .unexpected
  | some 't' => advance; word ['r', 'u', 'e']; throw .unexpected
  | some 'f' => advance; word ['a', 'l', 's', 'e']; throw .unexpected
  | some '"' => let _ ← string; throw .unexpected
  | some '[' => throw .unexpected
  | some '{' => throw .unexpected
  | some c   =>
    if c = '-' ∨ c.isDigit then
      let _ ← (← literal c).toScalar (α := Float)
      throw .unexpected
    else throw .malformed

/-- A number of any kind. -/
def number : Reader Literal := do
  match ← peekToken with
  | none   => throw .unfinished
  | some c => if c = '-' ∨ c.isDigit then literal c else wrongType

/-- A size. -/
def size : Reader Nat := do
  let n ← number
  match n with
  | .natural n  => return n
  | .minus _    => throw .unexpected
  | .decimal .. =>
    let _ ← n.toScalar (α := Float)
    throw .unexpected

/-- A scalar. -/
def scalar {α : Type} [Decimal.Binary α] : Reader α := do
  (← number).toScalar

/-- The next item of a list follows: its end is left in place.  Items are separated by commas. -/
def moreItems (first : Bool) : Reader Bool := do
  match ← peekToken with
  | none => throw .unfinished
  | some c =>
    if c = ']' then return false
    else if first then return true
    else if c = ',' then
      advance
      match ← peekToken with
      | none     => throw .unfinished
      | some ']' => throw .malformed
      | some _   => return true
    else throw .malformed

/-- The end of a list, after its last item. -/
def endItems : Reader Unit := do
  match ← peekToken with
  | none     => throw .unfinished
  | some ']' => advance
  | some _   => throw .malformed

/-- The items of a list after its first bracket, at most `fuel` of them. -/
def items {β : Type} (item : Reader β) : Nat → Bool → Reader (List β)
  | 0,        _     => throw .unfinished
  | fuel + 1, first => do
    if ← moreItems first then
      return (← item) :: (← items item fuel false)
    else return []

/-- A list. -/
def list {β : Type} (item : Reader β) : Reader (List β) := do
  if (← peekToken) = some '[' then
    advance
    let xs ← items item ((← get).length + 1) true
    endItems
    return xs
  else wrongType

/-- The key of a member.  Only a string is a key: anything else is malformed, whatever it is. -/
def key : Reader String := do
  match ← peekToken with
  | none     => throw .unfinished
  | some '"' => string
  | some _   => throw .malformed

/-- One of a few names, written as a string, or as the key of an object whose value is null. -/
def variant {β : Type} (names : List (String × β)) : Reader β := do
  let resolve (name : String) : Reader β :=
    match names.lookup name with
    | some b => pure b
    | none   => throw .unexpected
  match ← peekToken with
  | none     => throw .unfinished
  | some '"' => resolve (← string)
  | some '{' =>
    advance
    let b ← resolve (← key)
    colon
    if (← peekToken) = some 'n' then
      advance
      word ['u', 'l', 'l']
    else wrongType
    match ← peekToken with
    | none     => throw .unfinished
    | some '}' => advance
    | some _   => throw .malformed
    return b
  | some _   => throw .malformed

/-! ### Records -/

/-- A field of a record under construction. -/
structure Field (σ : Type) where
  name : String
  /-- A record without the field is refused. -/
  required : Bool
  /-- Reads the field's value into the record. -/
  read : σ → Reader σ

/-- The leading fields of a record, as the items of an array. -/
def leadingFields {σ : Type} : List (Field σ) → Bool → σ → Reader σ
  | [],              _,     record => return record
  | field :: fields, first, record => do
    if ← moreItems first then
      leadingFields fields false (← field.read record)
    else if (field :: fields).any Field.required then throw .unexpected
    else return record

/-- The next member of an object follows; its key is next.  The end is left in place. -/
def moreMembers (first : Bool) : Reader Bool := do
  match ← peekToken with
  | none => throw .unfinished
  | some c =>
    if c = '}' then return false
    else if first then
      if c = '"' then return true else throw .malformed
    else if c = ',' then
      advance
      match ← peekToken with
      | none     => throw .unfinished
      | some '"' => return true
      | some _   => throw .malformed
    else throw .malformed

/-- The members of a record, at most `fuel` of them, and the end of the object.  The names in
`seen` have been read. -/
def members {σ : Type} (fields : List (Field σ)) :
    Nat → Bool → List String → σ → Reader σ
  | 0,        _,     _,    _      => throw .unfinished
  | fuel + 1, first, seen, record => do
    if ← moreMembers first then
      let key ← string
      match fields.find? fun field => field.name = key with
      | some field =>
        if seen.contains key then
          throw .unexpected
        colon
        members fields fuel false (key :: seen) (← field.read record)
      | none =>
        colon
        skip
        members fields fuel false seen record
    else
      if fields.any fun field => field.required && !seen.contains field.name then
        throw .unexpected
      advance
      return record

/-- A record, starting from one whose fields have their defaults. -/
def record {σ : Type} (fields : List (Field σ)) (default : σ) : Reader σ := do
  match ← peekToken with
  | some '[' =>
    advance
    let r ← leadingFields fields true default
    endItems
    return r
  | some '{' =>
    advance
    members fields ((← get).length + 1) true [] default
  | _ => wrongType

/-- Reads a whole text. -/
def readText {β : Type} (reader : Reader β) (text : String) : Except ReadError β := do
  let (b, rest) ← reader.run text.toList
  if (rest.dropWhile isBlank).isEmpty then return b else throw .malformed

end Reader

end TensorDiffusion
