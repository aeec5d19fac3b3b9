import TensorDiffusion.Decimal.Shortest

/-!
# Decimal texts

How numbers are written, and how decimals are read.  A number is written with its shortest
decimal; a `Layout` says where positional notation ends and how the values without digits are
spelled.
-/

namespace TensorDiffusion.Decimal

/-- Scalars that are binary numbers. -/
class Binary (α : Type) where
  number : α → Number
  /-- How many digits of a decimal are looked at when it is read: as many as the midpoint between
  two neighbouring numbers can have. -/
  readDigits : Nat
  /-- The number nearest to `digits * 10 ^ exponent`, for an exponent of at most some hundreds. -/
  nearest : Nat → Int → α
  negate : α → α

/-- The number `digits * 10 ^ exponent`, by the built-in reader of scientific notation, whose
exponent has its sign apart. -/
def scientific {α : Type} [OfScientific α] (digits : Nat) (exponent : Int) : α :=
  OfScientific.ofScientific digits (exponent < 0) exponent.natAbs

instance : Binary Float where
  number x := Number.ofBits 52 11 x.toBits.toNat
  readDigits := 768
  nearest := scientific
  negate := Float.neg

instance : Binary Float32 where
  number x := Number.ofBits 23 8 x.toBits.toNat
  readDigits := 113
  nearest := scientific
  negate := Float32.neg

/-- A one in place of the last `n` digits of a decimal, zeros included, so that what is cut off
always counts as something. -/
def Digits.cut (n : Nat) (d : Digits) : Digits :=
  if n = 0 then d
  else ⟨10 * (d.digits / Nat.pow 10 n) + 1, d.exponent + (n : Int) - 1⟩

/-- The number that a decimal is read as: the nearest one, by the digits that are looked at.
Decimals beyond `10 ^ ± 400` are zero or infinite in every binary format at hand, so that the
exponent need not be raised to. -/
def Digits.nearest {α : Type} [Binary α] (decimal : Digits) : α :=
  let len := (Nat.repr decimal.digits).length
  let d := decimal.cut (len - Binary.readDigits α)
  let magnitude := len + decimal.exponent
  if d.digits = 0 ∨ magnitude < -400 then Binary.nearest 0 0
  else if 400 < magnitude then Binary.nearest 1 400
  else Binary.nearest d.digits d.exponent

/-- How numbers are written. -/
structure Layout where
  /-- The least exponent of a leading digit that is written positionally. -/
  plainFrom : Int
  /-- The exponents of a leading digit from here on are not written positionally. -/
  plainBelow : Int
  nan : String
  infinity : String

namespace Layout

/-- A run of `n` zeros. -/
def zeros (n : Nat) : String :=
  String.ofList (List.replicate n '0')

/-- The digits, at least one, with the point after the first `k`, which are not all of them. -/
def pointed (ds : List Char) (k : Nat) : String :=
  String.ofList (ds.take k) ++ "." ++ String.ofList (ds.drop k)

/-- Writes a positive decimal. -/
def writeDigits (layout : Layout) (d : Digits) : String :=
  let ds := (Nat.repr d.digits).toList
  let e := d.exponent + (ds.length : Int) - 1
  if layout.plainFrom ≤ e ∧ e < layout.plainBelow then
    if e < 0 then "0." ++ zeros (-e - 1).toNat ++ String.ofList ds
    else if ds.length ≤ e.toNat + 1 then
      String.ofList ds ++ zeros (e.toNat + 1 - ds.length) ++ ".0"
    else pointed ds (e.toNat + 1)
  else
    (if ds.length = 1 then String.ofList ds else pointed ds 1) ++ "e" ++ toString e

/-- Writes a number.  A zero keeps its sign and has one decimal. -/
def writeNumber (layout : Layout) : Number → String
  | .nan => layout.nan
  | .infinite negative => (if negative then "-" else "") ++ layout.infinity
  | .finite negative x =>
    (if negative then "-" else "")
      ++ (if x.mantissa = 0 then "0.0" else layout.writeDigits x.shortest)

/-- Writes a scalar. -/
def write {α : Type} [Binary α] (layout : Layout) (x : α) : String :=
  layout.writeNumber (Binary.number x)

end Layout

/-- Numbers in descriptions: positional from `0.0001` up to below `1e16`. -/
def description : Layout where
  plainFrom := -4
  plainBelow := 16
  nan := "NaN"
  infinity := "inf"

/-- Numbers in data texts: positional from `0.00001` up to below `1e16`. -/
def data : Layout where
  plainFrom := -5
  plainBelow := 16
  nan := "NaN"
  infinity := "Infinity"

end TensorDiffusion.Decimal
