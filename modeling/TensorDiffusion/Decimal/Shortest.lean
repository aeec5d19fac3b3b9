/-!
# Shortest decimals

The decimal with the fewest digits among those that round to a given binary number, and the
closest of these.  The number is placed among the multiples of a small power of ten, and the
coarsest grid of them that has one that rounds to it is looked for.  All comparisons are between
natural numbers; nothing is rounded on the way but down to such a multiple.
-/

namespace TensorDiffusion.Decimal

/-- The non-negative number `mantissa * 2 ^ exponent`. -/
structure Dyadic where
  mantissa : Nat
  exponent : Int
  /-- The number below is half as far away as the number above. -/
  narrowBelow : Bool
  deriving Repr, DecidableEq

/-- What the bits of a binary number stand for. -/
inductive Number where
  | nan
  | infinite (negative : Bool)
  | finite (negative : Bool) (value : Dyadic)
  deriving Repr, DecidableEq

/-- Reads the bits of a number with the given widths of mantissa and exponent. -/
@[inline]
def Number.ofBits (mantissaBits exponentBits bits : Nat) : Number :=
  let fraction := bits % Nat.pow 2 mantissaBits
  let e := bits / Nat.pow 2 mantissaBits % Nat.pow 2 exponentBits
  let negative := bits / Nat.pow 2 (mantissaBits + exponentBits) % 2 = 1
  let least : Int := 2 - (Nat.pow 2 (exponentBits - 1) : Nat) - (mantissaBits : Nat)
  if e = Nat.pow 2 exponentBits - 1 then
    if fraction = 0 then .infinite negative else .nan
  else if e = 0 then .finite negative ⟨fraction, least, false⟩
  else .finite negative
    ⟨Nat.pow 2 mantissaBits + fraction, least + (e : Int) - 1, fraction = 0 && 1 < e⟩

/-- The number `digits * 10 ^ exponent`. -/
structure Digits where
  digits : Nat
  exponent : Int
  deriving Repr, DecidableEq

/-- A dyadic number and a power of ten with a common denominator: a quarter of the number's unit
is `quarter` and the power of ten is `power`. -/
structure Scaled where
  quarter : Nat
  power : Nat

/-- Brings a number and `10 ^ k` to a common denominator. -/
def Dyadic.scaled (x : Dyadic) (k : Int) : Scaled where
  quarter := Nat.pow 2 (x.exponent - 2).toNat * Nat.pow 10 (-k).toNat
  power := Nat.pow 10 k.toNat * Nat.pow 2 (2 - x.exponent).toNat

/-- A positive number among the multiples of `10 ^ exponent`. -/
structure Window where
  exponent : Int
  /-- Twice the number, rounded down. -/
  twice : Nat
  /-- The first and the last multiple that round to the number. -/
  first : Nat
  last : Nat

/-- Places `x` among the multiples of `10 ^ k`.  A multiple rounds to `x` if it lies between the
midpoints to the two neighbours; it may equal one if the mantissa is even. -/
def Dyadic.window (x : Dyadic) (k : Int) : Window :=
  let s := x.scaled k
  let low := (4 * x.mantissa - if x.narrowBelow then 1 else 2) * s.quarter
  let high := (4 * x.mantissa + 2) * s.quarter
  let even := x.mantissa % 2 = 0
  { exponent := k
    twice := 8 * x.mantissa * s.quarter / s.power
    first := if even then (low + s.power - 1) / s.power else low / s.power + 1
    last := if even then high / s.power else (high - 1) / s.power }

/-- The multiple of `p * 10 ^ exponent` that rounds to the number and is closest to it, if there is
one, in units of `10 ^ exponent`.  Of two that are equally close it is the larger. -/
def Window.onGrid? (w : Window) (p : Nat) : Option Nat :=
  let c := w.twice / (2 * p) * p
  let readsBack (n : Nat) : Bool := w.first ≤ n && n ≤ w.last
  match readsBack c, readsBack (c + p) with
  | true,  true  => some (if w.twice < 2 * c + p then c else c + p)
  | true,  false => some c
  | false, true  => some (c + p)
  | false, false => none

/-- The closest multiple on the coarsest grid that has one that rounds to the number.  The grids
are `p`, `p / 10`, and so on, `fuel` in all. -/
def Window.coarsest? (w : Window) : Nat → Nat → Option Nat
  | 0,        _ => none
  | fuel + 1, p =>
    match w.onGrid? p with
    | some n => some n
    | none   => w.coarsest? fuel (p / 10)

/-- The least `k` with `x < 10 ^ k`, for a positive `x`.  With `x` between `2 ^ b` and `2 ^ (b + 1)`
it is one or two more than `b * log₁₀ 2`, rounded down. -/
def Dyadic.scale (x : Dyadic) : Int :=
  let k := ((x.mantissa.log2 : Int) + x.exponent) * 30103 / 100000 + 1
  let s := x.scaled k
  if 4 * x.mantissa * s.quarter < s.power then k else k + 1

/-- Moves the factors of ten among the last `fuel` digits into the exponent. -/
def Digits.strip : Nat → Digits → Digits
  | 0,        d => d
  | fuel + 1, d =>
    if d.digits % 10 = 0 then strip fuel ⟨d.digits / 10, d.exponent + 1⟩ else d

/-- The number itself, as a decimal. -/
def Dyadic.exact (x : Dyadic) : Digits :=
  ⟨x.mantissa * Nat.pow 2 x.exponent.toNat * Nat.pow 5 (-x.exponent).toNat, min x.exponent 0⟩

/-- The shortest decimal that rounds to a positive number.  Seventeen digits are enough for every
binary format at hand. -/
def Dyadic.shortest (x : Dyadic) : Digits :=
  let w := x.window (x.scale - 17)
  match w.coarsest? 17 10000000000000000 with
  | some n => Digits.strip 17 ⟨n, w.exponent⟩
  | none   => x.exact

end TensorDiffusion.Decimal
