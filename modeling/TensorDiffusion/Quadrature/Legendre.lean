import TensorDiffusion.Scalar

/-!
# Legendre polynomials

Values of a Legendre polynomial and of its first two derivatives at a point, by the three-term
recurrence `m P_m = (2m - 1) x P_{m-1} - (m - 1) P_{m-2}`.  The derivatives divide by `x² - 1` and
are meant for the open interval.
-/

namespace TensorDiffusion

/-- The Legendre polynomial of a degree and the one below it, at a point. -/
structure Legendre (α : Type) where
  degree : Nat
  x : α
  /-- The value of the polynomial of this degree. -/
  value : α
  /-- The value of the polynomial one degree below. -/
  below : α

namespace Legendre

variable {α : Type} [NatCast α] [Zero α] [One α] [Add α] [Sub α] [Mul α] [Div α]

/-- One step of the recurrence, from degree `m - 1` to degree `m`. -/
def step (x : α) : α × α → Nat → α × α
  | (p, q), m => (((((2 : Nat) : α) * (m : α) - 1) * x * p - ((m : α) - 1) * q) / (m : α), p)

/-- The polynomial of degree `n` at `x`. -/
def evaluate (n : Nat) (x : α) : Legendre α :=
  let (p, q) := (List.range' 1 n).foldl (step x) (1, 0)
  ⟨n, x, p, q⟩

/-- The first derivative, from `(x² - 1) P_n' = n (x P_n - P_{n-1})`. -/
def derivative (l : Legendre α) : α :=
  (l.degree : α) * (l.x * l.value - l.below) / (l.x * l.x - 1)

/-- The second derivative, from `(1 - x²) P_n'' - 2 x P_n' + n (n + 1) P_n = 0`. -/
def secondDerivative (l : Legendre α) : α :=
  (((2 : Nat) : α) * l.x * l.derivative - (l.degree : α) * ((l.degree : α) + 1) * l.value)
    / (1 - l.x * l.x)

end Legendre

end TensorDiffusion
