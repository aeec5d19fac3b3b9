import TensorDiffusion.Quadrature.Legendre
import TensorDiffusion.Quadrature.Rule
import TensorDiffusion.Size

/-!
# Rules on the interval

The Gauss and Gauss-Lobatto rules on `[-1, 1]`.  Their interior points are roots that Newton's
method finds from cosine guesses; what Newton's method needs besides arithmetic is in a
`RootSearch`.  Points ascend.
-/

namespace TensorDiffusion

/-- How roots are searched for: the constants of the first guess, and when to stop. -/
structure RootSearch (α : Type) where
  pi : α
  cos : α → α
  /-- A correction after which the search stops. -/
  isSmall : α → Bool
  /-- The most corrections made. -/
  maxSteps : Nat := 100

/-- The search in double precision: corrections of at most `1e-15` are small. -/
def RootSearch.double : RootSearch Float where
  pi := 3.14159265358979323846
  cos := Float.cos
  isSmall dx := dx.abs ≤ 1e-15

namespace Rule

variable {α : Type} [NatCast α] [Zero α] [One α] [Add α] [Sub α] [Mul α] [Div α] [Neg α]

/-- Adds corrections to `x` until one is small, at most `fuel` of them. -/
def newton (isSmall : α → Bool) (correction : α → α) : Nat → α → α
  | 0,        x => x
  | fuel + 1, x =>
    let dx := correction x
    if isSmall dx then x + dx else newton isSmall correction fuel (x + dx)

/-- The guess for the `i`-th largest root of the Legendre polynomial of degree `n`. -/
def gaussGuess (search : RootSearch α) (n i : Nat) : α :=
  search.cos (search.pi * ((i : α) + ((3 : Nat) : α) / ((4 : Nat) : α)) / ((n : α) + half))

/-- The `i`-th largest root of the Legendre polynomial of degree `n`. -/
def gaussRoot (search : RootSearch α) (n i : Nat) : α :=
  newton search.isSmall
    (fun x => let p := Legendre.evaluate n x; -p.value / p.derivative)
    search.maxSteps (gaussGuess search n i)

/-- The weight of a root `x` of the Legendre polynomial of degree `n`. -/
def gaussWeight (n : Nat) (x : α) : α :=
  let slope := (Legendre.evaluate n x).derivative
  ((2 : Nat) : α) / ((1 - x * x) * slope * slope)

/-- The Gauss rule with `n` points, exact to degree `2n - 1`.  The larger half of the roots is
computed, the others are their negatives. -/
def requestGauss [Stored α] (search : RootSearch α) (n : Nat) : Except Fault (Rule α 1) := do
  insist (n ≠ 0) .noRule
  let m := (← Size.add n 1) / 2
  Size.reserve (Stored.bytes α) n
  let roots := (List.range m).map (gaussRoot search n)
  let weights := roots.map (gaussWeight n)
  let points := roots ++ ((roots.take (n - m)).reverse.map fun x => -x)
  let weights := weights ++ (weights.take (n - m)).reverse
  return ⟨weights.reverse, points.reverse.map fun x => #v[x]⟩

/-- The guess for the `i`-th interior point of the Lobatto rule of degree `degree`. -/
def lobattoGuess (search : RootSearch α) (degree i : Nat) : α :=
  -(search.cos (search.pi * (i : α) / (degree : α)))

/-- The `i`-th smallest root of the derivative of the Legendre polynomial of the given degree. -/
def lobattoRoot (search : RootSearch α) (degree i : Nat) : α :=
  newton search.isSmall
    (fun x => let p := Legendre.evaluate degree x; -p.derivative / p.secondDerivative)
    search.maxSteps (lobattoGuess search degree i)

/-- The Gauss-Lobatto rule with `n` points, exact to degree `2n - 3`: the two ends and the roots
of the derivative of the Legendre polynomial of degree `n - 1`. -/
def requestLobatto [Stored α] (search : RootSearch α) (n : Nat) : Except Fault (Rule α 1) := do
  insist (2 ≤ n) .noRule
  let degree := n - 1
  let endWeight : α := ((2 : Nat) : α) / ((degree : α) * ((degree : α) + 1))
  Size.reserve (Stored.bytes α) n
  let roots := (List.range' 1 (degree - 1)).map (lobattoRoot search degree)
  let weights := roots.map fun x =>
    let p := (Legendre.evaluate degree x).value
    endWeight / (p * p)
  return ⟨endWeight :: weights ++ [endWeight], ((-1 :: roots) ++ [1]).map fun x => #v[x]⟩

/-- The Gauss rule where at least one point is a precondition. -/
def gauss [Stored α] (search : RootSearch α) (n : Nat) : Except Fault (Rule α 1) := do
  require (n ≠ 0) .gaussWithoutPoints
  requestGauss search n

/-- The Gauss-Lobatto rule where at least two points are a precondition. -/
def lobatto [Stored α] (search : RootSearch α) (n : Nat) : Except Fault (Rule α 1) := do
  require (2 ≤ n) .lobattoWithoutEndpoints
  requestLobatto search n

end Rule

end TensorDiffusion
