import TensorDiffusion.Buffer
import TensorDiffusion.Quadrature.Interval

/-!
# Tensor rules

A tensor rule uses one interval rule on every axis of `[-1, 1]^dim`.  Its weights are kept
flattened with the x index fastest: the point with indices `qx`, `qy`, `qz` has the weight at
`qx + n * (qy + n * qz)`.
-/

namespace TensorDiffusion

/-- A quadrature rule on `[-1, 1]^dim` with the same points on every axis. -/
structure TensorRule (α : Type) where
  dim : Nat
  points1d : Array α
  weights1d : Array α
  weights : Array α

namespace TensorRule

variable {α : Type}

/-- The number of points per axis. -/
def numPoints1d (rule : TensorRule α) : Nat :=
  rule.points1d.size

/-- The number of points. -/
def numPoints (rule : TensorRule α) : Nat :=
  rule.weights.size

/-- The weight of the tensor point at a flat index, a product over the axes. -/
def weightAt [Mul α] (dim : Nat) (weights1d : Array α) (k : Nat) : Except Fault α := do
  let n := weights1d.size
  let w ← slot weights1d (k % n)
  if dim < 2 then
    return w
  let w := w * (← slot weights1d (k / n % n))
  if dim < 3 then
    return w
  return w * (← slot weights1d (k / (n * n)))

/-- The tensor rule of an interval rule given by its points and weights. -/
def ofInterval [Mul α] [Stored α] (dim : Nat) (points1d weights1d : Array α) :
    Except Fault (TensorRule α) := do
  require (1 ≤ dim ∧ dim ≤ 3) .ruleDimension
  require (points1d.size = weights1d.size) .unpairedWeights
  let count ← Size.pow weights1d.size dim
  Size.reserve (Stored.bytes α) count
  let weights ← tabulate count (weightAt dim weights1d)
  return ⟨dim, points1d, weights1d, weights⟩

/-- A list of double-precision numbers, converted. -/
def convert [OfDouble α] (xs : List Float) : Array α :=
  (xs.map OfDouble.ofDouble).toArray

/-- The tensor Gauss rule with `n` points per axis.  The flattened weights are multiplied in
double precision and converted afterwards. -/
def gauss [OfDouble α] (dim n : Nat) : Except Fault (TensorRule α) := do
  require (0 < n) .noPoints
  let rule ← Rule.gauss RootSearch.double n
  let weights ← match dim with
    | 1 => pure rule.weights
    | 2 => pure (← rule.onSquare).weights
    | 3 => pure (← rule.onCube).weights
    | _ => violate (.gaussDimension dim)
  return ⟨dim, convert rule.abscissas, convert rule.weights, convert weights⟩

/-- The tensor Gauss-Lobatto rule with `n` points per axis. -/
def requestLobatto [Mul α] [Stored α] [OfDouble α] (dim n : Nat) :
    Except Fault (TensorRule α) := do
  let rule ← Rule.requestLobatto RootSearch.double n
  ofInterval dim (convert rule.abscissas) (convert rule.weights)

/-- The points per axis that integrate the diffusion form of elements of the given order.  The
integrand has degree `2 * order + dim - 1`, which allows for Jacobians that are not constant. -/
def diffusionPoints1d (dim order : Nat) : Except Fault Nat := do
  let degree ← Size.sub (← Size.add (← Size.mul 2 order) dim) 1
  return degree / 2 + 1

/-- The default rule for the diffusion form of elements of the given order. -/
def forDiffusion [OfDouble α] (dim order : Nat) : Except Fault (TensorRule α) := do
  gauss dim (← diffusionPoints1d dim order)

end TensorRule

end TensorDiffusion
