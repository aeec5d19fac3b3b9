import TensorDiffusion.Scalar
import TensorDiffusion.Size

/-!
# Quadrature rules

A rule on `[-1, 1]^d` is a list of weights and a list of points.  A rule on the interval gives one
on the square and on the cube by products, with the first coordinate varying fastest.  A product is
only made where there is room for one entry per tuple of weights.
-/

namespace TensorDiffusion

/-- A quadrature rule in `d` dimensions.  Weight and point at the same position belong together;
what one list has in excess of the other is not used. -/
structure Rule (α : Type) (d : Nat) where
  weights : List α
  points : List (Vector α d)

namespace Rule

variable {α : Type} {d : Nat}

/-- The weights, each with its point. -/
def pairs (rule : Rule α d) : List (α × Vector α d) :=
  rule.weights.zip rule.points

/-- The points of an interval rule, as numbers. -/
def abscissas (rule : Rule α 1) : List α :=
  rule.points.map fun p => p[0]

/-- Approximates the integral of `f`: the weighted values, added from left to right. -/
def integrate [Zero α] [Add α] [Mul α] (rule : Rule α d) (f : Vector α d → α) : α :=
  rule.pairs.foldl (fun sum (w, p) => sum + w * f p) 0

/-- The product of an interval rule with itself, on the square. -/
def square [Mul α] (rule : Rule α 1) : Rule α 2 where
  weights := rule.pairs.flatMap fun (wy, _) => rule.pairs.map fun (wx, _) => wx * wy
  points := rule.pairs.flatMap fun (_, y) => rule.pairs.map fun (_, x) => #v[x[0], y[0]]

/-- The product of an interval rule with itself twice, on the cube. -/
def cube [Mul α] (rule : Rule α 1) : Rule α 3 where
  weights := rule.pairs.flatMap fun (wz, _) => rule.pairs.flatMap fun (wy, _) =>
    rule.pairs.map fun (wx, _) => wx * wy * wz
  points := rule.pairs.flatMap fun (_, z) => rule.pairs.flatMap fun (_, y) =>
    rule.pairs.map fun (_, x) => #v[x[0], y[0], z[0]]

/-- Makes sure of room for the weights and the points of a product of `dim` rules with `n` weights
each. -/
def reserveProduct (α : Type) [Stored α] (dim n : Nat) : Except Fault Unit := do
  let count ← Size.product (List.replicate dim n)
  Size.reserve (Stored.bytes α) count
  Size.reserve (dim * Stored.bytes α) count

/-- The rule on the square, if there is room for it. -/
def onSquare [Mul α] [Stored α] (rule : Rule α 1) : Except Fault (Rule α 2) := do
  reserveProduct α 2 rule.weights.length
  return rule.square

/-- The rule on the cube, if there is room for it. -/
def onCube [Mul α] [Stored α] (rule : Rule α 1) : Except Fault (Rule α 3) := do
  reserveProduct α 3 rule.weights.length
  return rule.cube

end Rule

end TensorDiffusion
