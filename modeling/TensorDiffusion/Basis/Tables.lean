import TensorDiffusion.Basis.Lagrange
import TensorDiffusion.Quadrature.TensorRule
import TensorDiffusion.View

/-!
# Basis tables

The values `B` and derivatives `G` of the basis functions of one axis at the quadrature points of
one axis, as arrays of shape `(Q1D, D1D)`, and their transposes.  On a tensor-product element these
tables determine the basis at every quadrature point.
-/

namespace TensorDiffusion

/-- The tables of `ndof` basis functions at `nqpt` points. -/
structure Tables (α : Type) where
  ndof : Nat
  nqpt : Nat
  b : Array α
  g : Array α
  bt : Array α
  gt : Array α
  deriving BEq

namespace Tables

variable {α : Type}

/-- The transpose of a table of shape `(nqpt, ndof)`: the logical order of a matrix is the buffer
order of its transpose. -/
def transpose (nqpt ndof : Nat) (table : Array α) : Except Fault (Array α) := do
  return (← (← View.ofBuffer table [nqpt, ndof]).entries).toArray

/-- The tables `B` and `G` with their transposes. -/
def ofTables (ndof nqpt : Nat) (b g : Array α) : Except Fault (Tables α) := do
  let len ← Size.mul nqpt ndof
  require (b.size = len) (.tableShape "B")
  require (g.size = len) (.tableShape "G")
  return ⟨ndof, nqpt, b, g, ← transpose nqpt ndof b, ← transpose nqpt ndof g⟩

variable [Zero α] [One α] [Add α] [Sub α] [Mul α] [Div α]

/-- The tables of a basis at the points of a rule. -/
def ofRule [Stored α] (basis : LagrangeBasis α) (rule : TensorRule α) :
    Except Fault (Tables α) := do
  let ndof := basis.numNodes
  let nqpt := rule.numPoints1d
  let len ← Size.mul nqpt ndof
  Size.reserve (Stored.bytes α) len
  let rows := rule.points1d.map fun x => (basis.evaluate x).toArray
  let entry (k : Nat) : Except Fault (α × α) := do slot (← slot rows (k % nqpt)) (k / nqpt)
  let b ← tabulate len fun k => do return (← entry k).1
  let g ← tabulate len fun k => do return (← entry k).2
  ofTables ndof nqpt b g

end Tables

end TensorDiffusion
