import TensorDiffusion.Diffusion.OperatorData
import TensorDiffusion.Diffusion.Selection
import TensorDiffusion.Operator.Context

/-!
# Sum-factorized operators

An operator that keeps one symmetric form per quadrature point and applies itself by sum
factorization.
-/

namespace TensorDiffusion

/-- A diffusion operator as operator data and basis tables. -/
structure Factorized (α : Type) where
  shape : Shape
  ne : Nat
  tables : Tables α
  /-- The operator data, of layout `(NQ, DIM (DIM + 1) / 2, NE)`. -/
  op : Array α
  execution : Execution

namespace Factorized

variable {α : Type} [Zero α] [Add α] [Mul α] [Stored α]

/-- Runs the setup for a context. -/
def assemble [One α] [Sub α] [Neg α] [Div α] [BEq α] [OfDouble α] [SquareRoot α]
    (context : Context α) : Run Unit (Factorized α) := do
  let data ← ofExcept (PointData.compute context)
  let shape := data.shape
  Run.record (.setup shape data.ne data.samples.isConstant)
  let blank ← ofExcept do filled (← shape.opLen data.ne) (0 : α)
  let jacobians ← ofExcept data.jacobians
  let op ← Run.within blank <| OperatorData.setup context.execution shape.dim shape.sdim shape.q1d
    data.ne context.rule.weights jacobians data.samples.values
  return { shape, ne := data.ne, tables := data.tables, op, execution := context.execution }

/-- Adds the action on `x` to the output. -/
def addMult (operator : Factorized α) (x : Array α) : Run (Array α) Unit := do
  let yLen := (← get).value.size
  ofExcept do
    let len ← operator.shape.vectorLen operator.ne
    checkVector "x" x.size len
    checkVector "y" yLen len
  Action.select operator.execution operator.shape operator.ne operator.tables operator.op x

/-- Adds the diagonal to the output. -/
def addDiagonal (operator : Factorized α) : Run (Array α) Unit := do
  let diagLen := (← get).value.size
  ofExcept do
    checkVector "diagonal" diagLen (← operator.shape.vectorLen operator.ne)
  Diagonal.select operator.execution operator.shape operator.ne operator.tables operator.op

end Factorized

end TensorDiffusion
