import TensorDiffusion.Basis.Tables
import TensorDiffusion.Coefficient
import TensorDiffusion.Diffusion.Shape
import TensorDiffusion.Space.Basic

/-!
# What an operator is assembled from

A space, a quadrature rule, a coefficient and the settings of the element loop.  The first step of
every assembly is the same: refuse what has no kernel before any work is done, then compute the
tables, the geometry and the coefficient at the quadrature points.
-/

namespace TensorDiffusion

/-- Everything that a diffusion operator is assembled from. -/
structure Context (α : Type) where
  space : Space α
  rule : TensorRule α
  coefficient : Coefficient α
  execution : Execution

/-- What is known at the quadrature points of a space. -/
structure PointData (α : Type) where
  shape : Shape
  ne : Nat
  tables : Tables α
  geometry : Geometry α
  samples : Samples α

namespace PointData

variable {α : Type}

/-- The shape of the elements.  What has no kernel is refused: dimensions, sizes, kinds of
coefficient, rules of another dimension. -/
def kernelShape (context : Context α) : Except Fault Shape := do
  let { space, rule, coefficient, execution } := context
  let shape ← Shape.of space.dim space.sdim space.nodesPerAxis rule.numPoints1d
  let limits := execution.limits
  insist (limits.admits shape.d1d shape.q1d)
    (.beyondLimits shape.d1d shape.q1d limits.maxD1d limits.maxQ1d)
  insist coefficient.isScalar (.notScalar coefficient.kind)
  insist (rule.dim = space.dim) (.ruleDimension rule.dim space.dim)
  return shape

/-- Coordinates are wanted by function coefficients only. -/
def wanted : Coefficient α → Quantities
  | .function _ => { jacobians := true, coordinates := true }
  | _           => { jacobians := true, coordinates := false }

/-- The data at the quadrature points. -/
def compute [Zero α] [One α] [Add α] [Sub α] [Mul α] [Div α] [BEq α] [OfDouble α] [Stored α]
    (context : Context α) : Except Fault (PointData α) := do
  let { space, rule, coefficient, execution } := context
  let shape ← kernelShape context
  let tables ← Tables.ofRule (← space.basis) rule
  let geometry ← Geometry.ofNodes space.dim space.sdim tables space.nodes (wanted coefficient)
    execution
  let samples ← Samples.take coefficient geometry .compressed execution
  return { shape, ne := space.numElements, tables, geometry, samples }

/-- The Jacobians. -/
def jacobians (data : PointData α) : Except Fault (Array α) :=
  match data.geometry.jacobians with
  | some jacobians => .ok jacobians
  | none           => refuse .noJacobians

end PointData

/-- Refuses a vector that is no element vector of the operator. -/
def checkVector (name : String) (len expected : Nat) : Except Fault Unit :=
  insist (len = expected) (.vectorLength name len expected)

end TensorDiffusion
