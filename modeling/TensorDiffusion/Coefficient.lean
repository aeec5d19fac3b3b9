import TensorDiffusion.Decimal.Layout
import TensorDiffusion.Geometry.Factors

/-!
# Coefficients

The weight of a diffusion operator: a constant, a function of the place, or samples that the
caller took.  Vector and matrix coefficients can be named, but only to be refused.

`Samples` are the values at the quadrature points of the elements, or a single value that stands
for all of them.
-/

namespace TensorDiffusion

/-- A coefficient. -/
inductive Coefficient (α : Type) where
  | constant (value : α)
  /-- A scalar field of the physical coordinates. -/
  | function (field : Array α → α)
  /-- One value per quadrature point, with layout `(NQ, NE)`. -/
  | samples (values : Array α)
  | vector
  | matrix

namespace Coefficient

variable {α : Type}

/-- The coefficient is a scalar field. -/
def isScalar : Coefficient α → Bool
  | .constant _ | .function _ | .samples _ => true
  | .vector | .matrix                      => false

/-- The word for the kind of coefficient. -/
def kind : Coefficient α → String
  | .constant _ => "constant"
  | .function _ => "function"
  | .samples _  => "quadrature values"
  | .vector     => "vector"
  | .matrix     => "matrix"

/-- A short description. -/
def describe [Decimal.Binary α] : Coefficient α → String
  | .constant value => "Constant(" ++ Decimal.description.write value ++ ")"
  | .function _     => "Function(..)"
  | .samples values => s!"QuadratureValues(len = {values.size})"
  | .vector         => "Vector(..)"
  | .matrix         => "Matrix(..)"

end Coefficient

/-- How the samples of a constant are stored. -/
inductive Storage where
  /-- One value per quadrature point. -/
  | full
  /-- A single value. -/
  | compressed
  deriving Repr, DecidableEq

/-- A single value, if nothing else is asked for. -/
instance : Inhabited Storage := ⟨.compressed⟩

/-- Samples of a scalar coefficient at `nq` points of `ne` elements.  A single value stands for
all points. -/
structure Samples (α : Type) where
  nq : Nat
  ne : Nat
  values : Array α

namespace Samples

variable {α : Type}

/-- One value for all points. -/
def constant (nq ne : Nat) (value : α) : Samples α :=
  ⟨nq, ne, #[value]⟩

/-- One value for each point. -/
def ofValues (nq ne : Nat) (values : Array α) : Except Fault (Samples α) := do
  insist (values.size = (← Size.mul nq ne)) (.sampleCount values.size nq ne)
  return ⟨nq, ne, values⟩

/-- There is a single value. -/
def isConstant (samples : Samples α) : Bool :=
  samples.values.size = 1

/-- The value at point `q` of element `e`. -/
def get (samples : Samples α) (q e : Nat) : Except Fault α := do
  if samples.values.size = 1 then
    slot samples.values 0
  else
    slot samples.values (← Size.add q (← Size.mul samples.nq e))

/-- The workspace of a worker that takes samples: the coordinates of a point. -/
def pointWorkspace [Zero α] [Stored α] (sdim : Nat) : Workspace (Array α) :=
  .scratch sdim

/-- The values of a field at the points of one element. -/
def sampleElement (field : Array α → α) (coordinates : View α) (sdim : Nat) :
    ElementMap (Array α) α := fun x e values =>
  sweep values.size (fun (x, values) q => do
    let x ← overwrite sdim (fun i => coordinates.get [q, i, e]) x
    let values ← modifyRange q 1 (fun _ _ => pure (field x)) values
    return (x, values)) (x, values)

/-- The samples of a coefficient at the points that `geometry` describes. -/
def take [Zero α] [Stored α] (coefficient : Coefficient α) (geometry : Geometry α)
    (storage : Storage) (config : Execution) : Except Fault (Samples α) := do
  let nq := geometry.nq
  let ne := geometry.ne
  match coefficient with
  | .constant value =>
    match storage with
    | .compressed => return constant nq ne value
    | .full       => return ⟨nq, ne, ← filled (← Size.mul nq ne) value⟩
  | .samples values => ofValues nq ne values
  | .function field =>
    match geometry.coordinates with
    | none => refuse .noCoordinates
    | some coordinates =>
      let coordinates ← View.ofBuffer coordinates [nq, geometry.sdim, ne]
      let blank ← filled (← Size.mul nq ne) (0 : α)
      if 0 < nq ∧ 0 < ne then
        let values ← Update.fill
          (forElements config nq (pointWorkspace geometry.sdim)
            (sampleElement field coordinates geometry.sdim)) blank
        return ⟨nq, ne, values⟩
      else return ⟨nq, ne, blank⟩
  | .vector | .matrix => refuse (.unsampledKind coefficient.kind)

end Samples

end TensorDiffusion
