import TensorDiffusion.Diffusion.Diagonal
import TensorDiffusion.Journal

/-!
# Selection of kernels

Common element sizes are served by kernels compiled for them, all others by the kernels for any
size.  Which one runs is recorded and makes no other difference.
-/

namespace TensorDiffusion

variable {α : Type} [Zero α] [Add α] [Mul α] [Stored α]

namespace Action

/-- Adds the action of operator data `op` on `x`, with the kernels for any size. -/
def generic (config : Execution) (shape : Shape) (ne : Nat) (tables : Tables α)
    (op x : Array α) : Update α Unit :=
  if shape.dim = 2 then onFaces {} config ne tables op x shape.vdim
  else onCells {} config ne tables op x

/-- Adds the action of operator data `op` on `x`, with the kernel compiled for the sizes of the
shape if there is one. -/
def select (config : Execution) (shape : Shape) (ne : Nat) (tables : Tables α)
    (op x : Array α) : Run (Array α) Unit := do
  Run.record (.applied shape shape.variant)
  match shape.variant with
  | .generic => Run.onValue (generic config shape ne tables op x)
  | .fixed d1d q1d =>
    match shape.dim, shape.sdim, d1d, q1d with
    | 2, 3, 2, 2 => Run.onValue (onFaces ⟨2, 2, 3⟩ config ne tables op x 3)
    | 2, 3, 3, 3 => Run.onValue (onFaces ⟨3, 3, 3⟩ config ne tables op x 3)
    | 2, 3, 4, 4 => Run.onValue (onFaces ⟨4, 4, 3⟩ config ne tables op x 3)
    | 2, 3, 5, 5 => Run.onValue (onFaces ⟨5, 5, 3⟩ config ne tables op x 3)
    | 2, 2, 2, 2 => Run.onValue (onFaces ⟨2, 2, 2⟩ config ne tables op x 2)
    | 2, 2, 3, 3 => Run.onValue (onFaces ⟨3, 3, 2⟩ config ne tables op x 2)
    | 2, 2, 4, 4 => Run.onValue (onFaces ⟨4, 4, 2⟩ config ne tables op x 2)
    | 2, 2, 5, 5 => Run.onValue (onFaces ⟨5, 5, 2⟩ config ne tables op x 2)
    | 3, 3, 2, 2 => Run.onValue (onCells ⟨2, 2, 0⟩ config ne tables op x)
    | 3, 3, 3, 3 => Run.onValue (onCells ⟨3, 3, 0⟩ config ne tables op x)
    | 3, 3, 4, 4 => Run.onValue (onCells ⟨4, 4, 0⟩ config ne tables op x)
    | _, _, _, _ => ofExcept (violate (.noInstance shape.describe "apply"))

end Action

namespace Diagonal

/-- Adds the diagonal of operator data `op`, with the kernels for any size. -/
def generic (config : Execution) (shape : Shape) (ne : Nat) (tables : Tables α)
    (op : Array α) : Update α Unit :=
  if shape.dim = 2 then onFaces {} config ne tables op shape.vdim
  else onCells {} config ne tables op

/-- Adds the diagonal of operator data `op`, with the kernel compiled for the sizes of the shape if
there is one. -/
def select (config : Execution) (shape : Shape) (ne : Nat) (tables : Tables α)
    (op : Array α) : Run (Array α) Unit := do
  Run.record (.diagonal shape shape.variant)
  match shape.variant with
  | .generic => Run.onValue (generic config shape ne tables op)
  | .fixed d1d q1d =>
    match shape.dim, d1d, q1d with
    | 2, 2, 2 => Run.onValue (onFaces ⟨2, 2, 0⟩ config ne tables op shape.vdim)
    | 2, 3, 3 => Run.onValue (onFaces ⟨3, 3, 0⟩ config ne tables op shape.vdim)
    | 2, 4, 4 => Run.onValue (onFaces ⟨4, 4, 0⟩ config ne tables op shape.vdim)
    | 2, 5, 5 => Run.onValue (onFaces ⟨5, 5, 0⟩ config ne tables op shape.vdim)
    | 3, 2, 2 => Run.onValue (onCells ⟨2, 2, 0⟩ config ne tables op)
    | 3, 3, 3 => Run.onValue (onCells ⟨3, 3, 0⟩ config ne tables op)
    | 3, 4, 4 => Run.onValue (onCells ⟨4, 4, 0⟩ config ne tables op)
    | _, _, _ => ofExcept (violate (.noInstance shape.describe "diagonal"))

end Diagonal

end TensorDiffusion
