import TensorDiffusion.Size

/-!
# Element shapes

The dimensions of the elements that a diffusion operator acts on and their sizes per axis.  Only
shapes with kernels exist: faces in the plane, faces in space, and cells in space, with at least
one node and one quadrature point per axis.  Common sizes have kernels compiled for them.
-/

namespace TensorDiffusion

/-- The number of independent entries of a symmetric `dim × dim` matrix. -/
def symmetricEntries (dim : Nat) : Nat :=
  dim * (dim + 1) / 2

/-- Dimensions with diffusion kernels. -/
def HasKernel (dim sdim : Nat) : Prop :=
  dim = 2 ∧ sdim = 2 ∨ dim = 2 ∧ sdim = 3 ∨ dim = 3 ∧ sdim = 3

instance (dim sdim : Nat) : Decidable (HasKernel dim sdim) :=
  inferInstanceAs (Decidable (_ ∨ _))

/-- The shape of the elements of an operator. -/
structure Shape where
  dim : Nat
  sdim : Nat
  /-- The number of nodes per axis. -/
  d1d : Nat
  /-- The number of quadrature points per axis. -/
  q1d : Nat
  hasKernel : HasKernel dim sdim
  d1d_pos : 0 < d1d
  q1d_pos : 0 < q1d
  deriving DecidableEq

/-- Which compilation of a kernel serves a shape. -/
inductive Variant where
  /-- The kernel compiled for these sizes. -/
  | fixed (d1d q1d : Nat)
  /-- The kernel for all sizes. -/
  | generic
  deriving Repr, DecidableEq

namespace Shape

/-- The shape with the given dimensions and sizes. -/
def of (dim sdim d1d q1d : Nat) : Except Fault Shape :=
  if dim = 1 then refuse .oneDimensional
  else if hk : HasKernel dim sdim then
    if hd : 0 < d1d then
      if hq : 0 < q1d then .ok ⟨dim, sdim, d1d, q1d, hk, hd, hq⟩
      else refuse .noPoints
    else refuse .noNodes
  else refuse (.noKernel dim sdim)

/-- The number of components of a vector at a node. -/
def vdim (shape : Shape) : Nat :=
  shape.sdim

/-- The number of nodes of an element. -/
def numNodes (shape : Shape) : Except Fault Nat :=
  Size.pow shape.d1d shape.dim

/-- The number of quadrature points of an element. -/
def numPoints (shape : Shape) : Except Fault Nat :=
  Size.pow shape.q1d shape.dim

/-- The entries of operator data per quadrature point. -/
def symmetricEntries (shape : Shape) : Nat :=
  TensorDiffusion.symmetricEntries shape.dim

/-- The length of a vector of `ne` elements, of layout `(D1D^dim, VDIM, NE)`. -/
def vectorLen (shape : Shape) (ne : Nat) : Except Fault Nat := do
  Size.product [← shape.numNodes, shape.vdim, ne]

/-- The length of the operator data of `ne` elements. -/
def opLen (shape : Shape) (ne : Nat) : Except Fault Nat := do
  Size.product [← shape.numPoints, shape.symmetricEntries, ne]

/-- The compilation that serves a shape: as many points as nodes per axis, two to five on faces
and two to four on cells. -/
def variant (shape : Shape) : Variant :=
  match shape.dim, shape.d1d, shape.q1d with
  | 2, 2, 2 | 2, 3, 3 | 2, 4, 4 | 2, 5, 5
  | 3, 2, 2 | 3, 3, 3 | 3, 4, 4 => .fixed shape.d1d shape.q1d
  | _, _, _ => .generic

/-- A short description. -/
def describe (shape : Shape) : String :=
  "KernelShape \x7b dim: " ++ Nat.repr shape.dim ++ ", sdim: " ++ Nat.repr shape.sdim
    ++ ", d1d: " ++ Nat.repr shape.d1d ++ ", q1d: " ++ Nat.repr shape.q1d ++ " \x7d"

end Shape

/-- A short description. -/
def Variant.describe : Variant → String
  | .fixed d1d q1d =>
    "Fixed \x7b d1d: " ++ Nat.repr d1d ++ ", q1d: " ++ Nat.repr q1d ++ " \x7d"
  | .generic => "Generic"

end TensorDiffusion
