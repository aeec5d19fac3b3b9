import TensorDiffusion.Coefficient
import TensorDiffusion.Diffusion.Form
import TensorDiffusion.Journal

/-!
# Operator data

The setup of a diffusion operator: from quadrature weights, Jacobians and coefficient samples to
one symmetric form per quadrature point, in the layout `(NQ, DIM (DIM + 1) / 2, NE)`.  The output
is overwritten.
-/

namespace TensorDiffusion.OperatorData

variable {α : Type}

/-- The setup of elements of given dimensions: the entries of the form at a point, from its weight
and its Jacobian. -/
structure Kernel (α : Type) where
  dim : Nat
  sdim : Nat
  form : α → (Nat → Nat → Except Fault α) → Except Fault (Array α)

/-- What the element loop of a setup kernel reads. -/
structure Plan (α : Type) where
  nq : Nat
  /-- The length of an element's chunk. -/
  chunk : Nat
  weights : Array α
  jacobians : View α
  samples : Samples α

/-- Checks the sizes of a setup. -/
def plan (kernel : Kernel α) (q1d ne : Nat) (w j c : Array α) (opLen : Nat) :
    Except Fault (Plan α) := do
  let { dim, sdim, .. } := kernel
  require (0 < q1d) .noSetupPoints
  let nq ← Size.pow q1d dim
  checkBuffer "quadrature weights" w.size nq
  checkBuffer "Jacobians" j.size (← Size.product [nq, sdim, dim, ne])
  checkBuffer "operator data" opLen (← Size.product [nq, symmetricEntries dim, ne])
  let jacobians ← View.ofBuffer j [nq, sdim, dim, ne]
  if c.size ≠ 1 then
    let expected ← Size.mul nq ne
    require (c.size = expected) (.samplesLength expected c.size)
  let chunk ← Size.mul nq (symmetricEntries dim)
  return { nq, chunk, weights := w, jacobians, samples := ⟨nq, ne, c⟩ }

/-- Stores the form at the point `q` of element `e` in the chunk of the element. -/
def storeForm [Mul α] (kernel : Kernel α) (plan : Plan α) (e q : Nat) (op : View α) :
    Except Fault (View α) := do
  let w := (← slot plan.weights q) * (← plan.samples.get q e)
  let entries ← kernel.form w fun i k => plan.jacobians.get [q, i, k, e]
  sweep (symmetricEntries kernel.dim) (fun op k => do op.set [q, k] (← slot entries k)) op

/-- Computes the forms of one element. -/
def element [Mul α] (kernel : Kernel α) (plan : Plan α) : ElementMap Unit α :=
  fun _ e op => do
    let op ← View.ofBuffer op [plan.nq, symmetricEntries kernel.dim]
    let op ← sweep plan.nq (fun op q => storeForm kernel plan e q op) op
    return ((), op.data)

/-- Runs a setup kernel on weights `w`, Jacobians `j` and coefficient samples `c`. -/
def run [Mul α] (kernel : Kernel α) (config : Execution) (q1d ne : Nat) (w j c : Array α) :
    Update α Unit := do
  let plan ← ofExcept (plan kernel q1d ne w j c (← get).size)
  forElements config plan.chunk (.ofValue ()) (element kernel plan)

/-- Faces in the plane. -/
def planar [Add α] [Sub α] [Mul α] [Neg α] [Div α] : Kernel α where
  dim := 2
  sdim := 2
  form w j := do
    return (Form2.planar w (← j 0 0) (← j 1 0) (← j 0 1) (← j 1 1)).toArray

/-- Faces in space. -/
def surface [One α] [Add α] [Sub α] [Mul α] [Neg α] [Div α] [SquareRoot α] : Kernel α where
  dim := 2
  sdim := 3
  form w j := do
    return (Form2.surface w (← j 0 0) (← j 1 0) (← j 2 0) (← j 0 1) (← j 1 1) (← j 2 1)).toArray

/-- Cells. -/
def solid [Add α] [Sub α] [Mul α] [Div α] : Kernel α where
  dim := 3
  sdim := 3
  form w j := do
    return (Form3.solid w (← j 0 0) (← j 1 0) (← j 2 0) (← j 0 1) (← j 1 1) (← j 2 1)
      (← j 0 2) (← j 1 2) (← j 2 2)).toArray

/-- Runs the setup kernel for the given dimensions. -/
def setup [One α] [Add α] [Sub α] [Mul α] [Neg α] [Div α] [SquareRoot α] (config : Execution)
    (dim sdim q1d ne : Nat) (w j c : Array α) : Run (Array α) Unit := do
  Run.record (.setupKernel dim sdim q1d ne)
  match dim, sdim with
  | 2, 2 => Run.onValue (run planar config q1d ne w j c)
  | 2, 3 => Run.onValue (run surface config q1d ne w j c)
  | 3, 3 => Run.onValue (run solid config q1d ne w j c)
  | 1, _ => ofExcept (violate .setupOneDimensional)
  | _, _ => ofExcept (violate (.setupDimensions dim sdim))

end TensorDiffusion.OperatorData
