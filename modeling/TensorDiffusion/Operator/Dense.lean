import TensorDiffusion.Journal
import TensorDiffusion.Operator.Context

/-!
# Dense element matrices

An operator that keeps, for every element, the stiffness matrix of one vector component.  The
matrices are assembled from the explicit inverse of `Jᵀ J`, without sum factorization.  They grow
with the square of the number of nodes of an element, which suits low orders.
-/

namespace TensorDiffusion

/-- A diffusion operator as dense element matrices. -/
structure Dense (α : Type) where
  shape : Shape
  ne : Nat
  /-- The element matrices, column by column, of layout `(ND, ND, NE)`. -/
  matrices : Array α
  execution : Execution

namespace Dense

variable {α : Type}

/-- The matrix of element `e`. -/
def elementMatrix (operator : Dense α) (e : Nat) : Except Fault (Matrix α) := do
  let nd ← operator.shape.numNodes
  let start ← Size.product [e, nd, nd]
  let stop ← Size.product [← Size.add e 1, nd, nd]
  Matrix.ofSlice nd nd (← slice operator.matrices start stop)

variable [Zero α] [Add α] [Mul α]

/-- The reference gradients of all basis functions at the quadrature point `q`, as the columns of
a matrix.  The derivative along axis `k` is the product of the derivative on that axis and the
values on the others. -/
def referenceGradients [One α] [Stored α] (shape : Shape) (tables : Tables α) (nd q : Nat) :
    Except Fault (Matrix α) := do
  let { d1d, q1d, .. } := shape
  let b ← View.ofBuffer tables.b [q1d, d1d]
  let g ← View.ofBuffer tables.g [q1d, d1d]
  Matrix.build shape.dim nd fun k i =>
    sweep shape.dim (fun product axis => do
      let table := if axis = k then g else b
      return product * (← table.get [q / Nat.pow q1d axis % q1d, i / Nat.pow d1d axis % d1d])) 1

/-- The physical diffusion matrix `w vol(J) (Jᵀ J)⁻¹` at point `q` of element `e`, with
`vol(J) = det J` for square Jacobians and `√det (Jᵀ J)` otherwise. -/
def pointMatrix [Sub α] [Neg α] [Div α] [BEq α] [SquareRoot α] [Stored α] (weights : Array α)
    (samples : Samples α) (jacobian : Matrix α) (q e : Nat) : Except Fault (Matrix α) := do
  let jtj ← (← jacobian.transpose).mul jacobian
  let vol ←
    if jacobian.rows = jacobian.cols then jacobian.determinant
    else SquareRoot.sqrt <$> jtj.determinant
  match ← jtj.inverse? with
  | none => refuse (.singularJacobian q e)
  | some inverse => return inverse.scale ((← slot weights q) * (← samples.get q e) * vol)

/-- Adds the contributions of all quadrature points to the matrix of element `e`. -/
def element [Stored α] (nq nd : Nat) (pointMatrices gradients : Array (Matrix α)) :
    ElementMap Unit α :=
  fun _ e matrix => do
    let matrix ← Matrix.ofSlice nd nd matrix
    let entries ← sweep nq (fun entries q => do
      let gradient ← slot gradients q
      let flux ← (← slot pointMatrices (q + nq * e)).mul gradient
      modifyRange 0 (nd * nd) (fun k v => do
        let dot ← total gradient.rows fun r => do
          return (← gradient.get r (k % nd)) * (← flux.get r (k / nd))
        return dot + v) entries) matrix.entries
    return ((), entries)

/-- Assembles the element matrices for a context. -/
def assemble [One α] [Sub α] [Neg α] [Div α] [BEq α] [OfDouble α] [SquareRoot α] [Stored α]
    (context : Context α) : Run Unit (Dense α) := do
  let data ← ofExcept (PointData.compute context)
  let shape := data.shape
  let { dim, sdim, .. } := shape
  let nq ← ofExcept shape.numPoints
  let nd ← ofExcept shape.numNodes
  let matrices ← ofExcept do
    let j ← View.ofBuffer (← data.jacobians) [nq, sdim, dim, data.ne]
    let pointMatrices ← tabulate (nq * data.ne) fun p => do
      let jacobian ← Matrix.build sdim dim fun i k => j.get [p % nq, i, k, p / nq]
      pointMatrix context.rule.weights data.samples jacobian (p % nq) (p / nq)
    let gradients ← tabulate nq fun q => referenceGradients shape data.tables nd q
    let blank ← filled (← Size.product [nd, nd, data.ne]) (0 : α)
    Update.fill
      (forElements context.execution (nd * nd) (.ofValue ()) (element nq nd pointMatrices gradients))
      blank
  Run.record (.matrices data.ne nd)
  return { shape, ne := data.ne, matrices, execution := context.execution }

/-- Adds the action of the matrix of an element on its part of `x` to its chunk. -/
def applyElement (operator : Dense α) (nd vdim : Nat) (x : Array α) : ElementMap Unit α :=
  fun _ e y => do
    let x ← Matrix.ofSlice nd vdim (← slice x (e * nd * vdim) ((e + 1) * nd * vdim))
    let y ← Matrix.ofSlice nd vdim y
    let matrix ← operator.elementMatrix e
    let entries ← modifyRange 0 (nd * vdim) (fun n v =>
      sweep nd (fun sum k => do
        return (← matrix.get (n % nd) k) * (← x.get k (n / nd)) + sum) v) y.entries
    return ((), entries)

/-- Adds the action on `x` to the output. -/
def addMult (operator : Dense α) (x : Array α) : Run (Array α) Unit := do
  let yLen := (← get).value.size
  let nd ← ofExcept operator.shape.numNodes
  ofExcept do
    let len ← operator.shape.vectorLen operator.ne
    checkVector "x" x.size len
    checkVector "y" yLen len
  let vdim := operator.shape.vdim
  Run.onValue <|
    forElements operator.execution (nd * vdim) (.ofValue ()) (operator.applyElement nd vdim x)

omit [Zero α] [Mul α] in
/-- Adds the diagonal of the matrix of an element to its chunk. -/
def diagonalElement (operator : Dense α) (nd vdim : Nat) : ElementMap Unit α :=
  fun _ e y => do
    let matrix ← operator.elementMatrix e
    let y ← modifyRange 0 (nd * vdim) (fun n v => do
      return v + (← matrix.get (n % nd) (n % nd))) y
    return ((), y)

omit [Zero α] [Mul α] in
/-- Adds the diagonal to the output. -/
def addDiagonal (operator : Dense α) : Run (Array α) Unit := do
  let diagLen := (← get).value.size
  let nd ← ofExcept operator.shape.numNodes
  ofExcept do
    checkVector "diagonal" diagLen (← operator.shape.vectorLen operator.ne)
  let vdim := operator.shape.vdim
  Run.onValue <|
    forElements operator.execution (nd * vdim) (.ofValue ()) (operator.diagonalElement nd vdim)

end Dense

end TensorDiffusion
