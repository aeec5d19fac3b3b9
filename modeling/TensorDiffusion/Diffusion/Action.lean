import TensorDiffusion.Basis.Tables
import TensorDiffusion.Diffusion.Form
import TensorDiffusion.Elements

/-!
# The action of the operator

`y += Bᵀ D B x` by sum factorization, element by element and component by component: the gradient
of the component at the quadrature points, one axis at a time; its product with the symmetric form
stored there; and the test against the gradients of the basis functions with the transposed tables.
Operator data has layout `(NQ, DIM (DIM + 1) / 2, NE)`, vectors have layout `(D1D^dim, VDIM, NE)`.

All sizes are checked before the first element is visited.  A worker has one flat scratch buffer.
Every element cuts it into the gradient at the points and room for a line, on cells also for a
plane.  Lines and planes of points and of nodes use the same room one after the other, each the
first entries of it; they are cleared before they are summed up, and nothing else is.
-/

namespace TensorDiffusion

/-- Sizes that a kernel is compiled for; zero leaves a size open. -/
structure FixedSizes where
  d1d : Nat := 0
  q1d : Nat := 0
  vdim : Nat := 0
  deriving Repr, DecidableEq

namespace FixedSizes

/-- The size that is compiled in, or the actual one if that is open. -/
def pick (fixed actual : Nat) : Nat :=
  if 0 < fixed then fixed else actual

/-- Refuses an actual size that differs from the one compiled in. -/
def check (name : String) (fixed actual : Nat) : Except Fault Unit :=
  require (fixed = 0 ∨ fixed = actual) (.fixedSize name fixed actual)

end FixedSizes

namespace Action

variable {α : Type}

/-- What the element loop reads. -/
structure Plan (α : Type) where
  d1d : Nat
  q1d : Nat
  vdim : Nat
  /-- The length of an element's chunk. -/
  chunk : Nat
  /-- The entries of a worker's scratch buffer. -/
  room : Nat
  b : View α
  g : View α
  bt : View α
  gt : View α
  op : View α
  x : View α

/-! ### Sizes -/

/-- Checks the sizes of an action on faces. -/
def facePlan (fixed : FixedSizes) (limits : Limits) (ne : Nat) (tables : Tables α)
    (op x : Array α) (yLen vdim : Nat) : Except Fault (Plan α) := do
  let d1d := tables.ndof
  let q1d := tables.nqpt
  FixedSizes.check "D1D" fixed.d1d d1d
  FixedSizes.check "Q1D" fixed.q1d q1d
  FixedSizes.check "VDIM" fixed.vdim vdim
  limits.check d1d q1d
  require (0 < d1d ∧ 0 < q1d ∧ 0 < vdim) .zeroSize
  let nd ← Size.mul d1d d1d
  let nq ← Size.mul q1d q1d
  checkBuffer "operator data" op.size (← Size.product [nq, 3, ne])
  checkBuffer "x" x.size (← Size.product [nd, vdim, ne])
  checkBuffer "y" yLen (← Size.product [nd, vdim, ne])
  let b ← View.ofBuffer tables.b [q1d, d1d]
  let g ← View.ofBuffer tables.g [q1d, d1d]
  let bt ← View.ofBuffer tables.bt [d1d, q1d]
  let gt ← View.ofBuffer tables.gt [d1d, q1d]
  let op ← View.ofBuffer op [nq, 3, ne]
  let x ← View.ofBuffer x [d1d, d1d, vdim, ne]
  let room ← Size.add (← Size.product [2, q1d, q1d]) (← Size.mul 2 (max d1d q1d))
  return { d1d, q1d, vdim, chunk := ← Size.mul nd vdim, room, b, g, bt, gt, op, x }

/-- Checks the sizes of an action on cells, whose vectors have three components. -/
def cellPlan (fixed : FixedSizes) (limits : Limits) (ne : Nat) (tables : Tables α)
    (op x : Array α) (yLen : Nat) : Except Fault (Plan α) := do
  let d1d := tables.ndof
  let q1d := tables.nqpt
  FixedSizes.check "D1D" fixed.d1d d1d
  FixedSizes.check "Q1D" fixed.q1d q1d
  limits.check d1d q1d
  require (0 < d1d ∧ 0 < q1d) .zeroSize
  let nd ← Size.product [d1d, d1d, d1d]
  let nq ← Size.product [q1d, q1d, q1d]
  checkBuffer "operator data" op.size (← Size.product [nq, 6, ne])
  checkBuffer "x" x.size (← Size.product [nd, 3, ne])
  checkBuffer "y" yLen (← Size.product [nd, 3, ne])
  let b ← View.ofBuffer tables.b [q1d, d1d]
  let g ← View.ofBuffer tables.g [q1d, d1d]
  let bt ← View.ofBuffer tables.bt [d1d, q1d]
  let gt ← View.ofBuffer tables.gt [d1d, q1d]
  let op ← View.ofBuffer op [nq, 6, ne]
  let x ← View.ofBuffer x [d1d, d1d, d1d, 3, ne]
  let m := max d1d q1d
  let room ← Size.add (← Size.add (← Size.mul 3 nq) (← Size.product [3, m, m])) (← Size.mul 3 m)
  return { d1d, q1d, vdim := 3, chunk := ← Size.mul nd 3, room, b, g, bt, gt, op, x }

/-! ### Lines -/

variable [Zero α] [Add α] [Mul α]

/-- Takes a line of nodes along x to its points: the values and the derivatives there, of shape
`(2, Q1D)`. -/
def gatherLine (plan : Plan α) (d1d q1d : Nat) (field : Nat → Except Fault α) (line : View α) :
    Except Fault (View α) :=
  sweep d1d (fun line dx => do
    let s ← field dx
    sweep q1d (fun line qx => do
      line.addColumn [qx] [s * (← plan.b.get [qx, dx]), s * (← plan.g.get [qx, dx])]) line)
    (line.fill 0)

/-! ### Faces -/

/-- What a face works on: the parts of the scratch buffer, and its chunk. -/
structure FaceState (α : Type) where
  /-- The gradient at the points, of shape `(2, Q1D, Q1D)`. -/
  grad : View α
  /-- Room for a line. -/
  line : Array α
  /-- The chunk, of shape `(D1D, D1D, VDIM)`. -/
  y : View α

/-- Adds what the line `dy` of nodes contributes to the gradient at the points. -/
def gatherFace (plan : Plan α) (q1d dy : Nat) (line grad : View α) : Except Fault (View α) :=
  sweep q1d (fun grad qy => do
    let wy ← plan.b.get [qy, dy]
    let wdy ← plan.g.get [qy, dy]
    sweep q1d (fun grad qx => do
      grad.addColumn [qx, qy] [(← line.get [1, qx]) * wy, (← line.get [0, qx]) * wdy]) grad) grad

/-- The gradient of component `c` of face `e` at the points. -/
def faceGradients (plan : Plan α) (d1d q1d e c : Nat) (grad : View α) (room : Array α) :
    Except Fault (View α × Array α) :=
  sweep d1d (fun (grad, room) dy => do
    let (line, rest) ← View.window room (← Size.mul 2 q1d) [2, q1d]
    let line ← gatherLine plan d1d q1d (fun dx => plan.x.get [dx, dy, c, e]) line
    let grad ← gatherFace plan q1d dy line grad
    return (grad, line.data ++ rest)) (grad.fill 0, room)

/-- Replaces the gradient at every point of face `e` by the flux there. -/
def faceFluxes (plan : Plan α) (q1d e : Nat) (grad : View α) : Except Fault (View α) :=
  sweep q1d (fun grad qy => sweep q1d (fun grad qx => do
    let form ← Form2.read plan.op (qx + qy * q1d) e
    let flux := form.apply { x := ← grad.get [0, qx, qy], y := ← grad.get [1, qx, qy] }
    grad.setColumn [qx, qy] [flux.x, flux.y]) grad) grad

/-- Tests the flux along x, on the line `qy` of points: what is left at its nodes, of shape
`(2, D1D)`. -/
def testFaceLine (plan : Plan α) (d1d q1d qy : Nat) (grad line : View α) :
    Except Fault (View α) :=
  sweep q1d (fun line qx => do
    let gx ← grad.get [0, qx, qy]
    let gy ← grad.get [1, qx, qy]
    sweep d1d (fun line dx => do
      let wx ← plan.bt.get [dx, qx]
      let wdx ← plan.gt.get [dx, qx]
      line.addColumn [dx] [gx * wdx, gy * wx]) line) (line.fill 0)

/-- Tests along y what is left of the line `qy` of points, and adds it to component `c` of the
chunk. -/
def testFace (plan : Plan α) (d1d qy c : Nat) (line y : View α) : Except Fault (View α) :=
  sweep d1d (fun y dy => do
    let wy ← plan.bt.get [dy, qy]
    let wdy ← plan.gt.get [dy, qy]
    sweep d1d (fun y dx => do
      y.add [dx, dy, c] ((← line.get [0, dx]) * wy + (← line.get [1, dx]) * wdy)) y) y

/-- Adds the flux, tested against the gradients of the basis functions, to component `c` of the
chunk. -/
def faceResults (plan : Plan α) (d1d q1d c : Nat) (grad : View α) (room : Array α) (y : View α) :
    Except Fault (Array α × View α) :=
  sweep q1d (fun (room, y) qy => do
    let (line, rest) ← View.window room (← Size.mul 2 d1d) [2, d1d]
    let line ← testFaceLine plan d1d q1d qy grad line
    let y ← testFace plan d1d qy c line y
    return (line.data ++ rest, y)) (room, y)

/-- Adds the action on component `c` of face `e` to its chunk. -/
def faceComponent (plan : Plan α) (d1d q1d e c : Nat) (s : FaceState α) :
    Except Fault (FaceState α) := do
  let { grad, line, y } := s
  let (grad, line) ← faceGradients plan d1d q1d e c grad line
  let grad ← faceFluxes plan q1d e grad
  let (line, y) ← faceResults plan d1d q1d c grad line y
  return { grad, line, y }

/-- Adds the action on face `e` to its chunk. -/
def face (fixed : FixedSizes) (plan : Plan α) : ElementMap (Array α) α := fun scratch e y => do
  let d1d := FixedSizes.pick fixed.d1d plan.d1d
  let q1d := FixedSizes.pick fixed.q1d plan.q1d
  let vdim := FixedSizes.pick fixed.vdim plan.vdim
  let y ← View.ofBuffer y [d1d, d1d, vdim]
  let (grad, line) ← cut scratch (← Size.product [2, q1d, q1d])
  let grad ← View.ofBuffer grad [2, q1d, q1d]
  let s ← sweep vdim (fun s c => faceComponent plan d1d q1d e c s) { grad, line, y }
  return (s.grad.data ++ s.line, s.y.data)

/-- Adds the action of operator data `op` on `x` to the output, on faces. -/
def onFaces [Stored α] (fixed : FixedSizes) (config : Execution) (ne : Nat) (tables : Tables α)
    (op x : Array α) (vdim : Nat) : Update α Unit := do
  let plan ← ofExcept (facePlan fixed config.limits ne tables op x (← get).size vdim)
  forElements config plan.chunk (.scratch plan.room) (face fixed plan)

/-! ### Cells -/

/-- What a cell works on: the parts of the scratch buffer, and its chunk. -/
structure CellState (α : Type) where
  /-- The gradient at the points, of shape `(3, Q1D, Q1D, Q1D)`. -/
  grad : View α
  /-- Room for a plane. -/
  plane : Array α
  /-- Room for a line. -/
  line : Array α
  /-- The chunk, of shape `(D1D, D1D, D1D, 3)`. -/
  y : View α

/-- Adds what the line `dy` of a plane of nodes contributes at the points of the x and y axes: the
derivatives along x and y, and the values. -/
def gatherPlaneLine (plan : Plan α) (q1d dy : Nat) (line plane : View α) :
    Except Fault (View α) :=
  sweep q1d (fun plane qy => do
    let wy ← plan.b.get [qy, dy]
    let wdy ← plan.g.get [qy, dy]
    sweep q1d (fun plane qx => do
      let wx ← line.get [0, qx]
      let wdx ← line.get [1, qx]
      plane.addColumn [qx, qy] [wdx * wy, wx * wdy, wx * wy]) plane) plane

/-- Takes the plane `dz` of nodes to the points of the x and y axes, of shape `(3, Q1D, Q1D)`. -/
def gatherPlane (plan : Plan α) (d1d q1d e c dz : Nat) (plane : View α) (room : Array α) :
    Except Fault (View α × Array α) :=
  sweep d1d (fun (plane, room) dy => do
    let (line, rest) ← View.window room (← Size.mul 2 q1d) [2, q1d]
    let line ← gatherLine plan d1d q1d (fun dx => plan.x.get [dx, dy, dz, c, e]) line
    let plane ← gatherPlaneLine plan q1d dy line plane
    return (plane, line.data ++ rest)) (plane.fill 0, room)

/-- Adds what the plane `dz` of nodes contributes to the gradient at the points. -/
def gatherCell (plan : Plan α) (q1d dz : Nat) (plane grad : View α) : Except Fault (View α) :=
  sweep q1d (fun grad qz => do
    let wz ← plan.b.get [qz, dz]
    let wdz ← plan.g.get [qz, dz]
    sweep q1d (fun grad qy => sweep q1d (fun grad qx => do
      grad.addColumn [qx, qy, qz] [(← plane.get [0, qx, qy]) * wz,
        (← plane.get [1, qx, qy]) * wz, (← plane.get [2, qx, qy]) * wdz]) grad) grad) grad

/-- The gradient of component `c` of cell `e` at the points. -/
def cellGradients (plan : Plan α) (d1d q1d e c : Nat) (grad : View α) (planes lines : Array α) :
    Except Fault (View α × Array α × Array α) :=
  sweep d1d (fun (grad, planes, lines) dz => do
    let (plane, rest) ← View.window planes (← Size.product [3, q1d, q1d]) [3, q1d, q1d]
    let (plane, lines) ← gatherPlane plan d1d q1d e c dz plane lines
    let grad ← gatherCell plan q1d dz plane grad
    return (grad, plane.data ++ rest, lines)) (grad.fill 0, planes, lines)

/-- Replaces the gradient at every point of cell `e` by the flux there. -/
def cellFluxes (plan : Plan α) (q1d e : Nat) (grad : View α) : Except Fault (View α) :=
  sweep q1d (fun grad qz => sweep q1d (fun grad qy => sweep q1d (fun grad qx => do
    let form ← Form3.read plan.op (qx + (qy + qz * q1d) * q1d) e
    let flux := form.apply {
      x := ← grad.get [0, qx, qy, qz]
      y := ← grad.get [1, qx, qy, qz]
      z := ← grad.get [2, qx, qy, qz] }
    grad.setColumn [qx, qy, qz] [flux.x, flux.y, flux.z]) grad) grad) grad

/-- Tests the flux along x, on the line `qy` of the plane `qz` of points: what is left at its
nodes, of shape `(3, D1D)`. -/
def testCellLine (plan : Plan α) (d1d q1d qy qz : Nat) (grad line : View α) :
    Except Fault (View α) :=
  sweep q1d (fun line qx => do
    let gx ← grad.get [0, qx, qy, qz]
    let gy ← grad.get [1, qx, qy, qz]
    let gz ← grad.get [2, qx, qy, qz]
    sweep d1d (fun line dx => do
      let wx ← plan.bt.get [dx, qx]
      let wdx ← plan.gt.get [dx, qx]
      line.addColumn [dx] [gx * wdx, gy * wx, gz * wx]) line) (line.fill 0)

/-- Tests along y what is left of the line `qy` of points, and adds it to a plane of nodes. -/
def testCellPlaneLine (plan : Plan α) (d1d qy : Nat) (line plane : View α) :
    Except Fault (View α) :=
  sweep d1d (fun plane dy => do
    let wy ← plan.bt.get [dy, qy]
    let wdy ← plan.gt.get [dy, qy]
    sweep d1d (fun plane dx => do
      plane.addColumn [dx, dy] [(← line.get [0, dx]) * wy, (← line.get [1, dx]) * wdy,
        (← line.get [2, dx]) * wy]) plane) plane

/-- Tests the flux along x and y, on the plane `qz` of points: what is left at the nodes of the x
and y axes, of shape `(3, D1D, D1D)`. -/
def testCellPlane (plan : Plan α) (d1d q1d qz : Nat) (grad plane : View α) (room : Array α) :
    Except Fault (View α × Array α) :=
  sweep q1d (fun (plane, room) qy => do
    let (line, rest) ← View.window room (← Size.mul 3 d1d) [3, d1d]
    let line ← testCellLine plan d1d q1d qy qz grad line
    let plane ← testCellPlaneLine plan d1d qy line plane
    return (plane, line.data ++ rest)) (plane.fill 0, room)

/-- Tests along z what is left of the plane `qz` of points, and adds it to component `c` of the
chunk. -/
def testCell (plan : Plan α) (d1d qz c : Nat) (plane y : View α) : Except Fault (View α) :=
  sweep d1d (fun y dz => do
    let wz ← plan.bt.get [dz, qz]
    let wdz ← plan.gt.get [dz, qz]
    sweep d1d (fun y dy => sweep d1d (fun y dx => do
      y.add [dx, dy, dz, c] ((← plane.get [0, dx, dy]) * wz + (← plane.get [1, dx, dy]) * wz
        + (← plane.get [2, dx, dy]) * wdz)) y) y) y

/-- Adds the flux, tested against the gradients of the basis functions, to component `c` of the
chunk. -/
def cellResults (plan : Plan α) (d1d q1d c : Nat) (grad : View α) (planes lines : Array α)
    (y : View α) : Except Fault (Array α × Array α × View α) :=
  sweep q1d (fun (planes, lines, y) qz => do
    let (plane, rest) ← View.window planes (← Size.product [3, d1d, d1d]) [3, d1d, d1d]
    let (plane, lines) ← testCellPlane plan d1d q1d qz grad plane lines
    let y ← testCell plan d1d qz c plane y
    return (plane.data ++ rest, lines, y)) (planes, lines, y)

/-- Adds the action on component `c` of cell `e` to its chunk. -/
def cellComponent (plan : Plan α) (d1d q1d e c : Nat) (s : CellState α) :
    Except Fault (CellState α) := do
  let { grad, plane, line, y } := s
  let (grad, plane, line) ← cellGradients plan d1d q1d e c grad plane line
  let grad ← cellFluxes plan q1d e grad
  let (plane, line, y) ← cellResults plan d1d q1d c grad plane line y
  return { grad, plane, line, y }

/-- Adds the action on cell `e` to its chunk.  Planes and lines have room for as many points or
nodes as there are per axis, whichever are more. -/
def cell (fixed : FixedSizes) (plan : Plan α) : ElementMap (Array α) α := fun scratch e y => do
  let d1d := FixedSizes.pick fixed.d1d plan.d1d
  let q1d := FixedSizes.pick fixed.q1d plan.q1d
  let m := max plan.d1d plan.q1d
  let y ← View.ofBuffer y [d1d, d1d, d1d, 3]
  let (grad, rest) ← cut scratch (← Size.product [3, q1d, q1d, q1d])
  let (plane, rest) ← cut rest (← Size.product [3, m, m])
  let lineLen ← Size.mul 3 m
  let line ← slice rest 0 lineLen
  let grad ← View.ofBuffer grad [3, q1d, q1d, q1d]
  let s ← sweep 3 (fun s c => cellComponent plan d1d q1d e c s) { grad, plane, line, y }
  return (s.grad.data ++ s.plane ++ s.line ++ rest.extract lineLen rest.size, s.y.data)

/-- Adds the action of operator data `op` on `x` to the output, on cells. -/
def onCells [Stored α] (fixed : FixedSizes) (config : Execution) (ne : Nat) (tables : Tables α)
    (op x : Array α) : Update α Unit := do
  let plan ← ofExcept (cellPlan fixed config.limits ne tables op x (← get).size)
  forElements config plan.chunk (.scratch plan.room) (cell fixed plan)

end Action

end TensorDiffusion
