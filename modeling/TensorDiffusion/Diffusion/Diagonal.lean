import TensorDiffusion.Diffusion.Action

/-!
# The diagonal of the operator

The diagonal entry of a node is the sum over the quadrature points of `∇φᵀ D ∇φ` for its basis
function `φ`.  The squared tables are contracted with the operator data one axis at a time.  All
components of a vector have the same diagonal, which is added to the output.

A worker has one flat scratch buffer, which holds what is left after each axis.
-/

namespace TensorDiffusion.Diagonal

variable {α : Type}

/-- What the element loop reads. -/
structure Plan (α : Type) where
  d1d : Nat
  q1d : Nat
  vdim : Nat
  /-- The length of an element's chunk. -/
  chunk : Nat
  /-- The entries of a worker's scratch buffer. -/
  room : Nat
  b : View α
  g : View α
  op : View α

/-! ### Faces -/

/-- Checks the sizes of a diagonal on faces. -/
def facePlan (fixed : FixedSizes) (limits : Limits) (ne : Nat) (tables : Tables α)
    (op : Array α) (diagLen vdim : Nat) : Except Fault (Plan α) := do
  let d1d := tables.ndof
  let q1d := tables.nqpt
  FixedSizes.check "D1D" fixed.d1d d1d
  FixedSizes.check "Q1D" fixed.q1d q1d
  limits.check d1d q1d
  require (0 < d1d ∧ 0 < q1d ∧ 0 < vdim) .zeroSize
  let nd ← Size.mul d1d d1d
  checkBuffer "operator data" op.size (← Size.product [q1d, q1d, 3, ne])
  checkBuffer "diagonal" diagLen (← Size.product [nd, vdim, ne])
  let b ← View.ofBuffer tables.b [q1d, d1d]
  let g ← View.ofBuffer tables.g [q1d, d1d]
  let op ← View.ofBuffer op [← Size.mul q1d q1d, 3, ne]
  let room ← Size.product [3, q1d, d1d]
  return { d1d, q1d, vdim, chunk := ← Size.mul nd vdim, room, b, g, op }

variable [Zero α] [Add α] [Mul α]

/-- The forms of face `e` on the line `qx`, contracted with the squares of the tables at the node
`dy`. -/
def contractForms (plan : Plan α) (q1d e qx dy : Nat) : Except Fault (Form2 α) := do
  let { b, g, op, .. } := plan
  return {
    xx := ← total q1d fun qy => do
      let v ← b.get [qy, dy]
      return v * v * (← op.get [qx + qy * q1d, 0, e])
    xy := ← total q1d fun qy => do
      return (← b.get [qy, dy]) * (← g.get [qy, dy]) * (← op.get [qx + qy * q1d, 1, e])
    yy := ← total q1d fun qy => do
      let v ← g.get [qy, dy]
      return v * v * (← op.get [qx + qy * q1d, 2, e]) }

/-- Contracts the forms of face `e` along y, into a view of shape `(3, Q1D, D1D)`. -/
def contractFaceY (plan : Plan α) (d1d q1d e : Nat) (forms : View α) : Except Fault (View α) :=
  sweep q1d (fun forms qx => sweep d1d (fun forms dy => do
    let m ← contractForms plan q1d e qx dy
    forms.setColumn [qx, dy] [m.xx, m.xy, m.yy]) forms) forms

/-- The diagonal entry of the node at `dx` and `dy`, from the forms contracted along y. -/
def faceEntry (plan : Plan α) (q1d dx dy : Nat) (forms : View α) : Except Fault α :=
  sweep q1d (fun sum qx => do
    let b ← plan.b.get [qx, dx]
    let g ← plan.g.get [qx, dx]
    let sum := sum + g * g * (← forms.get [0, qx, dy])
    let sum := sum + g * b * (← forms.get [1, qx, dy])
    let sum := sum + b * g * (← forms.get [1, qx, dy])
    return sum + b * b * (← forms.get [2, qx, dy])) 0

/-- Adds the diagonal entry of every node to all components of a chunk. -/
def contractFaceX (plan : Plan α) (d1d q1d : Nat) (forms y : View α) : Except Fault (View α) :=
  sweep d1d (fun y dy => sweep d1d (fun y dx => do
    let v ← faceEntry plan q1d dx dy forms
    sweep plan.vdim (fun y c => y.add [dx, dy, c] v) y) y) y

/-- Adds the diagonal of face `e` to its chunk. -/
def face (fixed : FixedSizes) (plan : Plan α) : ElementMap (Array α) α := fun scratch e y => do
  let d1d := FixedSizes.pick fixed.d1d plan.d1d
  let q1d := FixedSizes.pick fixed.q1d plan.q1d
  let y ← View.ofBuffer y [d1d, d1d, plan.vdim]
  let forms ← View.ofBuffer scratch [3, q1d, d1d]
  let forms ← contractFaceY plan d1d q1d e forms
  let y ← contractFaceX plan d1d q1d forms y
  return (forms.data, y.data)

/-- Adds the diagonal of operator data `op` to the output, on faces. -/
def onFaces [Stored α] (fixed : FixedSizes) (config : Execution) (ne : Nat) (tables : Tables α)
    (op : Array α) (vdim : Nat) : Update α Unit := do
  let plan ← ofExcept (facePlan fixed config.limits ne tables op (← get).size vdim)
  forElements config plan.chunk (.scratch plan.room) (face fixed plan)

/-! ### Cells -/

omit [Zero α] [Add α] [Mul α] in
/-- Checks the sizes of a diagonal on cells. -/
def cellPlan (fixed : FixedSizes) (limits : Limits) (ne : Nat) (tables : Tables α)
    (op : Array α) (diagLen : Nat) : Except Fault (Plan α) := do
  let d1d := tables.ndof
  let q1d := tables.nqpt
  FixedSizes.check "D1D" fixed.d1d d1d
  FixedSizes.check "Q1D" fixed.q1d q1d
  limits.check d1d q1d
  require (0 < d1d ∧ 0 < q1d) .zeroSize
  let nd ← Size.product [d1d, d1d, d1d]
  checkBuffer "operator data" op.size (← Size.product [q1d, q1d, q1d, 6, ne])
  checkBuffer "diagonal" diagLen (← Size.product [nd, 3, ne])
  let b ← View.ofBuffer tables.b [q1d, d1d]
  let g ← View.ofBuffer tables.g [q1d, d1d]
  let op ← View.ofBuffer op [← Size.product [q1d, q1d, q1d], 6, ne]
  let room ← Size.add (← Size.product [q1d, q1d, d1d]) (← Size.product [q1d, d1d, d1d])
  return { d1d, q1d, vdim := 3, chunk := ← Size.mul nd 3, room, b, g, op }

/-- What a cell works on: the parts of the scratch buffer, and its chunk. -/
structure CellState (α : Type) where
  /-- An entry of the forms contracted along z, of shape `(Q1D, Q1D, D1D)`. -/
  alongZ : View α
  /-- The same contracted along z and y, of shape `(Q1D, D1D, D1D)`. -/
  alongZY : View α
  /-- The chunk, of shape `(D1D, D1D, D1D, 3)`. -/
  y : View α

/-- Contracts along one axis: the sum over its points of the term between the table of row `i` and
that of column `j`, each the derivative table if the axis is the row's or the column's own. -/
def contractAxis (plan : Plan α) (q1d axis i j node : Nat) (term : Nat → Except Fault α) :
    Except Fault α :=
  total q1d fun k => do
    let b ← plan.b.get [k, node]
    let g ← plan.g.get [k, node]
    return (if i = axis then g else b) * (← term k) * (if j = axis then g else b)

/-- Contracts entry `(i, j)` of the forms of cell `e` along z. -/
def contractCellZ (plan : Plan α) (d1d q1d e i j : Nat) (alongZ : View α) : Except Fault (View α) :=
  sweep q1d (fun alongZ qx => sweep q1d (fun alongZ qy => sweep d1d (fun alongZ dz => do
    let sum ← contractAxis plan q1d 2 i j dz fun qz =>
      plan.op.get [qx + (qy + qz * q1d) * q1d, symmetricIndex i j, e]
    alongZ.set [qx, qy, dz] sum) alongZ) alongZ) alongZ

/-- Contracts along y what is contracted along z. -/
def contractCellY (plan : Plan α) (d1d q1d i j : Nat) (alongZ alongZY : View α) :
    Except Fault (View α) :=
  sweep q1d (fun alongZY qx => sweep d1d (fun alongZY dz => sweep d1d (fun alongZY dy => do
    let sum ← contractAxis plan q1d 1 i j dy fun qy => alongZ.get [qx, qy, dz]
    alongZY.set [qx, dy, dz] sum) alongZY) alongZY) alongZY

/-- Contracts along x what is contracted along z and y, and adds it to all components of a
chunk. -/
def contractCellX (plan : Plan α) (d1d q1d i j : Nat) (alongZY y : View α) :
    Except Fault (View α) :=
  sweep d1d (fun y dz => sweep d1d (fun y dy => sweep d1d (fun y dx => do
    let v ← contractAxis plan q1d 0 i j dx fun qx => alongZY.get [qx, dy, dz]
    sweep 3 (fun y c => y.add [dx, dy, dz, c] v) y) y) y) y

/-- Adds the contribution of entry `(i, j)` of the forms of cell `e` to its chunk. -/
def cellEntry (plan : Plan α) (d1d q1d e i j : Nat) (s : CellState α) :
    Except Fault (CellState α) := do
  let { alongZ, alongZY, y } := s
  let alongZ ← contractCellZ plan d1d q1d e i j alongZ
  let alongZY ← contractCellY plan d1d q1d i j alongZ alongZY
  let y ← contractCellX plan d1d q1d i j alongZY y
  return { alongZ, alongZY, y }

/-- Adds the diagonal of cell `e` to its chunk. -/
def cell (fixed : FixedSizes) (plan : Plan α) : ElementMap (Array α) α := fun scratch e y => do
  let d1d := FixedSizes.pick fixed.d1d plan.d1d
  let q1d := FixedSizes.pick fixed.q1d plan.q1d
  let y ← View.ofBuffer y [d1d, d1d, d1d, 3]
  let (alongZ, rest) ← cut scratch (← Size.product [q1d, q1d, d1d])
  let alongZ ← View.ofBuffer alongZ [q1d, q1d, d1d]
  let (alongZY, rest) ← View.window rest (← Size.product [q1d, d1d, d1d]) [q1d, d1d, d1d]
  let s ← sweep 3 (fun s i => sweep 3 (fun s j => cellEntry plan d1d q1d e i j s) s)
    { alongZ, alongZY, y }
  return (s.alongZ.data ++ s.alongZY.data ++ rest, s.y.data)

/-- Adds the diagonal of operator data `op` to the output, on cells. -/
def onCells [Stored α] (fixed : FixedSizes) (config : Execution) (ne : Nat) (tables : Tables α)
    (op : Array α) : Update α Unit := do
  let plan ← ofExcept (cellPlan fixed config.limits ne tables op (← get).size)
  forElements config plan.chunk (.scratch plan.room) (cell fixed plan)

end TensorDiffusion.Diagonal
