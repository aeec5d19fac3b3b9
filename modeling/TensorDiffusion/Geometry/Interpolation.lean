import TensorDiffusion.Basis.Tables

/-!
# Interpolation of element nodes

The physical coordinates of the quadrature points of one element and the Jacobians of its map,
from the coordinates of its nodes.  The result is written to a chunk that holds the Jacobians in
the layout `(NQ, SDIM, DIM)` followed by the coordinates in the layout `(NQ, SDIM)`, each part only
if it is wanted.
-/

namespace TensorDiffusion

/-- Which geometric quantities are wanted. -/
structure Quantities where
  jacobians : Bool
  coordinates : Bool
  deriving Repr, DecidableEq

/-- The parts of an element's chunk. -/
structure ChunkLayout where
  want : Quantities
  nq : Nat
  sdim : Nat
  dim : Nat

namespace ChunkLayout

variable {α : Type}

/-- The number of entries of the Jacobians. -/
def jacobiansLen (layout : ChunkLayout) : Nat :=
  if layout.want.jacobians then layout.nq * layout.sdim * layout.dim else 0

/-- The number of entries of the coordinates. -/
def coordinatesLen (layout : ChunkLayout) : Nat :=
  if layout.want.coordinates then layout.nq * layout.sdim else 0

end ChunkLayout

/-- Where the results of an element go: the parts of its chunk that are wanted. -/
structure Targets (α : Type) where
  /-- The Jacobians, of shape `(NQ, SDIM, DIM)`. -/
  jacobians : Option (View α)
  /-- The coordinates, of shape `(NQ, SDIM)`. -/
  coordinates : Option (View α)

namespace Targets

variable {α : Type}

/-- Views a part of a chunk if it is wanted. -/
def viewPart (wanted : Bool) (part : Array α) (shape : List Nat) :
    Except Fault (Option (View α)) :=
  if wanted then some <$> View.ofBuffer part shape else .ok none

/-- Views the parts of a chunk that are wanted. -/
def ofParts (layout : ChunkLayout) (nq : Nat) (jacobians coordinates : Array α) :
    Except Fault (Targets α) := do
  let { want, sdim, dim, .. } := layout
  let coordinates ← viewPart want.coordinates coordinates [nq, sdim]
  let jacobians ← viewPart want.jacobians jacobians [nq, sdim, dim]
  return { jacobians, coordinates }

/-- Stores the derivatives of coordinate `s` at the point `q` along the axes `k`, `k + 1` and so
on. -/
def setDerivatives (q s : Nat) : Nat → List α → View α → Except Fault (View α)
  | _, [],      j => .ok j
  | k, d :: ds, j => do setDerivatives q s (k + 1) ds (← j.set [q, s, k] d)

/-- Stores coordinate `s` of the point `q` and its derivatives, where they are wanted. -/
def store (targets : Targets α) (q s : Nat) (value : α) (derivatives : List α) :
    Except Fault (Targets α) := do
  let coordinates ← targets.coordinates.mapM fun c => c.set [q, s] value
  let jacobians ← targets.jacobians.mapM fun j => setDerivatives q s 0 derivatives j
  return { jacobians, coordinates }

/-- The chunk, put together again.  A part that is not wanted is as it was. -/
def chunk (targets : Targets α) (jacobians coordinates : Array α) : Array α :=
  targets.jacobians.elim jacobians View.data ++ targets.coordinates.elim coordinates View.data

end Targets

variable {α : Type} [Zero α] [Add α] [Mul α]

/-- The sum over the `n` entries of a row of a table, each times a term. -/
def contract (n : Nat) (table : View α) (row : Nat) (term : Nat → Except Fault α) :
    Except Fault α :=
  total n fun k => do return (← table.get [row, k]) * (← term k)

/-! ### Faces -/

/-- What a face works on: the parts of the scratch buffer, with a place for every point of the x
axis and node of the y axis, and the parts of its chunk. -/
structure FaceStages (α : Type) where
  /-- The values on the lines along x. -/
  bx : Array α
  /-- The derivatives on the lines along x. -/
  gx : Array α
  targets : Targets α

/-- Contracts coordinate `s` of the nodes along x. -/
def faceAlongX (d1d q1d : Nat) (b g x : View α) (s : Nat) (stages : FaceStages α) :
    Except Fault (FaceStages α) :=
  sweep d1d (fun stages dy => sweep q1d (fun stages qx => do
    let { bx, gx, targets } := stages
    let u ← contract d1d b qx fun dx => x.get [dx, dy, s]
    let du ← contract d1d g qx fun dx => x.get [dx, dy, s]
    let i := qx + q1d * dy
    return { bx := ← put bx i u, gx := ← put gx i du, targets }) stages) stages

/-- Contracts coordinate `s` along y, and stores it. -/
def faceAlongY (d1d q1d : Nat) (b g : View α) (s : Nat) (stages : FaceStages α) :
    Except Fault (FaceStages α) :=
  sweep q1d (fun stages qy => sweep q1d (fun stages qx => do
    let { bx, gx, targets } := stages
    let u ← contract d1d b qy fun dy => slot bx (qx + q1d * dy)
    let ux ← contract d1d b qy fun dy => slot gx (qx + q1d * dy)
    let uy ← contract d1d g qy fun dy => slot bx (qx + q1d * dy)
    return { bx, gx, targets := ← targets.store (qx + q1d * qy) s u [ux, uy] }) stages) stages

/-- Interpolates the nodes of a face with the tables into the parts of its chunk. -/
def interpolateFace (tables : Tables α) (layout : ChunkLayout)
    (nodes scratch jacobians coordinates : Array α) : Except Fault (Array α × Array α) := do
  let d1d := tables.ndof
  let q1d := tables.nqpt
  let b ← View.ofBuffer tables.b [q1d, d1d]
  let g ← View.ofBuffer tables.g [q1d, d1d]
  let x ← View.ofBuffer nodes [d1d, d1d, layout.sdim]
  let targets ← Targets.ofParts layout (← Size.mul q1d q1d) jacobians coordinates
  let len ← Size.mul q1d d1d
  let (bx, rest) ← cut scratch len
  let gx ← slice rest 0 len
  let last ← sweep layout.sdim (fun stages s => do
    faceAlongY d1d q1d b g s (← faceAlongX d1d q1d b g x s stages)) { bx, gx, targets }
  return (last.bx ++ last.gx ++ rest.extract len rest.size,
    last.targets.chunk jacobians coordinates)

/-! ### Cells -/

/-- What a cell works on: the parts of the scratch buffer and of its chunk.  There is a place for
every point of the x axis and node of the y and z axes, and then for every point of the x and y
axes and node of the z axis. -/
structure CellStages (α : Type) where
  /-- The values on the lines along x. -/
  bx : Array α
  /-- The derivatives on the lines along x. -/
  gx : Array α
  /-- The values on the planes of x and y. -/
  bxby : Array α
  /-- The derivatives along x on the planes of x and y. -/
  gxby : Array α
  /-- The derivatives along y on the planes of x and y. -/
  bxgy : Array α
  targets : Targets α

/-- Contracts coordinate `s` of the nodes along x. -/
def cellAlongX (d1d q1d : Nat) (b g x : View α) (s : Nat) (stages : CellStages α) :
    Except Fault (CellStages α) :=
  sweep d1d (fun stages dz => sweep d1d (fun stages dy => sweep q1d (fun stages qx => do
    let { bx, gx, bxby, gxby, bxgy, targets } := stages
    let u ← contract d1d b qx fun dx => x.get [dx, dy, dz, s]
    let du ← contract d1d g qx fun dx => x.get [dx, dy, dz, s]
    let i := qx + q1d * (dy + d1d * dz)
    return { bx := ← put bx i u, gx := ← put gx i du, bxby, gxby, bxgy, targets })
    stages) stages) stages

/-- Contracts along y what is contracted along x. -/
def cellAlongY (d1d q1d : Nat) (b g : View α) (stages : CellStages α) :
    Except Fault (CellStages α) :=
  sweep d1d (fun stages dz => sweep q1d (fun stages qy => sweep q1d (fun stages qx => do
    let { bx, gx, bxby, gxby, bxgy, targets } := stages
    let u ← contract d1d b qy fun dy => slot bx (qx + q1d * (dy + d1d * dz))
    let ux ← contract d1d b qy fun dy => slot gx (qx + q1d * (dy + d1d * dz))
    let uy ← contract d1d g qy fun dy => slot bx (qx + q1d * (dy + d1d * dz))
    let o := qx + q1d * (qy + q1d * dz)
    return {
      bx, gx, targets
      bxby := ← put bxby o u, gxby := ← put gxby o ux, bxgy := ← put bxgy o uy }) stages) stages)
    stages

/-- Contracts coordinate `s` along z, and stores it. -/
def cellAlongZ (d1d q1d : Nat) (b g : View α) (s : Nat) (stages : CellStages α) :
    Except Fault (CellStages α) :=
  sweep q1d (fun stages qz => sweep q1d (fun stages qy => sweep q1d (fun stages qx => do
    let { bx, gx, bxby, gxby, bxgy, targets } := stages
    let u ← contract d1d b qz fun dz => slot bxby (qx + q1d * (qy + q1d * dz))
    let ux ← contract d1d b qz fun dz => slot gxby (qx + q1d * (qy + q1d * dz))
    let uy ← contract d1d b qz fun dz => slot bxgy (qx + q1d * (qy + q1d * dz))
    let uz ← contract d1d g qz fun dz => slot bxby (qx + q1d * (qy + q1d * dz))
    let targets ← targets.store (qx + q1d * (qy + q1d * qz)) s u [ux, uy, uz]
    return { bx, gx, bxby, gxby, bxgy, targets }) stages) stages) stages

/-- Interpolates the nodes of a cell with the tables into the parts of its chunk. -/
def interpolateCell (tables : Tables α) (layout : ChunkLayout)
    (nodes scratch jacobians coordinates : Array α) : Except Fault (Array α × Array α) := do
  let d1d := tables.ndof
  let q1d := tables.nqpt
  let nq ← Size.product [q1d, q1d, q1d]
  let b ← View.ofBuffer tables.b [q1d, d1d]
  let g ← View.ofBuffer tables.g [q1d, d1d]
  let x ← View.ofBuffer nodes [d1d, d1d, d1d, layout.sdim]
  let targets ← Targets.ofParts layout nq jacobians coordinates
  let stage1Len ← Size.product [q1d, d1d, d1d]
  let stage2Len ← Size.product [q1d, q1d, d1d]
  let (stage1, stage2) ← cut scratch (← Size.mul 2 stage1Len)
  let (bx, gx) ← cut stage1 stage1Len
  let (bxby, rest) ← cut stage2 stage2Len
  let (gxby, rest) ← cut rest stage2Len
  let bxgy ← slice rest 0 stage2Len
  let last ← sweep layout.sdim (fun stages s => do
    let stages ← cellAlongX d1d q1d b g x s stages
    let stages ← cellAlongY d1d q1d b g stages
    cellAlongZ d1d q1d b g s stages) { bx, gx, bxby, gxby, bxgy, targets }
  return (last.bx ++ last.gx ++ last.bxby ++ last.gxby ++ last.bxgy
      ++ rest.extract stage2Len rest.size,
    last.targets.chunk jacobians coordinates)

end TensorDiffusion
