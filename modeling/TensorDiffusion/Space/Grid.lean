import TensorDiffusion.Buffer
import TensorDiffusion.Space.Basic

/-!
# Grids

Uniform grids of elements: quadrilaterals on a rectangle, hexahedra on a box, and quadrilaterals
on a patch of a cylinder.  An axis with cells of width `h` from `a` on puts the node `xi` of cell
`i` at `a + i h + (xi + 1) / 2 h`.  Elements are ordered with the x index fastest.
-/

namespace TensorDiffusion.Space

variable {α : Type} [NatCast α] [Zero α] [One α] [Add α] [Sub α] [Mul α] [Div α]

/-- The reference nodes `xi` of `[-1, 1]`, moved to cell `i` of width `h` on an axis from `a`. -/
def cellNodes (xi : List α) (a h : α) (i : Nat) : List α :=
  let x₀ := a + (i : α) * h
  xi.map fun x => x₀ + half * (x + 1) * h

/-- The width of the cells of an axis.  An axis without cells has the width of one. -/
def cellWidth (a b : α) (cells : Nat) : α :=
  (b - a) / ((max cells 1 : Nat) : α)

/-- The node coordinates of the cells of a rectangle.  Cell `c` has the index `c % m` along x and
`c / m` along y, where `m` is the number of cells along x. -/
def rectangleNodes (xi : List α) (lo hi : Vector α 2) (cells : Vector Nat 2) : List α :=
  (List.range (cells[0] * cells[1])).flatMap fun c =>
    let xs := cellNodes xi lo[0] (cellWidth lo[0] hi[0] cells[0]) (c % cells[0])
    let ys := cellNodes xi lo[1] (cellWidth lo[1] hi[1] cells[1]) (c / cells[0])
    (xi.flatMap fun _ => xs) ++ (ys.flatMap fun y => xi.map fun _ => y)

/-- The node coordinates of the cells of a box. -/
def boxNodes (xi : List α) (lo hi : Vector α 3) (cells : Vector Nat 3) : List α :=
  (List.range (cells[0] * cells[1] * cells[2])).flatMap fun c =>
    let xs := cellNodes xi lo[0] (cellWidth lo[0] hi[0] cells[0]) (c % cells[0])
    let ys := cellNodes xi lo[1] (cellWidth lo[1] hi[1] cells[1]) (c / cells[0] % cells[1])
    let zs := cellNodes xi lo[2] (cellWidth lo[2] hi[2] cells[2]) (c / (cells[0] * cells[1]))
    (xi.flatMap fun _ => xi.flatMap fun _ => xs)
      ++ (xi.flatMap fun _ => ys.flatMap fun y => xi.map fun _ => y)
      ++ (zs.flatMap fun z => xi.flatMap fun _ => xi.map fun _ => z)

/-- The node coordinates of the cells of a cylinder patch, whose parameters are the angle and the
height. -/
def cylinderNodes [Circular α] (xi : List α) (radius angle height : α) (cells : Vector Nat 2) :
    List α :=
  (List.range (cells[0] * cells[1])).flatMap fun c =>
    let thetas := cellNodes xi 0 (angle / ((max cells[0] 1 : Nat) : α)) (c % cells[0])
    let zs := cellNodes xi 0 (height / ((max cells[1] 1 : Nat) : α)) (c / cells[0])
    (xi.flatMap fun _ => thetas.map fun t => radius * Circular.cos t)
      ++ (xi.flatMap fun _ => thetas.map fun t => radius * Circular.sin t)
      ++ (zs.flatMap fun z => xi.map fun _ => z)

variable [BEq α] [OfDouble α] [Stored α]

/-- A grid of quadrilaterals on the rectangle from `lo` to `hi`. -/
def rectangle (order : Nat) (lo hi : Vector α 2) (cells : Vector Nat 2) :
    Except Fault (Space α) := do
  let basis ← LagrangeBasis.gaussLobatto order
  let d1d := basis.numNodes
  Size.reserve (Stored.bytes α) (← Size.product [d1d, d1d, 2, cells[0], cells[1]])
  ofNodes 2 2 order (rectangleNodes basis.nodes lo hi cells).toArray

/-- A grid of hexahedra on the box from `lo` to `hi`. -/
def box (order : Nat) (lo hi : Vector α 3) (cells : Vector Nat 3) : Except Fault (Space α) := do
  let basis ← LagrangeBasis.gaussLobatto order
  let d1d := basis.numNodes
  let entries ← Size.product [d1d, d1d, d1d, 3]
  Size.reserve (Stored.bytes α) (← Size.mul entries (← Size.product cells.toList))
  ofNodes 3 3 order (boxNodes basis.nodes lo hi cells).toArray

/-- A grid of quadrilaterals on the cylinder of the given radius around the z axis, over the
angles `[0, angle]` and the heights `[0, height]`.  All nodes lie on the cylinder. -/
def cylinder [Circular α] (order : Nat) (radius angle height : α) (cells : Vector Nat 2) :
    Except Fault (Space α) := do
  let basis ← LagrangeBasis.gaussLobatto order
  let d1d := basis.numNodes
  Size.reserve (Stored.bytes α) (← Size.product [d1d, d1d, 3, cells[0], cells[1]])
  ofNodes 2 3 order (cylinderNodes basis.nodes radius angle height cells).toArray

end TensorDiffusion.Space
