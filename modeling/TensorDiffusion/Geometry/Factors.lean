import TensorDiffusion.Elements
import TensorDiffusion.Geometry.Interpolation
import TensorDiffusion.Matrix

/-!
# Geometric factors

The Jacobians of the element maps at the quadrature points, in the layout `(NQ, SDIM, DIM, NE)`,
and the physical coordinates of the points, in the layout `(NQ, SDIM, NE)`.  Factors describe one
position of the nodes.
-/

namespace TensorDiffusion

/-- Geometric data at every quadrature point of every element. -/
structure Geometry (α : Type) where
  dim : Nat
  sdim : Nat
  /-- The number of quadrature points of an element. -/
  nq : Nat
  /-- The number of elements. -/
  ne : Nat
  /-- Entry `[q, i, k, e]` is the derivative of coordinate `i` along reference axis `k`. -/
  jacobians : Option (Array α)
  coordinates : Option (Array α)
  deriving BEq

namespace Geometry

variable {α : Type}

/-- The sizes of an interpolation of all elements. -/
structure Plan where
  layout : ChunkLayout
  /-- The number of nodes of an element. -/
  nd : Nat
  /-- The number of elements. -/
  ne : Nat
  /-- The length of an element's chunk. -/
  chunk : Nat

/-- Checks the sizes of an interpolation of elements with `len` node coordinates in all. -/
def plan (dim sdim : Nat) (tables : Tables α) (len : Nat) (want : Quantities) :
    Except Fault Plan := do
  require (dim = 2 ∨ dim = 3) .geometryDimension
  require (dim ≤ sdim ∧ sdim ≤ 3) .geometrySpace
  let nd ← Size.pow tables.ndof dim
  let nq ← Size.pow tables.nqpt dim
  let elementSize ← Size.mul nd sdim
  require ((← Size.rem len elementSize) = 0) .nodesShape
  if want.jacobians then
    discard <| Size.product [nq, sdim, dim]
  if want.coordinates then
    discard <| Size.mul nq sdim
  let layout : ChunkLayout := { want, nq, sdim, dim }
  let chunk ← Size.add layout.jacobiansLen layout.coordinatesLen
  return { layout, nd, ne := len / elementSize, chunk }

/-- The number of entries of the scratch buffer of a worker that interpolates elements with `d1d`
nodes and `q1d` points per axis. -/
def scratchLen (d1d q1d : Nat) : Except Fault Nat := do
  Size.add (← Size.product [2, q1d, d1d, d1d]) (← Size.product [3, q1d, q1d, d1d])

/-- Interpolates the nodes of element `e` into its chunk, which holds the Jacobians followed by the
coordinates. -/
def element [Zero α] [Add α] [Mul α] (tables : Tables α) (plan : Plan) (nodes : Array α) :
    ElementMap (Array α) α := fun scratch e chunk => do
  let { layout, nd, .. } := plan
  let nodes ← slice nodes (e * nd * layout.sdim) ((e + 1) * nd * layout.sdim)
  let (jacobians, coordinates) ← cut chunk layout.jacobiansLen
  if layout.dim = 2 then interpolateFace tables layout nodes scratch jacobians coordinates
  else interpolateCell tables layout nodes scratch jacobians coordinates

/-- The chunks of all elements, one after the other. -/
def chunks [Zero α] [Add α] [Mul α] [Stored α] (tables : Tables α) (plan : Plan)
    (nodes : Array α) (config : Execution) : Except Fault (Array α) := do
  let len ← Size.mul plan.chunk plan.ne
  Size.reserve (Stored.bytes α) len
  if 0 < plan.chunk ∧ 0 < plan.ne then
    let scratch : Workspace (Array α) := .scratch (← scratchLen tables.ndof tables.nqpt)
    Update.fill (forElements config plan.chunk scratch (element tables plan nodes))
      (← filled len 0)
  else return #[]

/-- The part `start … start + len` of every chunk of length `chunk`, one after the other. -/
def parts (buf : Array α) (chunk start len : Nat) : Except Fault (Array α) := do
  require (chunk ≠ 0) .emptyChunks
  (List.range (buf.size / chunk)).foldlM (fun out e => do
    return out ++ (← slice buf (e * chunk + start) (e * chunk + start + len))) #[]

/-- The factors wanted of elements with the given nodes, of layout `(D1D^dim, SDIM, NE)`.  One
pass fills a chunk per element with all that is wanted; the chunks are then taken apart. -/
def ofNodes [Zero α] [Add α] [Mul α] [Stored α] (dim sdim : Nat) (tables : Tables α)
    (nodes : Array α) (want : Quantities) (config : Execution) : Except Fault (Geometry α) := do
  let plan ← plan dim sdim tables nodes.size want
  let { layout, ne, chunk, .. } := plan
  let output ← chunks tables plan nodes config
  let jacobians ←
    if want.jacobians then some <$> parts output chunk 0 layout.jacobiansLen else pure none
  let coordinates ←
    if want.coordinates then
      some <$> parts output chunk layout.jacobiansLen layout.coordinatesLen
    else pure none
  return { dim, sdim, nq := layout.nq, ne, jacobians, coordinates }

/-- Adopts Jacobians of layout `(NQ, SDIM, DIM, NE)`. -/
def ofJacobians (dim sdim nq ne : Nat) (jacobians : Array α) : Except Fault (Geometry α) := do
  require (jacobians.size = (← Size.product [nq, sdim, dim, ne])) .jacobiansShape
  return { dim, sdim, nq, ne, jacobians := some jacobians, coordinates := none }

/-- The factors whose Jacobian at point `q` of element `e` is `jacobian q e`, a matrix of shape
`SDIM × DIM`.  The matrices are asked for element by element. -/
def ofFunction [Stored α] (dim sdim nq ne : Nat)
    (jacobian : Nat → Nat → Except Fault (Matrix α)) : Except Fault (Geometry α) := do
  let count ← Size.product [nq, sdim, dim, ne]
  Size.reserve (Stored.bytes α) count
  View.checkShape count [nq, sdim, dim, ne]
  let matrices ← tabulate (nq * ne) fun p => do
    let m ← jacobian (p % nq) (p / nq)
    require (m.rows = sdim ∧ m.cols = dim) .jacobianShape
    return m
  let data ← tabulate count fun o => do
    let m ← slot matrices (o % nq + nq * (o / (nq * sdim * dim)))
    m.get (o / nq % sdim) (o / (nq * sdim) % dim)
  ofJacobians dim sdim nq ne data

/-- The Jacobian at point `q` of element `e`, as a matrix of shape `SDIM × DIM`. -/
def jacobianMatrix? [Stored α] (geometry : Geometry α) (q e : Nat) :
    Except Fault (Option (Matrix α)) :=
  match geometry.jacobians with
  | none => .ok none
  | some jacobians => do
    let j ← View.ofBuffer jacobians [geometry.nq, geometry.sdim, geometry.dim, geometry.ne]
    some <$> Matrix.build geometry.sdim geometry.dim fun i k => j.get [q, i, k, e]

end Geometry

end TensorDiffusion
