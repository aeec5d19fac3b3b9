import Mathlib.Algebra.BigOperators.Fin
import TensorDiffusion.Space.Grid
import TensorDiffusion.Proofs.Bases
import TensorDiffusion.Proofs.NodeMaps
import TensorDiffusion.Proofs.TensorPoints

/-!
# The layout of grids

The three kinds of grid are one: the nodes of every cell are all tuples of nodes of an axis, moved
to the cell and mapped to space, component by component (`UniformGrid.nodes`).  The position of a
cell is the number whose digits are its index, that of a node of a cell the number whose digits are
its positions on the axes; the first axis is the fastest (`nodal_layOut`).  Where there is room, the
nodes are those of whole elements, so a grid is made (`Space.rectangle_ok`, `Space.box_ok`,
`Space.cylinder_ok`), also without cells.
-/

namespace TensorDiffusion

/-! ### Values at tuples -/

section

variable {α β : Type} {xs : List α} {dim sdim ne : Nat}

/-- The values of a function at all tuples of entries of a list, the first entry fastest. -/
def tuples (xs : List α) : (dim : Nat) → ((Fin dim → α) → β) → List β
  | 0, f => [f Fin.elim0]
  | dim + 1, f => xs.flatMap fun x => tuples xs dim fun rest => f (Fin.snoc rest x)

theorem length_tuples (f : (Fin dim → α) → β) : (tuples xs dim f).length = xs.length ^ dim := by
  induction dim with
  | zero => rfl
  | succ dim ih => simp [tuples, List.length_flatMap, ih, Nat.pow_succ, Nat.mul_comm]

/-- The value at a tuple stands at the number whose digits are the positions of the entries. -/
theorem getElem?_tuples (f : (Fin dim → α) → β) {n : Nat} (hxs : xs.length = n)
    {d : Fin dim → Fin n} {x : Fin dim → α} (hx : ∀ s, xs[(d s : Nat)]? = some (x s)) :
    (tuples xs dim f)[(finFunctionFinEquiv d : Nat)]? = some (f x) := by
  induction dim with
  | zero => exact congrArg (some ∘ f) (Subsingleton.elim _ _)
  | succ dim ih =>
    have hnumber : (finFunctionFinEquiv d : Nat) =
        finFunctionFinEquiv (Fin.init d) + n ^ dim * d (Fin.last dim) := by
      rw [finFunctionFinEquiv_apply, Fin.sum_univ_castSucc, finFunctionFinEquiv_apply]
      simp [Fin.init, Nat.mul_comm]
    have hlength : ∀ y, (tuples xs dim fun rest => f (Fin.snoc rest y)).length = n ^ dim :=
      fun y => hxs ▸ length_tuples _
    rw [hnumber, tuples, getElem?_flatMap_of_length hlength (finFunctionFinEquiv (Fin.init d)).isLt,
      hx, Option.bind_some, ih (d := Fin.init d) (x := Fin.init x) _ fun s => hx s.castSucc]
    exact congrArg (some ∘ f) (Fin.snoc_init_self x)

theorem tuples_two (f : (Fin 2 → α) → β) :
    tuples xs 2 f = xs.flatMap fun y => xs.map fun x => f ![x, y] := by
  have hpair : ∀ x y : α, (Fin.snoc (Fin.snoc Fin.elim0 x : Fin 1 → α) y : Fin 2 → α) = ![x, y] :=
    fun x y => funext (Fin.forall_fin_two.2 ⟨rfl, rfl⟩)
  simp only [tuples, ← List.map_eq_flatMap, hpair]

theorem tuples_three (f : (Fin 3 → α) → β) :
    tuples xs 3 f = xs.flatMap fun z => xs.flatMap fun y => xs.map fun x => f ![x, y, z] := by
  have htriple : ∀ x y z : α, (Fin.snoc ![x, y] z : Fin 3 → α) = ![x, y, z] := by
    intro x y z
    refine funext fun s => ?_
    fin_cases s <;> rfl
  rw [tuples]
  simp only [tuples_two, htriple]

/-- The coordinates of `ne` elements: element by element, and the coordinates of one component after
those of another. -/
def layOut (xs : List α) (ne : Nat) (coordinate : Nat → Fin sdim → (Fin dim → α) → β) : List β :=
  (List.range ne).flatMap fun e => (List.finRange sdim).flatMap fun k =>
    tuples xs dim (coordinate e k)

theorem length_layOut (coordinate : Nat → Fin sdim → (Fin dim → α) → β) :
    (layOut xs ne coordinate).length = ne * (xs.length ^ dim * sdim) := by
  simp [layOut, List.length_flatMap, length_tuples, Nat.mul_comm]

theorem nodal_layOut [Zero β] (coordinate : Nat → Fin sdim → (Fin dim → α) → β) {n : Nat}
    (hxs : xs.length = n) {e : Nat} (he : e < ne) (k : Fin sdim) {d : Fin dim → Fin n}
    {x : Fin dim → α} (hx : ∀ s, xs[(d s : Nat)]? = some (x s)) :
    nodal (n ^ dim) sdim (layOut xs ne coordinate).toArray e k (finFunctionFinEquiv d) =
      coordinate e k x := by
  have hn : (finFunctionFinEquiv d : Nat) < n ^ dim := (finFunctionFinEquiv d).isLt
  have hplace : (finFunctionFinEquiv d : Nat) + n ^ dim * (k + sdim * e) =
      (finFunctionFinEquiv d + n ^ dim * k) + n ^ dim * sdim * e := by ring
  have hcomponent : ∀ e k, (tuples xs dim (coordinate e k)).length = n ^ dim :=
    fun e k => hxs ▸ length_tuples _
  have helement : ∀ e, ((List.finRange sdim).flatMap fun k =>
      tuples xs dim (coordinate e k)).length = n ^ dim * sdim := by
    simp [List.length_flatMap, hcomponent, Nat.mul_comm]
  have hk : (List.finRange sdim)[(k : Nat)]? = some k := by simp
  rw [nodal, hplace, Array.getD_eq_getD_getElem?, List.getElem?_toArray, layOut,
    getElem?_flatMap_of_length helement (pair_lt hn k.isLt), List.getElem?_range he,
    Option.bind_some, getElem?_flatMap_of_length (hcomponent e) hn, hk, Option.bind_some,
    getElem?_tuples _ hxs hx, Option.getD_some]

end

/-! ### Grids of parameters -/

/-- A grid of cells, of one width on every axis, over the parameters from `lo` to `hi`. -/
structure UniformGrid (α : Type) (dim : Nat) where
  lo : Fin dim → α
  hi : Fin dim → α
  cells : Fin dim → Nat

namespace UniformGrid

open Space

section

variable {α : Type} [NatCast α] [One α] [Add α] [Sub α] [Mul α] [Div α] {dim sdim : Nat}

/-- The width of the cells on an axis. -/
def width (grid : UniformGrid α dim) (s : Fin dim) : α :=
  cellWidth (grid.lo s) (grid.hi s) (grid.cells s)

/-- The reference coordinate `x`, moved to cell `i` of an axis. -/
def moved (grid : UniformGrid α dim) (s : Fin dim) (i : Nat) (x : α) : α :=
  grid.lo s + (i : α) * grid.width s + half * (x + 1) * grid.width s

/-- The node coordinates of the cells, whose indices are read from their numbers, under a map of
the parameters to space. -/
def nodes (grid : UniformGrid α dim) (xi : List α) (index : Nat → Fin dim → Nat)
    (chart : (Fin dim → α) → Fin sdim → α) : List α :=
  layOut xi (∏ s : Fin dim, grid.cells s) fun c k x =>
    chart (fun s => grid.moved s (index c s) (x s)) k

/-! ### Cells -/

/-- The index of a quadrilateral on every axis. -/
def faceIndex (cells : Fin 2 → Nat) (c : Nat) : Fin 2 → Nat :=
  ![c % cells 0, c / cells 0]

/-- The index of a hexahedron on every axis. -/
def cellIndex (cells : Fin 3 → Nat) (c : Nat) : Fin 3 → Nat :=
  ![c % cells 0, c / cells 0 % cells 1, c / (cells 0 * cells 1)]

theorem number_face {cells : Fin 2 → Nat} (i : ∀ s : Fin 2, Fin (cells s)) :
    (finPiFinEquiv i : Nat) = i 0 + cells 0 * i 1 := by
  rw [finPiFinEquiv_apply, Fin.sum_univ_two]
  simp [Nat.mul_comm]

theorem number_cell {cells : Fin 3 → Nat} (i : ∀ s : Fin 3, Fin (cells s)) :
    (finPiFinEquiv i : Nat) = i 0 + cells 0 * (i 1 + cells 1 * i 2) := by
  rw [finPiFinEquiv_apply, Fin.sum_univ_three]
  simp [Fin.prod_univ_two]
  ring

theorem faceIndex_eq (cells : Fin 2 → Nat) (i : ∀ s : Fin 2, Fin (cells s)) :
    faceIndex cells (finPiFinEquiv i) = fun s => (i s : Nat) := by
  rw [number_face]
  exact funext (Fin.forall_fin_two.2 ⟨pair_mod _ (i 0).isLt, pair_div _ (i 0).isLt⟩)

theorem cellIndex_eq (cells : Fin 3 → Nat) (i : ∀ s : Fin 3, Fin (cells s)) :
    cellIndex cells (finPiFinEquiv i) = fun s => (i s : Nat) := by
  obtain ⟨hx, hy, hz⟩ := triple_positions (i 2 : Nat) (i 0).isLt (i 1).isLt
  rw [number_cell]
  refine funext fun s => ?_
  fin_cases s
  · exact hx
  · exact hy
  · exact hz

theorem rectangleNodes_eq (xi : List α) (lo hi : Vector α 2) (cells : Vector Nat 2) :
    rectangleNodes xi lo hi cells =
      nodes ⟨lo.get, hi.get, cells.get⟩ xi (faceIndex cells.get) id := by
  rw [rectangleNodes, nodes, layOut]
  simp [tuples_two, cellNodes, List.finRange_succ, List.flatMap_map, moved, width,
    faceIndex, Vector.get]

theorem boxNodes_eq (xi : List α) (lo hi : Vector α 3) (cells : Vector Nat 3) :
    boxNodes xi lo hi cells =
      nodes ⟨lo.get, hi.get, cells.get⟩ xi (cellIndex cells.get) id := by
  rw [boxNodes, nodes, layOut]
  simp [tuples_three, cellNodes, List.finRange_succ, List.flatMap_map, moved, width,
    cellIndex, Fin.prod_univ_three, Vector.get]

end

variable {K : Type} [Field K] {dim sdim : Nat}

/-- The point of the cylinder of a radius at an angle and a height. -/
def onCylinder [Circular K] (radius : K) (p : Fin 2 → K) : Fin 3 → K :=
  ![radius * Circular.cos (p 0), radius * Circular.sin (p 0), p 1]

theorem cylinderNodes_eq [Circular K] (xi : List K) (radius angle height : K)
    (cells : Vector Nat 2) :
    cylinderNodes xi radius angle height cells =
      nodes ⟨0, ![angle, height], cells.get⟩ xi (faceIndex cells.get) (onCylinder radius) := by
  rw [cylinderNodes, nodes, layOut]
  simp [tuples_two, cellNodes, List.finRange_succ, List.flatMap_map, moved, faceIndex, onCylinder,
    width, cellWidth, Function.comp_def, Vector.get]

/-- The parameter on axis `s` of node `d` of cell `i`. -/
def parameter (grid : UniformGrid K dim) (xi : List K) (i : ∀ s : Fin dim, Fin (grid.cells s))
    {d1d : Nat} (d : Fin dim → Fin d1d) (s : Fin dim) : K :=
  grid.lo s + ((i s : Nat) + half * (xi.getD (d s) 0 + 1)) * grid.width s

theorem moved_eq (grid : UniformGrid K dim) (s : Fin dim) (i : Nat) (x : K) :
    grid.moved s i x = grid.lo s + (i + half * (x + 1)) * grid.width s := by
  rw [moved]
  ring

end UniformGrid

/-! ### Spaces of grids -/

namespace Space

section

variable {α : Type} {dim sdim order ne : Nat} {nodes : Array α}

/-- The number of coordinates of an element is computed where it is a size. -/
theorem elementSize_ok (hdim : 1 ≤ dim) (hsdim : 1 ≤ sdim)
    (hlt : (order + 1) ^ dim * sdim < Size.bound) :
    elementSize dim sdim order = .ok ((order + 1) ^ dim * sdim) := by
  have hpow : (order + 1) ^ dim < Size.bound :=
    Nat.lt_of_le_of_lt (Nat.le_mul_of_pos_right _ hsdim) hlt
  have hadd : order + 1 < Size.bound :=
    Nat.lt_of_le_of_lt (Nat.le_self_pow (Nat.ne_of_gt hdim) _) hpow
  rw [elementSize, Size.add_eq_ok.2 ⟨hadd, rfl⟩, ok_bind, Size.pow_eq_ok.2 ⟨hpow, rfl⟩, ok_bind,
    Size.mul_eq_ok.2 ⟨hlt, rfl⟩]

/-- Nodes of whole elements make a space. -/
theorem ofNodes_ok (hdim : 1 ≤ dim) (hle : dim ≤ sdim) (hsdim : sdim ≤ 3) (horder : 1 ≤ order)
    (hlt : (order + 1) ^ dim * sdim < Size.bound)
    (hnodes : nodes.size = ne * ((order + 1) ^ dim * sdim)) :
    ∃ space, ofNodes dim sdim order nodes = .ok space ∧ space.dim = dim ∧ space.sdim = sdim ∧
      space.order = order ∧ space.numElements = ne ∧ space.nodes = nodes := by
  have hpos : 0 < (order + 1) ^ dim * sdim :=
    Nat.mul_pos (Nat.pow_pos (Nat.succ_pos order)) (Nat.lt_of_lt_of_le hdim hle)
  have hsize := elementSize_ok hdim (Nat.le_trans hdim hle) hlt
  have hwhole : nodes.size % ((order + 1) ^ dim * sdim) = 0 := by
    rw [hnodes, Nat.mul_mod_left]
  unfold ofNodes
  rw [dif_pos ⟨hdim, Nat.le_trans hle hsdim⟩, dif_pos ⟨hle, hsdim⟩, dif_pos horder]
  split
  · next h => exact nomatch hsize.symm.trans h
  · next h =>
    obtain rfl := Except.ok.inj (hsize.symm.trans h)
    rw [dif_pos hwhole]
    refine ⟨_, rfl, rfl, rfl, rfl, ?_, rfl⟩
    show nodes.size / _ = ne
    rw [hnodes, Nat.mul_div_cancel ne hpos]

end

variable {K : Type} [Field K] {dim sdim order : Nat}

/-- The nodes of a space are those of a grid under a map of the parameters to space: cells and the
nodes of a cell are numbered with the first axis fastest. -/
structure Follows (space : Space K) (order : Nat) (xi : List K) (grid : UniformGrid K dim)
    (chart : (Fin dim → K) → Fin sdim → K) : Prop where
  dim_eq : space.dim = dim
  sdim_eq : space.sdim = sdim
  order_eq : space.order = order
  numElements_eq : space.numElements = ∏ s : Fin dim, grid.cells s
  node : ∀ (i : ∀ s : Fin dim, Fin (grid.cells s)) (d : Fin dim → Fin (order + 1)),
    (space.point space.nodes (finPiFinEquiv i) (finFunctionFinEquiv d)).toList =
      List.ofFn (chart (grid.parameter xi i d))

/-- **The nodes of a grid** make a space that follows it. -/
theorem ofNodes_grid (hdim : 1 ≤ dim) (hle : dim ≤ sdim) (hsdim : sdim ≤ 3) (horder : 1 ≤ order)
    (hlt : (order + 1) ^ dim * sdim < Size.bound) {xi : List K} (hxi : xi.length = order + 1)
    (grid : UniformGrid K dim) {index : Nat → Fin dim → Nat}
    (hindex : ∀ i : ∀ s : Fin dim, Fin (grid.cells s),
      index (finPiFinEquiv i) = fun s => (i s : Nat))
    (chart : (Fin dim → K) → Fin sdim → K) :
    ∃ space, ofNodes dim sdim order (grid.nodes xi index chart).toArray = .ok space ∧
      space.Follows order xi grid chart := by
  have hsize : (grid.nodes xi index chart).toArray.size =
      (∏ s : Fin dim, grid.cells s) * ((order + 1) ^ dim * sdim) := by
    rw [List.size_toArray, UniformGrid.nodes, length_layOut, hxi]
  obtain ⟨space, hspace, rfl, rfl, rfl, hne, hnodes⟩ := ofNodes_ok hdim hle hsdim horder hlt hsize
  refine ⟨space, hspace, rfl, rfl, rfl, hne, fun i d => ?_⟩
  have hx : ∀ s, xi[(d s : Nat)]? = some (xi.getD (d s) 0) := by
    intro s
    have hlt : (d s : Nat) < xi.length := (d s).isLt.trans_eq hxi.symm
    rw [List.getD_eq_getElem?_getD, List.getElem?_eq_getElem hlt, Option.getD_some]
  refine List.ext_getElem (by simp) fun k hk _ => ?_
  have hk : k < space.sdim := by simpa using hk
  rw [List.getElem_ofFn, Vector.getElem_toList, getElem_point _ _ _ _ hk, hnodes]
  refine (nodal_layOut _ hxi (finPiFinEquiv i).isLt ⟨k, hk⟩ hx).trans ?_
  rw [hindex]
  exact congrArg (chart · ⟨k, hk⟩) (funext fun s => grid.moved_eq s (i s) _)

/-! ### Room -/

/-- Room for the nodes of a grid of quadrilaterals in space of dimension `sdim`. -/
structure FaceGridRoom (α : Type) [Stored α] (order sdim : Nat) (cells : Vector Nat 2) : Prop where
  multiplied : Size.Multiplied [order + 1, order + 1, sdim, cells.get 0, cells.get 1]
  nodes : Stored.bytes α * volume [order + 1, order + 1, sdim, cells.get 0, cells.get 1] <
    Size.bufferBound

/-- Room for the nodes of a grid of hexahedra. -/
structure CellGridRoom (α : Type) [Stored α] (order : Nat) (cells : Vector Nat 3) : Prop where
  ofElement : Size.Multiplied [order + 1, order + 1, order + 1, 3]
  ofCells : Size.Multiplied cells.toList
  nodes : Stored.bytes α * (volume [order + 1, order + 1, order + 1, 3] * volume cells.toList) <
    Size.bufferBound

theorem FaceGridRoom.element_lt {α : Type} [Stored α] {cells : Vector Nat 2}
    (h : FaceGridRoom α order sdim cells) : (order + 1) ^ 2 * sdim < Size.bound := by
  simpa [volume, Nat.pow_two, Nat.mul_assoc] using h.multiplied 3

theorem CellGridRoom.element_lt {α : Type} [Stored α] {cells : Vector Nat 3}
    (h : CellGridRoom α order cells) : (order + 1) ^ 3 * 3 < Size.bound := by
  simpa [volume, Nat.pow_succ, Nat.mul_assoc] using h.ofElement 4

variable [BEq K] [OfDouble K] [Stored K] {basis : LagrangeBasis K}

/-! ### The grids -/

variable (hbasis : LagrangeBasis.gaussLobatto order = .ok basis) (horder : 1 ≤ order)

include hbasis horder

/-- **A rectangle** is a grid of quadrilaterals. -/
theorem rectangle_ok (lo hi : Vector K 2) {cells : Vector Nat 2}
    (hroom : FaceGridRoom K order 2 cells) :
    ∃ space, rectangle order lo hi cells = .ok space ∧
      space.Follows order basis.nodes ⟨lo.get, hi.get, cells.get⟩ id := by
  have hlength := LagrangeBasis.numNodes_gaussLobatto hbasis
  obtain ⟨space, hspace, hfollows⟩ := ofNodes_grid (by decide) (by decide) (by decide) horder
    hroom.element_lt hlength ⟨lo.get, hi.get, cells.get⟩ (UniformGrid.faceIndex_eq cells.get) id
  have hproduct : Size.product [order + 1, order + 1, 2, cells[0], cells[1]] = .ok _ :=
    hroom.multiplied.product_ok
  refine ⟨space, ?_, hfollows⟩
  rw [rectangle, hbasis, ok_bind, hlength]
  dsimp only
  rw [hproduct, ok_bind, Size.reserve_eq_ok.2 hroom.nodes, ok_bind,
    UniformGrid.rectangleNodes_eq]
  exact hspace

/-- **A box** is a grid of hexahedra. -/
theorem box_ok (lo hi : Vector K 3) {cells : Vector Nat 3} (hroom : CellGridRoom K order cells) :
    ∃ space, box order lo hi cells = .ok space ∧
      space.Follows order basis.nodes ⟨lo.get, hi.get, cells.get⟩ id := by
  have hlength := LagrangeBasis.numNodes_gaussLobatto hbasis
  obtain ⟨space, hspace, hfollows⟩ := ofNodes_grid (by decide) (by decide) (by decide) horder
    hroom.element_lt hlength ⟨lo.get, hi.get, cells.get⟩ (UniformGrid.cellIndex_eq cells.get) id
  refine ⟨space, ?_, hfollows⟩
  have hlt := (lt_of_bytes hroom.nodes).trans_le Size.bufferBound_le_bound
  rw [box, hbasis, ok_bind, hlength]
  dsimp only
  rw [hroom.ofElement.product_ok, ok_bind, hroom.ofCells.product_ok, ok_bind,
    Size.mul_eq_ok.2 ⟨hlt, rfl⟩, ok_bind, Size.reserve_eq_ok.2 hroom.nodes, ok_bind,
    UniformGrid.boxNodes_eq]
  exact hspace

/-- **A patch of a cylinder** is a grid of quadrilaterals over the angles and the heights. -/
theorem cylinder_ok [Circular K] (radius angle height : K) {cells : Vector Nat 2}
    (hroom : FaceGridRoom K order 3 cells) :
    ∃ space, cylinder order radius angle height cells = .ok space ∧
      space.Follows order basis.nodes ⟨0, ![angle, height], cells.get⟩
        (UniformGrid.onCylinder radius) := by
  have hlength := LagrangeBasis.numNodes_gaussLobatto hbasis
  obtain ⟨space, hspace, hfollows⟩ := ofNodes_grid (by decide) (by decide) (by decide) horder
    hroom.element_lt hlength ⟨0, ![angle, height], cells.get⟩
    (UniformGrid.faceIndex_eq cells.get) (UniformGrid.onCylinder radius)
  have hproduct : Size.product [order + 1, order + 1, 3, cells[0], cells[1]] = .ok _ :=
    hroom.multiplied.product_ok
  refine ⟨space, ?_, hfollows⟩
  rw [cylinder, hbasis, ok_bind, hlength]
  dsimp only
  rw [hproduct, ok_bind, Size.reserve_eq_ok.2 hroom.nodes, ok_bind,
    UniformGrid.cylinderNodes_eq]
  exact hspace

end Space

end TensorDiffusion
