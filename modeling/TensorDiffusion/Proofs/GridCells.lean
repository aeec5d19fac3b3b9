import TensorDiffusion.Proofs.Decision
import TensorDiffusion.Proofs.Grids
import TensorDiffusion.Proofs.OnePass
import TensorDiffusion.Proofs.Reproduction

/-!
# Grids conform

What follows from the layout of a grid over exact scalars, for all kinds of grid at once.  An axis
whose reference nodes go from -1 to 1 ends every cell where the next one starts, so neighbouring
cells have the nodes of their common face in common (`Space.Follows.conforms`).  Without a map to
space the cells are affine images of the reference element, so their Jacobians are diagonal
(`Space.Follows.jacobianEntry_eq`), at the points of every rule.
-/

namespace TensorDiffusion

variable {K : Type} [Field K] {dim sdim order : Nat}

/-! ### The interval -/

namespace LagrangeBasis

/-- The Gauss-Lobatto nodes of an order, as scalars: distinct, from -1 to 1. -/
structure SpansInterval (K : Type) [Field K] [BEq K] [OfDouble K] (order : Nat) : Prop where
  distinct : DistinctLobatto K order
  ends : ∀ rule, Rule.lobatto RootSearch.double (order + 1) = .ok rule →
    let nodes : List K := rule.abscissas.map OfDouble.ofDouble
    nodes.head? = some (-1) ∧ nodes.getLast? = some 1

/-- The basis of an order whose elements have sizes. -/
theorem SpansInterval.basis_ok [BEq K] [OfDouble K] (h : SpansInterval K order)
    (horder : 1 ≤ order) (hdim : 2 ≤ dim) (hsdim : 0 < sdim)
    (hlt : (order + 1) ^ dim * sdim < Size.bound) :
    ∃ basis : LagrangeBasis K, gaussLobatto order = .ok basis ∧
      basis.nodes.getD 0 0 = -1 ∧ basis.nodes.getD order 0 = 1 := by
  have hsquare : (order + 1) ^ 2 < (2 ^ 32) ^ 2 :=
    calc (order + 1) ^ 2 ≤ (order + 1) ^ dim := Nat.pow_le_pow_right (Nat.succ_pos order) hdim
      _ ≤ (order + 1) ^ dim * sdim := Nat.le_mul_of_pos_right _ hsdim
      _ < (2 ^ 32) ^ 2 := hlt
  obtain ⟨basis, hbasis, -⟩ := gaussLobatto_ok horder
    ((lt_of_pow_lt_pow_left₀ 2 (Nat.zero_le _) hsquare).trans (by decide)) h.distinct
  obtain ⟨rule, hrule, hnodes⟩ := gaussLobatto_eq_ok hbasis
  have hlength : basis.nodes.length = order + 1 := numNodes_gaussLobatto hbasis
  obtain ⟨hfirst, hlast⟩ := h.ends rule hrule
  rw [← nodes_of_ofNodes hnodes] at hfirst hlast
  rw [List.head?_eq_getElem?] at hfirst
  rw [List.getLast?_eq_getElem?, hlength, Nat.add_sub_cancel] at hlast
  refine ⟨basis, hbasis, ?_, ?_⟩
  · rw [List.getD_eq_getElem?_getD, hfirst, Option.getD_some]
  · rw [List.getD_eq_getElem?_getD, hlast, Option.getD_some]

end LagrangeBasis

/-! ### Parameters -/

theorem half_eq : (half : K) = 1 / 2 := by
  rw [half, one_add_one_eq_two]

namespace UniformGrid

variable {grid : UniformGrid K dim} {xi : List K} {i i' : ∀ s : Fin dim, Fin (grid.cells s)}
  {d d' : Fin dim → Fin (order + 1)} {s : Fin dim}

/-- The first node of the first cell of an axis has the least parameter. -/
theorem parameter_lowest (hfirst : xi.getD 0 0 = -1) (hi : (i s : Nat) = 0) (hd : d s = 0) :
    grid.parameter xi i d s = grid.lo s := by
  rw [parameter, hi, hd, Fin.val_zero, hfirst, Nat.cast_zero, neg_add_cancel, mul_zero, add_zero,
    zero_mul, add_zero]

variable [CharZero K]

/-- The last node of a cell has the parameter of the first node of the next. -/
theorem parameter_shared (hfirst : xi.getD 0 0 = -1) (hlast : xi.getD order 0 = 1)
    (hi : (i' s : Nat) = i s + 1) (hd : d s = Fin.last order) (hd' : d' s = 0) :
    grid.parameter xi i d s = grid.parameter xi i' d' s := by
  rw [parameter, parameter, hi, hd, hd', Fin.val_zero, Fin.val_last, hfirst, hlast, Nat.cast_succ,
    half_eq]
  ring

/-- The last node of the last cell of an axis has the greatest parameter. -/
theorem parameter_highest (hlast : xi.getD order 0 = 1) (hi : (i s : Nat) + 1 = grid.cells s)
    (hd : d s = Fin.last order) : grid.parameter xi i d s = grid.hi s := by
  have hmax : max (grid.cells s) 1 = i s + 1 := by omega
  have hcells : ((i s : Nat) : K) + 1 ≠ 0 := Nat.cast_add_one_ne_zero _
  rw [parameter, hd, Fin.val_last, hlast, width, Space.cellWidth, hmax, Nat.cast_succ,
    half_eq]
  field_simp
  ring

end UniformGrid

namespace Space

/-! ### Conforming spaces -/

/-- A space that follows a grid and conforms: on the face that a cell shares with the next along an
axis both have the same nodes, and the outermost nodes have the outermost parameters. -/
structure Conforms (space : Space K) (order : Nat) (xi : List K) (grid : UniformGrid K dim)
    (chart : (Fin dim → K) → Fin sdim → K) : Prop extends space.Follows order xi grid chart where
  shared : ∀ (s : Fin dim) (i i' : ∀ s : Fin dim, Fin (grid.cells s))
    (d d' : Fin dim → Fin (order + 1)), (i' s : Nat) = i s + 1 → d s = Fin.last order → d' s = 0 →
    (∀ t ≠ s, i' t = i t ∧ d' t = d t) →
    space.point space.nodes (finPiFinEquiv i) (finFunctionFinEquiv d) =
      space.point space.nodes (finPiFinEquiv i') (finFunctionFinEquiv d')
  lowest : ∀ (s : Fin dim) (i : ∀ s : Fin dim, Fin (grid.cells s)) (d : Fin dim → Fin (order + 1)),
    (i s : Nat) = 0 → d s = 0 → grid.parameter xi i d s = grid.lo s
  highest : ∀ (s : Fin dim) (i : ∀ s : Fin dim, Fin (grid.cells s)) (d : Fin dim → Fin (order + 1)),
    (i s : Nat) + 1 = grid.cells s → d s = Fin.last order → grid.parameter xi i d s = grid.hi s

variable {space : Space K} {xi : List K} {grid : UniformGrid K dim}
  {chart : (Fin dim → K) → Fin sdim → K}

/-- **A space that follows a grid conforms** where the nodes of an axis go from one end to the
other. -/
theorem Follows.conforms [CharZero K] (h : space.Follows order xi grid chart)
    (hfirst : xi.getD 0 0 = -1) (hlast : xi.getD order 0 = 1) :
    space.Conforms order xi grid chart where
  toFollows := h
  shared s i i' d d' hi hd hd' hother := by
    have hparameters : grid.parameter xi i d = grid.parameter xi i' d' := by
      funext t
      by_cases ht : t = s
      · rw [ht]
        exact UniformGrid.parameter_shared hfirst hlast hi hd hd'
      · rw [UniformGrid.parameter, UniformGrid.parameter, (hother t ht).1, (hother t ht).2]
    refine Vector.toList_inj.1 ?_
    rw [h.node, h.node, hparameters]
  lowest _ _ _ := UniformGrid.parameter_lowest hfirst
  highest _ _ _ := UniformGrid.parameter_highest hlast

/-! ### Jacobians -/

/-- The basis of a space that follows a grid. -/
theorem Follows.basis_eq [BEq K] [OfDouble K] (h : space.Follows order xi grid chart)
    {basis : LagrangeBasis K} (hbasis : LagrangeBasis.gaussLobatto order = .ok basis) :
    space.basis = .ok basis := by
  rw [Space.basis, h.order_eq, hbasis]

/-- Coordinate `k` of node `n` of element `e`. -/
theorem Follows.nodal_eq (h : space.Follows order xi grid chart) {e n : Nat}
    (he : e < ∏ s : Fin dim, grid.cells s) (hn : n < (order + 1) ^ dim) (k : Fin sdim) :
    nodal ((order + 1) ^ dim) sdim space.nodes e k n =
      chart (grid.parameter xi (finPiFinEquiv.symm ⟨e, he⟩)
        (finFunctionFinEquiv.symm ⟨n, hn⟩)) k := by
  have hnode := h.node (finPiFinEquiv.symm ⟨e, he⟩) (finFunctionFinEquiv.symm ⟨n, hn⟩)
  rw [Equiv.apply_symm_apply, Equiv.apply_symm_apply] at hnode
  obtain ⟨rfl, rfl, rfl, -, -⟩ := h
  refine (space.getElem_point _ e n k.isLt).symm.trans (Option.some.inj ?_)
  simpa using congrArg (·[(k : Nat)]?) hnode

section

variable [BEq K] [LawfulBEq K] [OfDouble K] [Stored K] {basis : LagrangeBasis K}
  {grid : UniformGrid K dim}

/-- **The cells of a grid are affine**, with the same matrix. -/
theorem Follows.jacobianEntry_eq (h : space.Follows order basis.nodes grid id)
    (hbasis : LagrangeBasis.gaussLobatto order = .ok basis) (horder : 1 ≤ order)
    {rule : TensorRule K} {tables : Tables K} (htables : Tables.ofRule basis rule = .ok tables)
    {want : Quantities} {config : Execution} {geometry : Geometry K} {j : Array K}
    (hgeometry : Geometry.ofNodes dim dim tables space.nodes want config = .ok geometry)
    (hj : geometry.jacobians = some j) {q e : Nat} (hq : q < tables.nqpt ^ dim)
    (he : e < space.numElements) (i k : Fin dim) :
    jacobianEntry (tables.nqpt ^ dim) dim dim j q e i k =
      if i = k then half * grid.width i else 0 := by
  obtain ⟨rule', -, hnodes⟩ := LagrangeBasis.gaussLobatto_eq_ok hbasis
  have hcount := LagrangeBasis.numNodes_gaussLobatto hbasis
  have hndof : tables.ndof = order + 1 := (Tables.paired_of_ofRule htables).2.1.trans hcount
  have hevaluates := Tables.evaluates_of_ofRule hnodes htables
  have hdistinct := (LagrangeBasis.distinct_of_ofNodes hnodes).2
  rw [← LagrangeBasis.nodes_of_ofNodes hnodes] at hevaluates hdistinct
  have hne : geometry.ne = space.numElements := by
    have hsize := space.size_div_element
    rw [nodesPerAxis, h.order_eq, h.dim_eq, h.sdim_eq] at hsize
    rw [(Geometry.sized_of_ofNodes hgeometry).ne, hndof, hsize]
  rw [h.numElements_eq] at he
  let cell := finPiFinEquiv.symm ⟨e, he⟩
  refine Geometry.jacobianEntry_affine hgeometry hj (Tables.partition_of_ofRule hnodes htables)
    hevaluates hdistinct ((Nat.succ_le_succ horder).trans_eq hcount.symm) hq
    (hne.symm ▸ h.numElements_eq ▸ he)
    (a := Matrix.of fun i k => if i = k then half * grid.width i else 0)
    (t := fun i => grid.lo i + ((cell i : Nat) + half) * grid.width i) (fun n hn i => ?_) i k
  rw [hndof] at hn ⊢
  rw [h.nodal_eq he hn]
  simp only [Matrix.of_apply, ite_mul, zero_mul, Finset.sum_ite_eq, Finset.mem_univ, if_true]
  have hnode : basis.gridNode n i =
      basis.nodes.getD (finFunctionFinEquiv.symm (⟨n, hn⟩ : Fin ((order + 1) ^ dim)) i) 0 := by
    rw [LagrangeBasis.gridNode, hcount]
    rfl
  rw [hnode]
  show grid.parameter _ _ _ i = _
  rw [UniformGrid.parameter]
  ring

/-- At the points of every rule, wherever there is room for tables and factors, the Jacobians of all
elements are diagonal, with half the widths of a cell. -/
def DiagonalJacobians (space : Space K) (basis : LagrangeBasis K) (width : Fin dim → K) : Prop :=
  ∀ rule : TensorRule K, 0 < rule.numPoints1d →
    Stored.bytes K * (rule.numPoints1d * basis.numNodes) < Size.bufferBound →
    ∃ tables, Tables.ofRule basis rule = .ok tables ∧
      ∀ (want : Quantities) (config : Execution), want.jacobians →
        Geometry.PassFits dim dim tables space.nodes.size want →
        ∃ geometry j, Geometry.ofNodes dim dim tables space.nodes want config = .ok geometry ∧
          geometry.jacobians = some j ∧
          ∀ q < rule.numPoints1d ^ dim, ∀ e < space.numElements, ∀ i k : Fin dim,
            jacobianEntry (rule.numPoints1d ^ dim) dim dim j q e i k =
              if i = k then half * width i else 0

theorem Follows.diagonalJacobians (h : space.Follows order basis.nodes grid id)
    (hbasis : LagrangeBasis.gaussLobatto order = .ok basis) (horder : 1 ≤ order) :
    space.DiagonalJacobians basis grid.width := by
  intro rule hpoints hroom
  obtain ⟨_, -, hnodes⟩ := LagrangeBasis.gaussLobatto_eq_ok hbasis
  have hcount := LagrangeBasis.numNodes_gaussLobatto hbasis
  have hpos : 0 < basis.numNodes := hcount ▸ Nat.succ_pos order
  obtain ⟨tables, htables⟩ :=
    Tables.ofRule_ok (LagrangeBasis.length_weights hnodes) hpos hpoints hroom
  obtain ⟨-, hndof, hnqpt⟩ := Tables.paired_of_ofRule htables
  refine ⟨tables, htables, fun want config hwant hfits => ?_⟩
  have hreturns : ∃ geometry,
      Geometry.ofNodes dim dim tables space.nodes want config = .ok geometry :=
    (Geometry.ofNodes_returns_iff_fits (hndof ▸ hpos) (hnqpt ▸ hpoints)).2 hfits
  obtain ⟨geometry, hgeometry⟩ := hreturns
  obtain ⟨j, hj, -⟩ := (Geometry.sized_of_ofNodes hgeometry).jacobians hwant
  refine ⟨geometry, j, hgeometry, hj, fun q hq e he i k => ?_⟩
  rw [← hnqpt] at hq ⊢
  exact h.jacobianEntry_eq hbasis horder htables hgeometry hj hq he i k

end

end Space

/-! ### Grids -/

section

variable [BEq K] [OfDouble K]

namespace Space

variable [CharZero K] [LawfulBEq K] [Stored K] [Circular K]

/-- **Grids are laid out correctly and conform.**  Over scalars of characteristic zero whose
Gauss-Lobatto nodes are distinct and go from -1 to 1, a rectangle, a box and a patch of a cylinder
are made for every order and every number of cells that there is room for, none included.  Their
nodes follow the grid, neighbouring cells have the nodes of their common face in common, and the
outermost nodes have the outermost parameters; the Jacobians of a rectangle and of a box are
diagonal. -/
theorem grids_conform (horder : 1 ≤ order) (hnodes : LagrangeBasis.SpansInterval K order) :
    (∀ (lo hi : Vector K 2) (cells : Vector Nat 2), FaceGridRoom K order 2 cells →
      ∃ space basis, rectangle order lo hi cells = .ok space ∧ space.basis = .ok basis ∧
        space.Conforms order basis.nodes ⟨lo.get, hi.get, cells.get⟩ id ∧
        space.DiagonalJacobians basis (UniformGrid.width ⟨lo.get, hi.get, cells.get⟩)) ∧
    (∀ (lo hi : Vector K 3) (cells : Vector Nat 3), CellGridRoom K order cells →
      ∃ space basis, box order lo hi cells = .ok space ∧ space.basis = .ok basis ∧
        space.Conforms order basis.nodes ⟨lo.get, hi.get, cells.get⟩ id ∧
        space.DiagonalJacobians basis (UniformGrid.width ⟨lo.get, hi.get, cells.get⟩)) ∧
    ∀ (radius angle height : K) (cells : Vector Nat 2), FaceGridRoom K order 3 cells →
      ∃ space basis, cylinder order radius angle height cells = .ok space ∧
        space.basis = .ok basis ∧
        space.Conforms order basis.nodes ⟨0, ![angle, height], cells.get⟩
          (UniformGrid.onCylinder radius) := by
  refine ⟨fun lo hi cells hroom => ?_, fun lo hi cells hroom => ?_,
    fun radius angle height cells hroom => ?_⟩
  · obtain ⟨basis, hbasis, hfirst, hlast⟩ :=
      hnodes.basis_ok horder (by decide) (by decide) hroom.element_lt
    obtain ⟨space, hspace, hfollows⟩ := rectangle_ok hbasis horder lo hi hroom
    exact ⟨space, basis, hspace, hfollows.basis_eq hbasis, hfollows.conforms hfirst hlast,
      hfollows.diagonalJacobians hbasis horder⟩
  · obtain ⟨basis, hbasis, hfirst, hlast⟩ :=
      hnodes.basis_ok horder (by decide) (by decide) hroom.element_lt
    obtain ⟨space, hspace, hfollows⟩ := box_ok hbasis horder lo hi hroom
    exact ⟨space, basis, hspace, hfollows.basis_eq hbasis, hfollows.conforms hfirst hlast,
      hfollows.diagonalJacobians hbasis horder⟩
  · obtain ⟨basis, hbasis, hfirst, hlast⟩ :=
      hnodes.basis_ok horder (by decide) (by decide) hroom.element_lt
    obtain ⟨space, hspace, hfollows⟩ := cylinder_ok hbasis horder radius angle height hroom
    exact ⟨space, basis, hspace, hfollows.basis_eq hbasis, hfollows.conforms hfirst hlast⟩

end Space

end

/-! ### A rectangle -/

noncomputable instance : Circular ℝ := ⟨Real.cos, Real.sin⟩

theorem LagrangeBasis.spansInterval_one : SpansInterval ℝ 1 where
  distinct := distinctLobatto_one
  ends rule h := by
    obtain rfl := Except.ok.inj h
    exact ⟨congrArg some ofDouble_neg_one, congrArg some ofDouble_one⟩

/-- Two by three cells of a rectangle of sides 4 and 3: the last node of the last cell, and the
Jacobian at the middle of the first. -/
theorem Space.grids_conform_two_by_three :
    ∃ space, rectangle 1 #v[(0 : ℝ), 0] #v[4, 3] #v[2, 3] = .ok space ∧ space.numElements = 6 ∧
      (space.point space.nodes 5 3).toList = [4, 3] ∧
      ∃ geometry j, Geometry.ofNodes 2 2 middleTables space.nodes ⟨true, false⟩ {} = .ok geometry ∧
        geometry.jacobians = some j ∧ jacobianEntry 1 2 2 j 0 0 0 0 = 1 ∧
        jacobianEntry 1 2 2 j 0 0 0 1 = 0 := by
  have hroom : FaceGridRoom ℝ 1 2 #v[2, 3] :=
    ⟨fun k => Nat.lt_of_le_of_lt (volume_take_le_nonemptyVolume _ k) (by decide), by decide⟩
  obtain ⟨space, basis, hspace, hbasis, hconforms, hjacobians⟩ :=
    (grids_conform (by decide) LagrangeBasis.spansInterval_one).1 #v[0, 0] #v[4, 3] #v[2, 3] hroom
  obtain rfl := Except.ok.inj (hbasis.symm.trans (basis_of_order_one hconforms.order_eq))
  have hne : space.numElements = 6 := hconforms.numElements_eq
  refine ⟨space, hspace, hne, ?_, ?_⟩
  · have hlast : ∀ s : Fin 2, (#v[2, 3] : Vector Nat 2)[s] - 1 < (#v[2, 3] : Vector Nat 2)[s] :=
      Fin.forall_fin_two.2 ⟨Nat.lt_succ_self 1, Nat.lt_succ_self 2⟩
    have hnode := hconforms.node (fun s => ⟨_, hlast s⟩) fun _ => Fin.last 1
    have hparameter := fun s => hconforms.highest s (fun s => ⟨_, hlast s⟩) (fun _ => Fin.last 1)
      (Nat.sub_add_cancel (Nat.zero_lt_of_lt (hlast s))) rfl
    rw [funext hparameter] at hnode
    exact hnode.trans (by simp)
  · obtain ⟨tables, htables, hall⟩ := hjacobians middleRule (by decide) (by decide)
    obtain rfl := Except.ok.inj (htables.symm.trans Tables.ofRule_middle)
    have hsize : space.nodes.size = 48 := by
      rw [space.nodes_size, hne, hconforms.dim_eq, hconforms.sdim_eq, hconforms.order_eq]
    have hfits : Geometry.PassFits 2 2 middleTables space.nodes.size ⟨true, false⟩ := by
      rw [hsize]
      exact ⟨by decide, by decide, by decide, by decide, by decide, by decide,
        fun _ _ => ⟨by decide, by decide, by decide, by decide⟩⟩
    obtain ⟨geometry, j, hgeometry, hj, hentries⟩ := hall ⟨true, false⟩ {} rfl hfits
    have hwidth : half * UniformGrid.width (⟨(#v[0, 0] : Vector ℝ 2).get,
        (#v[4, 3] : Vector ℝ 2).get, (#v[2, 3] : Vector Nat 2).get⟩ : UniformGrid ℝ 2) 0 = 1 := by
      norm_num [UniformGrid.width, cellWidth, half, Vector.get]
    have hdiagonal := hentries 0 (by decide) 0 (by omega) 0 0
    rw [if_pos rfl, hwidth] at hdiagonal
    exact ⟨geometry, j, hgeometry, hj, hdiagonal, hentries 0 (by decide) 0 (by omega) 0 1⟩

end TensorDiffusion
