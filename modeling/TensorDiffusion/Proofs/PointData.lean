import TensorDiffusion.Operator.Context
import TensorDiffusion.Proofs.Geometry

/-!
# The data of an assembly

What every successful assembly has established about the data at the quadrature points, whatever the
mesh, the rule and the coefficient: the sizes agree, the tables are paired with their transposes,
and a sample belongs to every point (`PointData.compute_wellFormed`).
-/

namespace TensorDiffusion

variable {α : Type}

/-! ### Spaces -/

namespace Space

theorem sdim_pos (space : Space α) : 0 < space.sdim :=
  Nat.lt_of_lt_of_le space.one_le_dim space.dim_le_sdim

/-- The coordinates of the nodes are those of whole elements. -/
theorem size_div_element (space : Space α) :
    space.nodes.size / (space.nodesPerAxis ^ space.dim * space.sdim) = space.numElements := by
  rw [space.nodes_size]
  exact Nat.mul_div_cancel _ (Nat.mul_pos (Nat.pow_pos (Nat.succ_pos _)) space.sdim_pos)

end Space

/-! ### Tables -/

namespace Rule

variable [NatCast α] [Zero α] [One α] [Add α] [Sub α] [Mul α] [Div α] [Neg α] [Stored α]

/-- A Lobatto rule has the number of points that was asked for. -/
theorem length_lobatto {search : RootSearch α} {n : Nat} {rule : Rule α 1}
    (h : lobatto search n = .ok rule) : rule.abscissas.length = n := by
  rw [lobatto, bind_eq_ok] at h
  obtain ⟨_, hn, h⟩ := h
  have hn : 2 ≤ n := require_eq.1 hn
  rw [requestLobatto, bind_eq_ok] at h
  obtain ⟨-, -, h⟩ := h
  obtain ⟨-, -, h⟩ := bind_eq_ok.1 h
  obtain rfl := Except.ok.inj h
  simp [abscissas]
  omega

end Rule

section

variable [Zero α] [One α] [Add α] [Sub α] [Mul α] [Div α] [BEq α] [OfDouble α]

omit [Zero α] [Add α] [OfDouble α] in
theorem LagrangeBasis.numNodes_of_ofNodes {nodes : List α} {basis : LagrangeBasis α}
    (h : ofNodes nodes = .ok basis) : basis.numNodes = nodes.length := by
  obtain ⟨_, -, h⟩ := bind_eq_ok.1 h
  obtain ⟨weights, -, h⟩ := bind_eq_ok.1 h
  obtain rfl := Except.ok.inj h
  rfl

omit [Zero α] [Add α] in
/-- The basis of an order is that of a Lobatto rule. -/
theorem LagrangeBasis.gaussLobatto_eq_ok {order : Nat} {basis : LagrangeBasis α}
    (h : gaussLobatto order = .ok basis) :
    ∃ rule, Rule.lobatto RootSearch.double (order + 1) = .ok rule ∧
      ofNodes (rule.abscissas.map (OfDouble.ofDouble : Float → α)) = .ok basis := by
  rw [gaussLobatto, bind_eq_ok] at h
  obtain ⟨-, -, h⟩ := h
  obtain ⟨n, hn, h⟩ := bind_eq_ok.1 h
  obtain ⟨-, rfl⟩ := Size.add_eq_ok.1 hn
  exact bind_eq_ok.1 h

omit [Zero α] [Add α] in
/-- The basis of an order has a function for every node of an axis. -/
theorem LagrangeBasis.numNodes_gaussLobatto {order : Nat} {basis : LagrangeBasis α}
    (h : gaussLobatto order = .ok basis) : basis.numNodes = order + 1 := by
  obtain ⟨rule, hrule, hbasis⟩ := gaussLobatto_eq_ok h
  rw [numNodes_of_ofNodes hbasis, List.length_map, Rule.length_lobatto hrule]

/-- The basis of a space is that of a Lobatto rule. -/
theorem Space.basis_eq_ok {space : Space α} {basis : LagrangeBasis α}
    (h : space.basis = .ok basis) :
    ∃ rule, Rule.lobatto RootSearch.double space.nodesPerAxis = .ok rule ∧
      LagrangeBasis.ofNodes (rule.abscissas.map (OfDouble.ofDouble : Float → α)) = .ok basis :=
  LagrangeBasis.gaussLobatto_eq_ok h

/-- The basis of a space has a function for every node of an axis. -/
theorem Space.numNodes_basis {space : Space α} {basis : LagrangeBasis α}
    (h : space.basis = .ok basis) : basis.numNodes = space.nodesPerAxis :=
  LagrangeBasis.numNodes_gaussLobatto h

end

namespace Tables

/-- Tables that were accepted are paired with their transposes. -/
theorem paired_of_ofTables [Zero α] {ndof nqpt : Nat} {b g : Array α} {tables : Tables α}
    (h : ofTables ndof nqpt b g = .ok tables) :
    tables.Paired ∧ tables.ndof = ndof ∧ tables.nqpt = nqpt ∧ tables.b = b ∧ tables.g = g := by
  have hrun := h
  rw [ofTables, bind_eq_ok] at h
  obtain ⟨len, hlen, h⟩ := h
  obtain ⟨-, rfl⟩ := Size.mul_eq_ok.1 hlen
  obtain ⟨_, hb, h⟩ := bind_eq_ok.1 h
  obtain ⟨_, hg, h⟩ := bind_eq_ok.1 h
  have hb := require_eq.1 hb
  have hg := require_eq.1 hg
  obtain ⟨bt, hbt, -⟩ := bind_eq_ok.1 h
  rw [transpose, bind_eq_ok] at hbt
  obtain ⟨v, hv, -⟩ := hbt
  have hfits := (View.ofBuffer_eq_ok.1 hv).1
  rw [ofTables_eq hb hg hfits] at hrun
  obtain rfl := Except.ok.inj hrun
  exact ⟨ofTables_paired hb hg, rfl, rfl, rfl, rfl⟩

theorem paired_of_ofRule [Zero α] [One α] [Add α] [Sub α] [Mul α] [Stored α]
    {basis : LagrangeBasis α} {rule : TensorRule α} {tables : Tables α}
    (h : ofRule basis rule = .ok tables) :
    tables.Paired ∧ tables.ndof = basis.numNodes ∧ tables.nqpt = rule.numPoints1d := by
  rw [ofRule, bind_eq_ok] at h
  obtain ⟨len, -, h⟩ := h
  obtain ⟨-, -, h⟩ := bind_eq_ok.1 h
  obtain ⟨b, -, h⟩ := bind_eq_ok.1 h
  obtain ⟨g, -, h⟩ := bind_eq_ok.1 h
  obtain ⟨hpaired, hndof, hnqpt, -⟩ := paired_of_ofTables h
  exact ⟨hpaired, hndof, hnqpt⟩

end Tables

/-! ### Geometry and samples -/

/-- The samples of a coefficient belong to the points of the geometry. -/
theorem Samples.nq_of_take [Zero α] [Stored α] {coefficient : Coefficient α} {geometry : Geometry α}
    {storage : Storage} {config : Execution} {samples : Samples α}
    (h : take coefficient geometry storage config = .ok samples) : samples.nq = geometry.nq := by
  cases coefficient with
  | constant value =>
    cases storage with
    | full =>
      simp only [take, bind_eq_ok, pure_eq_ok, Except.ok.injEq] at h
      obtain ⟨_, -, _, -, rfl⟩ := h
      rfl
    | compressed =>
      obtain rfl := Except.ok.inj h
      rfl
  | samples values =>
    simp only [take, ofValues, bind_eq_ok, pure_eq_ok, Except.ok.injEq] at h
    obtain ⟨_, -, _, -, rfl⟩ := h
    rfl
  | function field =>
    obtain ⟨dim, sdim, nq, ne, jacobians, coordinates⟩ := geometry
    cases coordinates with
    | none => exact nomatch h
    | some coordinates =>
      simp only [take, bind_eq_ok] at h
      obtain ⟨_, -, _, -, _, -, h⟩ := h
      split at h
      · obtain ⟨_, -, h⟩ := bind_eq_ok.1 h
        obtain rfl := Except.ok.inj h
        rfl
      · obtain rfl := Except.ok.inj h
        rfl
  | vector => exact nomatch h
  | matrix => exact nomatch h

/-! ### The data -/

namespace PointData

/-- The data of a successful assembly: the sizes are those of the space and of the rule and within
the limits, the tables are paired, and the samples have one row for every point. -/
structure WellFormed [Zero α] (context : Context α) (data : PointData α) : Prop where
  dim : data.shape.dim = context.space.dim
  sdim : data.shape.sdim = context.space.sdim
  d1d : data.shape.d1d = context.space.nodesPerAxis
  q1d : data.shape.q1d = context.rule.numPoints1d
  ne : data.ne = context.space.numElements
  maxD1d : data.shape.d1d ≤ context.execution.limits.maxD1d
  maxQ1d : data.shape.q1d ≤ context.execution.limits.maxQ1d
  tables : data.tables.Paired
  ndof : data.tables.ndof = data.shape.d1d
  nqpt : data.tables.nqpt = data.shape.q1d
  samples : data.samples.nq = data.shape.q1d ^ data.shape.dim

/-- The elements of a space have two nodes per axis or more. -/
theorem WellFormed.two_le_d1d [Zero α] {context : Context α} {data : PointData α}
    (h : data.WellFormed context) : 2 ≤ data.shape.d1d := by
  rw [h.d1d]
  exact Nat.succ_le_succ context.space.one_le_order

/-- The number of nodes of an element of a space is a size. -/
theorem WellFormed.numNodes_ok [Zero α] {context : Context α} {data : PointData α}
    (h : data.WellFormed context) : data.shape.numNodes = .ok (data.shape.d1d ^ data.shape.dim) := by
  have hlt : data.shape.d1d ^ data.shape.dim < Size.bound := by
    rw [h.d1d, h.dim]
    exact Nat.lt_of_le_of_lt (Nat.le_mul_of_pos_right _ context.space.sdim_pos)
      context.space.element_lt
  exact Size.pow_eq_ok.2 ⟨hlt, rfl⟩

/-- The shape of a context that has a kernel. -/
theorem kernelShape_eq {context : Context α} {shape : Shape}
    (h : kernelShape context = .ok shape) :
    shape.dim = context.space.dim ∧ shape.sdim = context.space.sdim ∧
      shape.d1d = context.space.nodesPerAxis ∧ shape.q1d = context.rule.numPoints1d ∧
      context.execution.limits.admits shape.d1d shape.q1d = true := by
  simp only [kernelShape, bind_eq_ok, pure_eq_ok, Except.ok.injEq] at h
  obtain ⟨shape', hshape, _, hlimits, _, -, _, -, rfl⟩ := h
  have hadmits := insist_eq_ok.1 hlimits
  unfold Shape.of at hshape
  split at hshape
  · exact nomatch hshape
  · split at hshape
    · split at hshape
      · split at hshape
        · obtain rfl := Except.ok.inj hshape
          exact ⟨rfl, rfl, rfl, rfl, hadmits⟩
        · exact nomatch hshape
      · exact nomatch hshape
    · exact nomatch hshape

section

variable [Zero α] [One α] [Add α] [Sub α] [Mul α] [Div α] [BEq α] [OfDouble α] [Stored α]
  {context : Context α} {data : PointData α}

/-- The steps that data came of, in their order. -/
theorem compute_eq_ok (h : compute context = .ok data) :
    ∃ shape basis tables geometry samples, kernelShape context = .ok shape ∧
      context.space.basis = .ok basis ∧ Tables.ofRule basis context.rule = .ok tables ∧
      Geometry.ofNodes context.space.dim context.space.sdim tables context.space.nodes
        (wanted context.coefficient) context.execution = .ok geometry ∧
      Samples.take context.coefficient geometry .compressed context.execution = .ok samples ∧
      data = ⟨shape, context.space.numElements, tables, geometry, samples⟩ := by
  obtain ⟨shape, hshape, h⟩ := bind_eq_ok.1 h
  obtain ⟨basis, hbasis, h⟩ := bind_eq_ok.1 h
  obtain ⟨tables, htables, h⟩ := bind_eq_ok.1 h
  obtain ⟨geometry, hgeometry, h⟩ := bind_eq_ok.1 h
  obtain ⟨samples, hsamples, h⟩ := bind_eq_ok.1 h
  exact ⟨shape, basis, tables, geometry, samples, hshape, hbasis, htables, hgeometry, hsamples,
    (Except.ok.inj h).symm⟩

theorem compute_wellFormed (h : compute context = .ok data) : data.WellFormed context := by
  obtain ⟨shape, basis, tables, geometry, samples, hshape, hbasis, htables, hgeometry, hsamples,
    rfl⟩ := compute_eq_ok h
  obtain ⟨hdim, hsdim, hd1d, hq1d, hadmits⟩ := kernelShape_eq hshape
  obtain ⟨hmaxD1d, hmaxQ1d⟩ := Limits.admits_eq_true.1 hadmits
  obtain ⟨hpaired, hndof, hnqpt⟩ := Tables.paired_of_ofRule htables
  have hnodes : tables.ndof = shape.d1d := by rw [hndof, Space.numNodes_basis hbasis, hd1d]
  have hpoints : tables.nqpt = shape.q1d := by rw [hnqpt, hq1d]
  have hnq : samples.nq = shape.q1d ^ shape.dim := by
    rw [Samples.nq_of_take hsamples, (Geometry.sized_of_ofNodes hgeometry).nq, hpoints, hdim]
  exact ⟨hdim, hsdim, hd1d, hq1d, rfl, hmaxD1d, hmaxQ1d, hpaired, hnodes, hpoints, hnq⟩

end

end PointData

end TensorDiffusion
