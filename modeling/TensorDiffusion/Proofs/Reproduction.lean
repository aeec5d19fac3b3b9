import TensorDiffusion.Proofs.Conservation
import TensorDiffusion.Proofs.Factors
import TensorDiffusion.Proofs.NodeMaps

/-!
# Affine elements

The tables at the points of a rule hold polynomials of the axes (`Tables.Evaluates`), which reproduce
the coordinates of the reference element: the gradient of coordinate `l` is one along axis `l` and
zero along the others (`Tables.Evaluates.fieldGradient_gridNode`).  So an element whose nodes are
those of the reference element under an affine map has the matrix of the map for its Jacobian, at
every point of every rule (`Geometry.jacobianEntry_affine`).
-/

open Polynomial

open scoped Matrix

namespace TensorDiffusion

variable {K : Type} [Field K]

/-! ### Polynomials of one axis -/

namespace LagrangeBasis

/-- Coordinate `k` of node `n` of the reference element. -/
def gridNode (basis : LagrangeBasis K) (n k : Nat) : K :=
  basis.nodes.getD (n / basis.numNodes ^ k % basis.numNodes) 0

/-- The polynomial of node `d` of an axis in the derivative along axis `k`. -/
noncomputable def onAxis (nodes : List K) (k axis d : Nat) : K[X] :=
  if axis = k then (polynomial nodes d).derivative else polynomial nodes d

variable {nodes : List K} {d : Nat}

/-- A combination of the polynomials of the nodes is differentiated like them. -/
theorem sum_onAxis {c : Nat → K} {p : K[X]}
    (h : ∑ d ∈ Finset.range nodes.length, C (c d) * polynomial nodes d = p) (k axis : Nat) (x : K) :
    ∑ d ∈ Finset.range nodes.length, (onAxis nodes k axis d).eval x * c d =
      (if axis = k then p.derivative else p).eval x := by
  subst h
  by_cases haxis : axis = k
  · rw [if_pos haxis, derivative_sum, eval_finsetSum]
    refine Finset.sum_congr rfl fun d _ => ?_
    rw [onAxis, if_pos haxis, derivative_C_mul, eval_mul, eval_C, mul_comm]
  · rw [if_neg haxis, eval_finsetSum]
    refine Finset.sum_congr rfl fun d _ => ?_
    rw [onAxis, if_neg haxis, eval_mul, eval_C, mul_comm]

variable [BEq K]

theorem nodes_of_ofNodes {basis : LagrangeBasis K} (h : ofNodes nodes = .ok basis) :
    basis.nodes = nodes := by
  obtain ⟨_, -, h⟩ := bind_eq_ok.1 h
  obtain ⟨weights, -, h⟩ := bind_eq_ok.1 h
  obtain rfl := Except.ok.inj h
  rfl

variable [LawfulBEq K]

theorem natDegree_onAxis_le (h : Distinct nodes) (hd : d < nodes.length) (k axis : Nat) :
    (onAxis nodes k axis d).natDegree ≤ nodes.length - 1 := by
  have hpolynomial : (polynomial nodes d).natDegree = nodes.length - 1 := by
    rw [polynomial, Lagrange.natDegree_basis h.injOn (Finset.mem_range.2 hd), Finset.card_range]
  rw [onAxis]
  split
  · exact Nat.le_trans (natDegree_derivative_le _) (hpolynomial ▸ Nat.sub_le _ _)
  · exact hpolynomial.le

/-- A polynomial whose degree is less than the number of nodes is the combination of the polynomials
of the nodes with its values there. -/
theorem sum_eval_polynomial (h : Distinct nodes) {u : K[X]} (hu : u.natDegree < nodes.length) :
    ∑ d ∈ Finset.range nodes.length, C (u.eval (nodes.getD d 0)) * polynomial nodes d = u := by
  have hdegree : u.degree < (Finset.range nodes.length).card := by
    rw [Finset.card_range]
    exact lt_of_le_of_lt degree_le_natDegree (by exact_mod_cast hu)
  exact (Lagrange.eq_interpolate h.injOn hdegree).symm

/-- Two nodes or more interpolate their own coordinate. -/
theorem sum_node_polynomial (h : Distinct nodes) (htwo : 2 ≤ nodes.length) :
    ∑ d ∈ Finset.range nodes.length, C (nodes.getD d 0) * polynomial nodes d = X := by
  have hsum := sum_eval_polynomial h (u := X) (by rw [natDegree_X]; omega)
  simpa only [eval_X] using hsum

end LagrangeBasis

/-! ### Tables -/

namespace Tables

open LagrangeBasis

/-- Tables that hold the values and the derivatives of the polynomials of some nodes, at the points
`x` of an axis. -/
structure Evaluates (tables : Tables K) (nodes : List K) (x : Nat → K) : Prop where
  ndof : tables.ndof = nodes.length
  entry : ∀ k axis q d, q < tables.nqpt → d < tables.ndof →
    axisEntry tables.nqpt tables.b tables.g k axis q d = (onAxis nodes k axis d).eval (x q)

/-- **Tables of a basis** hold its polynomials at the points of the rule. -/
theorem evaluates_of_ofRule [BEq K] [Stored K] {nodes : List K} {basis : LagrangeBasis K}
    {rule : TensorRule K} {tables : Tables K} (hbasis : LagrangeBasis.ofNodes nodes = .ok basis)
    (h : ofRule basis rule = .ok tables) : tables.Evaluates nodes (rule.points1d.getD · 0) := by
  have hnodes := LagrangeBasis.numNodes_of_ofNodes hbasis
  have hvalues := LagrangeBasis.evaluate_ofNodes hbasis
  rw [← hnodes] at hvalues
  refine ⟨(paired_of_ofRule h).2.1.trans hnodes, fun k axis q d hq hd => ?_⟩
  obtain ⟨hvalue, hderivative⟩ := entries_of_ofRule hvalues h hq d hd
  by_cases haxis : axis = k
  · rw [haxis, axisEntry_self, onAxis, if_pos rfl]
    exact hderivative
  · rw [axisEntry_ne _ _ _ haxis, onAxis, if_neg haxis]
    exact hvalue

namespace Evaluates

variable {tables : Tables K} {nodes : List K} {x : Nat → K} {dim k l : Nat}

/-- A field on the nodes of one axis, differentiated or not, is that of a polynomial. -/
theorem sum_axisEntry (h : tables.Evaluates nodes x) {c : Nat → K} {p : K[X]}
    (hp : ∑ d ∈ Finset.range nodes.length, C (c d) * polynomial nodes d = p) (axis : Nat) {q : Nat}
    (hq : q < tables.nqpt) :
    ∑ d ∈ Finset.range tables.ndof, axisEntry tables.nqpt tables.b tables.g k axis q d * c d =
      (if axis = k then p.derivative else p).eval (x q) := by
  rw [← sum_onAxis hp, ← h.ndof]
  refine Finset.sum_congr rfl fun d hd => ?_
  rw [h.entry k axis q d hq (Finset.mem_range.1 hd)]

/-- The gradient of a field that is a product over the axes. -/
theorem fieldGradient_prod (h : tables.Evaluates nodes x) (hnqpt : 0 < tables.nqpt)
    {field : Nat → K} {c : Nat → Nat → K} {p : Nat → K[X]}
    (hfield : ∀ n, field n =
      ∏ axis ∈ Finset.range dim, c axis (n / tables.ndof ^ axis % tables.ndof))
    (hp : ∀ axis, ∑ d ∈ Finset.range nodes.length, C (c axis d) * polynomial nodes d = p axis)
    (q : Nat) :
    fieldGradient dim tables.ndof tables.nqpt tables.b tables.g field k q =
      ∏ axis ∈ Finset.range dim, (if axis = k then (p axis).derivative else p axis).eval
        (x (q / tables.nqpt ^ axis % tables.nqpt)) := by
  simp only [fieldGradient, gradientEntry, hfield, ← Finset.prod_mul_distrib]
  rw [sum_prod_digits tables.ndof dim fun axis d => axisEntry tables.nqpt tables.b tables.g k axis
    (q / tables.nqpt ^ axis % tables.nqpt) d * c axis d]
  exact Finset.prod_congr rfl fun axis _ => h.sum_axisEntry (hp axis) axis (Nat.mod_lt _ hnqpt)

/-- **The coordinates of the reference element are reproduced**: along its own axis a coordinate
has the derivative one, along any other the derivative zero. -/
theorem fieldGradient_gridNode [BEq K] [LawfulBEq K] {basis : LagrangeBasis K}
    (h : tables.Evaluates basis.nodes x) (hdistinct : Distinct basis.nodes)
    (htwo : 2 ≤ basis.nodes.length) (hnqpt : 0 < tables.nqpt) (hk : k < dim) (hl : l < dim)
    (q : Nat) :
    fieldGradient dim tables.ndof tables.nqpt tables.b tables.g (basis.gridNode · l) k q =
      if k = l then 1 else 0 := by
  -- The coordinate is a product over the axes, of which all factors but one are constant.
  have hfield : ∀ n, basis.gridNode n l = ∏ axis ∈ Finset.range dim,
      if axis = l then basis.nodes.getD (n / tables.ndof ^ axis % tables.ndof) 0 else 1 := by
    intro n
    rw [Finset.prod_ite_eq' (Finset.range dim) l, if_pos (Finset.mem_range.2 hl), h.ndof]
    rfl
  have hsum : ∀ axis, ∑ d ∈ Finset.range basis.nodes.length,
      C (if axis = l then basis.nodes.getD d 0 else 1) * polynomial basis.nodes d =
        if axis = l then X else 1 := by
    intro axis
    by_cases haxis : axis = l
    · simp only [if_pos haxis]
      exact sum_node_polynomial hdistinct htwo
    · simp only [if_neg haxis, C_1, one_mul]
      exact sum_polynomial (List.ne_nil_of_length_pos (by omega)) hdistinct
  rw [h.fieldGradient_prod hnqpt hfield hsum]
  by_cases hkl : k = l
  · subst hkl
    rw [if_pos rfl]
    refine Finset.prod_eq_one fun axis _ => ?_
    by_cases haxis : axis = k
    · rw [if_pos haxis, if_pos haxis, derivative_X, eval_one]
    · rw [if_neg haxis, if_neg haxis, eval_one]
  · rw [if_neg hkl]
    refine Finset.prod_eq_zero (Finset.mem_range.2 hk) ?_
    rw [if_pos rfl, if_neg hkl, derivative_one, eval_zero]

end Evaluates

end Tables

/-! ### Elements -/

/-- **The Jacobian of an affine element** is the matrix of its map, at every point of every rule. -/
theorem Geometry.jacobianEntry_affine [BEq K] [LawfulBEq K] [Stored K] {dim sdim q e : Nat}
    {tables : Tables K} {basis : LagrangeBasis K} {x : Nat → K} {nodes j : Array K}
    {want : Quantities} {config : Execution} {geometry : Geometry K}
    (h : ofNodes dim sdim tables nodes want config = .ok geometry)
    (hj : geometry.jacobians = some j) (hpartition : tables.Partition)
    (hevaluates : tables.Evaluates basis.nodes x)
    (hdistinct : LagrangeBasis.Distinct basis.nodes) (htwo : 2 ≤ basis.nodes.length)
    (hq : q < tables.nqpt ^ dim) (he : e < geometry.ne) {a : FinMatrix sdim dim K} {t : Fin sdim → K}
    (haffine : ∀ n < tables.ndof ^ dim, ∀ i : Fin sdim,
      nodal (tables.ndof ^ dim) sdim nodes e i n = ∑ l, a i l * basis.gridNode n l + t i)
    (i : Fin sdim) (k : Fin dim) :
    jacobianEntry (tables.nqpt ^ dim) sdim dim j q e i k = a i k := by
  have hpoints : 0 < tables.nqpt ^ dim := Nat.zero_lt_of_lt hq
  have hnqpt : 0 < tables.nqpt := (Nat.pow_pos_iff.1 hpoints).resolve_right k.pos.ne'
  calc jacobianEntry (tables.nqpt ^ dim) sdim dim j q e i k
      = ∑ l, a i l * fieldGradient dim tables.ndof tables.nqpt tables.b tables.g
          (basis.gridNode · l) k q :=
        (jacobianEntry_eq h hj hq he i.isLt k.isLt).trans
          (hpartition.fieldGradient_affine hnqpt k.isLt (haffine · · i) q)
    _ = ∑ l, a i l * if k = l then 1 else 0 := by
        refine Finset.sum_congr rfl fun l _ => ?_
        rw [hevaluates.fieldGradient_gridNode hdistinct htwo hnqpt k.isLt l.isLt]
        simp only [Fin.ext_iff]
    _ = a i k := by simp only [mul_ite, mul_one, mul_zero, Finset.sum_ite_eq, Finset.mem_univ,
        if_true]

/-- The nodes of element `e` are those of the reference element under the map `ξ ↦ a ξ + t`. -/
def Space.AffineOn (space : Space K) (basis : LagrangeBasis K) (e : Nat)
    (a : FinMatrix space.sdim space.dim K) (t : Vector K space.sdim) : Prop :=
  ∀ n < space.nodesPerElement, space.point space.nodes e n =
    Vector.ofFn fun i => (a *ᵥ fun k => basis.gridNode n k) i + t.get i

namespace PointData

variable [BEq K] [LawfulBEq K] [OfDouble K] [Stored K] {context : Context K} {data : PointData K}
  {basis : LagrangeBasis K} {j : Array K} {q e : Nat}

omit [LawfulBEq K] in
/-- The tables of a context hold the polynomials of the basis of its space, which has distinct
nodes. -/
theorem evaluates_of_compute (hcompute : compute context = .ok data)
    (hbasis : context.space.basis = .ok basis) :
    data.tables.Evaluates basis.nodes (context.rule.points1d.getD · 0) ∧
      LagrangeBasis.Distinct basis.nodes := by
  obtain ⟨_, basis', tables, _, _, -, hbasis', htables, -, -, rfl⟩ := compute_eq_ok hcompute
  obtain rfl := Except.ok.inj (hbasis.symm.trans hbasis')
  obtain ⟨rule, -, hnodes⟩ := Space.basis_eq_ok hbasis
  rw [LagrangeBasis.nodes_of_ofNodes hnodes]
  exact ⟨Tables.evaluates_of_ofRule hnodes htables, (LagrangeBasis.distinct_of_ofNodes hnodes).2⟩

/-- The Jacobian of an affine element of the space of an assembly. -/
theorem jacobianAt_affine (hcompute : compute context = .ok data) (hj : data.jacobians = .ok j)
    (hbasis : context.space.basis = .ok basis)
    (hq : q < context.rule.numPoints1d ^ context.space.dim) (he : e < context.space.numElements)
    {a : FinMatrix context.space.sdim context.space.dim K} {t : Vector K context.space.sdim}
    (haffine : context.space.AffineOn basis e a t) :
    jacobianAt (context.rule.numPoints1d ^ context.space.dim) context.space.sdim
      context.space.dim j q e = a := by
  have hwf := compute_wellFormed hcompute
  obtain ⟨hevaluates, hdistinct⟩ := evaluates_of_compute hcompute hbasis
  have hpartition := partition_of_compute hcompute
  have htwo : 2 ≤ basis.nodes.length := by
    rw [← hevaluates.ndof, hwf.ndof]
    exact hwf.two_le_d1d
  have hpoints : context.rule.numPoints1d = data.tables.nqpt := (hwf.nqpt.trans hwf.q1d).symm
  have hnodes : data.tables.ndof = context.space.nodesPerAxis := hwf.ndof.trans hwf.d1d
  obtain ⟨_, _, tables, geometry, _, -, -, -, hgeometry, -, rfl⟩ := compute_eq_ok hcompute
  have hcount : geometry.ne = context.space.numElements := by
    rw [(Geometry.sized_of_ofNodes hgeometry).ne]
    dsimp only at hnodes
    rw [hnodes, context.space.size_div_element]
  dsimp only at *
  rw [hpoints] at hq ⊢
  ext i k
  refine Geometry.jacobianEntry_affine hgeometry (jacobians_eq_ok.1 hj) hpartition hevaluates
    hdistinct htwo hq (hcount ▸ he) (t := t.get) (fun n hn i => ?_) i k
  rw [hnodes] at hn ⊢
  refine (context.space.getElem_point _ e n i.isLt).symm.trans ?_
  rw [haffine n hn, Vector.getElem_ofFn]
  rfl

end PointData

end TensorDiffusion
