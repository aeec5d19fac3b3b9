import TensorDiffusion.Proofs.Exact
import TensorDiffusion.Proofs.Factors

/-!
# Geometric factors are sums over the nodes

Interpolation contracts one axis at a time, through stages whose buffers have other shapes than the
element.  Over a commutative ring it computes its definition (`Geometry.ofNodes_eq_nodal_sums`): the
Jacobian and the coordinates at a point are the sums over the nodes of the element of the node's
coordinates, weighted with the derivative and with the value of the node's basis function there.

* `valueEntry`: the value of a basis function at a point, the product of `B` over the axes.
* `Interpolation.value_eq_sum`: the value of a field, however it is contracted.
* `Geometry.ofNodes_returns_iff`: the factors are computed exactly where there is room for them.
-/

namespace TensorDiffusion

section

open Interpolation

variable {K : Type} [CommRing K] {dim d1d q1d k q : Nat} {b : View K}

/-- The value at the point `q` of the basis function of node `n`: that of the value table on every
axis. -/
def valueEntry (dim d1d q1d : Nat) (b : Array K) (q n : Nat) : K :=
  ∏ axis ∈ Finset.range dim, b.getD (q / q1d ^ axis % q1d + q1d * (n / d1d ^ axis % d1d)) 0

/-- A derivative along no axis of the element is the value. -/
theorem gradientEntry_outside (b g : Array K) (hk : dim ≤ k) (q n : Nat) :
    gradientEntry dim d1d q1d b g k q n = valueEntry dim d1d q1d b q n :=
  Finset.prod_congr rfl fun axis haxis =>
    axisEntry_ne q1d b g (by have := Finset.mem_range.1 haxis; omega) _ _

/-- **The value of a field** is the sum over the nodes, however it is contracted. -/
theorem Interpolation.value_eq_sum (hdim : dim = 2 ∨ dim = 3) (hb : b.shape = [q1d, d1d])
    (hq : q < q1d ^ dim) (x : Nat → K) :
    value dim d1d q1d b x q =
      ∑ n ∈ Finset.range (d1d ^ dim), valueEntry dim d1d q1d b.data q n * x n := by
  have hvalue : value dim d1d q1d b x q = derivative dim d1d q1d b b x q dim := by
    simp only [value, derivative, ite_self]
  rw [hvalue, derivative_eq_fieldGradient hdim hb hb hq, fieldGradient]
  exact Finset.sum_congr rfl fun n _ => by rw [gradientEntry_outside _ _ (Nat.le_refl dim)]

end

namespace Geometry

/-! ### Room -/

/-- Jacobians and coordinates of `ne` elements that can be counted, and that there is room for: for
the factors themselves and, if there are elements, for a worker's workspace. -/
structure Room (α : Type) [Stored α] (dim sdim d1d q1d ne : Nat) : Prop where
  element_lt : d1d ^ dim * sdim < Size.bound
  chunk_lt : q1d ^ dim * sdim * dim + q1d ^ dim * sdim < Size.bound
  factors : Stored.bytes α * ((q1d ^ dim * sdim * dim + q1d ^ dim * sdim) * ne) < Size.bufferBound
  nodes : 0 < ne → d1d ^ dim * sdim < Size.bufferBound
  workspace : 0 < ne →
    Stored.bytes α * (2 * q1d * d1d * d1d + 3 * q1d * q1d * d1d) < Size.bufferBound

section

variable {α : Type} [Stored α] {dim sdim ne : Nat} {tables : Tables α} {nodes : Array α}
  (hk : HasKernel dim sdim) (hd : 0 < tables.ndof) (hq : 0 < tables.nqpt)
  (hb : tables.b.size = tables.nqpt * tables.ndof) (hg : tables.g.size = tables.nqpt * tables.ndof)
  (hnodes : nodes.size = tables.ndof ^ dim * sdim * ne)

include hk hd hq hb hg hnodes

/-- Sizes with room are accepted, and only those. -/
theorem accepted_iff_room :
    (∃ p, Accepted dim sdim tables nodes.size ⟨true, true⟩ p) ↔
      Room α dim sdim tables.ndof tables.nqpt ne := by
  have hdim : 0 < dim := hk.dim_pos.1
  have hsdim : 0 < sdim := hk.dim_pos.2
  have helement : 0 < tables.ndof ^ dim * sdim := Nat.mul_pos (Nat.pow_pos hd) hsdim
  have hpoints : 0 < tables.nqpt ^ dim * sdim := Nat.mul_pos (Nat.pow_pos hq) hsdim
  have hne : nodes.size / (tables.ndof ^ dim * sdim) = ne := by
    rw [hnodes, Nat.mul_div_cancel_left _ helement]
  constructor
  · rintro ⟨p, h⟩
    obtain ⟨hsizes, rfl⟩ := plan_eq_ok.1 h.plan
    have hroom := h.room
    have hchunk : 0 < (planOf dim sdim tables.ndof tables.nqpt nodes.size ⟨true, true⟩).chunk :=
      Nat.lt_of_lt_of_le hpoints (Nat.le_add_left _ _)
    have hloop := h.loop hchunk
    simp only [planOf, hne] at hroom hloop
    exact ⟨hsizes.element_lt, hsizes.chunk_lt, hroom, fun h => (hloop h).element_lt,
      fun h => (hloop h).room⟩
  · intro h
    -- The points are not counted on their own: there are no more of them than coordinates.
    have hle : tables.nqpt ^ dim ≤ tables.nqpt ^ dim * sdim := Nat.le_mul_of_pos_right _ hsdim
    have hsizes : PlanSizes dim sdim tables.ndof tables.nqpt nodes.size ⟨true, true⟩ :=
      { dim_cases := by rcases hk with h | h | h <;> simp [h.1]
        sdim_range := by rcases hk with h | h | h <;> simp [h.1, h.2]
        d1d_pos := hd
        element_lt := h.element_lt
        whole := by rw [hnodes, Nat.mul_mod_right]
        points_lt := by have := h.chunk_lt; omega
        chunk_lt := h.chunk_lt }
    refine ⟨_, plan_eq_ok.2 ⟨hsizes, rfl⟩, fun _ => hq, ?_, fun _ hpos => ?_⟩
    · simp only [planOf, hne]
      exact h.factors
    · simp only [planOf, hne] at hpos
      exact ⟨h.nodes hpos, h.workspace hpos, hb.ge, hg.ge⟩

/-- **The factors are computed** exactly where there is room for them. -/
theorem ofNodes_returns_iff [Zero α] [Add α] [Mul α] (config : Execution) :
    (∃ geometry, ofNodes dim sdim tables nodes ⟨true, true⟩ config = .ok geometry) ↔
      Room α dim sdim tables.ndof tables.nqpt ne :=
  exists_accepted_iff.symm.trans (accepted_iff_room hk hd hq hb hg hnodes)

end

/-! ### The factors -/

/-- Factors are what they hold. -/
theorem Sized.eq_mk {α : Type} {geometry : Geometry α} {dim sdim nq ne : Nat} {want : Quantities}
    {j x : Option (Array α)} (h : geometry.Sized dim sdim nq ne want) (hj : geometry.jacobians = j)
    (hx : geometry.coordinates = x) : geometry = ⟨dim, sdim, nq, ne, j, x⟩ := by
  obtain ⟨-, -, rfl, rfl, rfl, rfl⟩ := h
  subst hj hx
  rfl

section

variable {K : Type} [CommRing K] [Stored K] {dim sdim ne : Nat} {tables : Tables K}
  {nodes : Array K}

/-- **Sum-factorized interpolation computes its definition.**  For faces in the plane or in space
and for cells, with any tables of at least one node and one point per axis: the factors of `ne`
elements are computed exactly where there is room for them.  They have the sizes of the tables, the
Jacobian `[q, i, k, e]` is the sum over the nodes `n` of element `e` of their coordinate `i` times
the derivative along axis `k` of the node's basis function at `q`, and the coordinate `[q, i, e]` is
that sum with the value of the basis function. -/
theorem ofNodes_eq_nodal_sums (hk : HasKernel dim sdim) (hd : 0 < tables.ndof)
    (hq : 0 < tables.nqpt) (hb : tables.b.size = tables.nqpt * tables.ndof)
    (hg : tables.g.size = tables.nqpt * tables.ndof)
    (hnodes : nodes.size = tables.ndof ^ dim * sdim * ne) (config : Execution) :
    ((∃ geometry, ofNodes dim sdim tables nodes ⟨true, true⟩ config = .ok geometry) ↔
      Room K dim sdim tables.ndof tables.nqpt ne) ∧
    ∀ geometry, ofNodes dim sdim tables nodes ⟨true, true⟩ config = .ok geometry →
      let d1d := tables.ndof
      let q1d := tables.nqpt
      let nd := d1d ^ dim
      let nq := q1d ^ dim
      ∃ j x, geometry = ⟨dim, sdim, nq, ne, some j, some x⟩ ∧
        j.size = nq * sdim * dim * ne ∧ x.size = nq * sdim * ne ∧
        ∀ q e i, q < nq → e < ne → i < sdim →
          (∀ k < dim, j.getD (q + nq * (i + sdim * (k + dim * e))) 0 =
            ∑ n ∈ Finset.range nd, gradientEntry dim d1d q1d tables.b tables.g k q n *
              nodes.getD (n + nd * (i + sdim * e)) 0) ∧
          x.getD (q + nq * (i + sdim * e)) 0 =
            ∑ n ∈ Finset.range nd, valueEntry dim d1d q1d tables.b q n *
              nodes.getD (n + nd * (i + sdim * e)) 0 := by
  refine ⟨ofNodes_returns_iff hk hd hq hb hg hnodes config, ?_⟩
  intro geometry h d1d q1d nd nq
  have hdim : dim = 2 ∨ dim = 3 := by rcases hk with h | h | h <;> simp [h.1]
  have hcount : nodes.size / (tables.ndof ^ dim * sdim) = ne := by
    rw [hnodes, Nat.mul_div_cancel_left _ (Nat.mul_pos (Nat.pow_pos hd) hk.dim_pos.2)]
  have hsized := sized_of_ofNodes h
  rw [hcount] at hsized
  obtain ⟨j, hj, hjsize⟩ := hsized.jacobians rfl
  obtain ⟨x, hx, hxsize⟩ := hsized.coordinates rfl
  refine ⟨j, x, ?_, hjsize, hxsize, ?_⟩
  · exact hsized.eq_mk hj hx
  · intro q e i hqlt he hi
    have helt : e < geometry.ne := hsized.ne.symm ▸ he
    obtain ⟨out, p, -, -, -, hne, hviews⟩ := split_of_ofNodes h (.inl rfl)
    obtain ⟨b, g, hbview, hgview, -⟩ := hviews (hne ▸ Nat.zero_lt_of_lt helt)
    obtain ⟨-, hbdata, hbshape⟩ := View.ofBuffer_eq_ok.1 hbview
    obtain ⟨-, hgdata, hgshape⟩ := View.ofBuffer_eq_ok.1 hgview
    constructor
    · intro k hklt
      have hentry := jacobianEntry_of_ofNodes h hbview hgview hj hqlt helt hi hklt
      rw [Interpolation.derivative_eq_fieldGradient hdim hbshape hgshape hqlt, hbdata,
        hgdata] at hentry
      exact hentry
    · have hentry := coordinateEntry_of_ofNodes h hbview hgview hx hqlt helt hi
      rw [Interpolation.value_eq_sum hdim hbshape hqlt, hbdata] at hentry
      exact hentry

end

/-- The linear basis at the point `t` of the unit interval. -/
noncomputable def linearAt (t : ℝ) : Tables ℝ :=
  ⟨2, 1, #[1 - t, t], #[-1, 1], #[1 - t, t], #[-1, 1]⟩

/-- A rectangle of sides 2 and 3 in the plane `z = 1`: the derivative of `y` along the second axis,
and `y` at the midpoint. -/
theorem ofNodes_eq_nodal_sums_rectangle :
    ∃ j x, ofNodes 2 3 (linearAt (1 / 2)) #[0, 2, 0, 2, 0, 0, 3, 3, 1, 1, 1, 1] ⟨true, true⟩ {} =
        .ok ⟨2, 3, 1, 1, some j, some x⟩ ∧
      j.getD 4 0 = 3 ∧ x.getD 1 0 = 3 / 2 := by
  have hroom : Room ℝ 2 3 2 1 1 :=
    ⟨by decide, by decide, by decide, by decide, by decide⟩
  obtain ⟨hreturns, hall⟩ := @ofNodes_eq_nodal_sums ℝ _ _ 2 3 1 (linearAt (1 / 2))
    #[0, 2, 0, 2, 0, 0, 3, 3, 1, 1, 1, 1] (by decide) (by decide) (by decide) rfl rfl rfl {}
  obtain ⟨geometry, hrun⟩ := hreturns.2 hroom
  obtain ⟨j, x, rfl, -, -, hentries⟩ := hall geometry hrun
  obtain ⟨hj, hx⟩ := hentries 0 0 1 (by decide) (by decide) (by decide)
  refine ⟨j, x, hrun, (hj 1 (by decide)).trans ?_, hx.trans ?_⟩
  · norm_num [linearAt, gradientEntry, axisEntry, Finset.sum_range_succ, Finset.prod_range_succ]
  · norm_num [linearAt, valueEntry, Finset.sum_range_succ, Finset.prod_range_succ]

end Geometry

end TensorDiffusion
