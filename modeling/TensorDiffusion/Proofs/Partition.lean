import Mathlib.Algebra.Polynomial.Derivative
import Mathlib.LinearAlgebra.Lagrange
import TensorDiffusion.Proofs.Bases
import TensorDiffusion.Proofs.Bilinear

/-!
# Partitions of unity

The functions of a basis are the Lagrange polynomials of its nodes, whichever these are and whatever
their number (`LagrangeBasis.evaluate_ofNodes`).  The polynomials sum to the constant one, so at
every point the values sum to one and the derivatives to zero.  The tables at the points of any rule
inherit both (`Tables.partition_of_ofRule`), and over all nodes of an element the derivatives along
an axis cancel (`Tables.Partition.sum_gradientEntry`): what is constant in a field is lost in its
gradient (`Tables.Partition.fieldGradient_affine`).
-/

open Polynomial

namespace TensorDiffusion

variable {K : Type} [Field K]

/-! ### Lagrange polynomials -/

namespace LagrangeBasis

/-- The product of `X - x_m` over the nodes other than node `j`. -/
noncomputable def nodeProduct (nodes : List K) (j : Nat) : K[X] :=
  ∏ m ∈ (Finset.range nodes.length).erase j, (X - C (nodes.getD m 0))

/-- The polynomial that is one at node `j` and zero at the others. -/
noncomputable def polynomial (nodes : List K) (j : Nat) : K[X] :=
  Lagrange.basis (Finset.range nodes.length) (nodes.getD · 0) j

theorem zipIdx_eq_map (nodes : List K) :
    nodes.zipIdx = (List.range nodes.length).map fun m => (nodes.getD m 0, m) :=
  List.ext_getElem (by simp) fun m hm _ => by
    have hm : m < nodes.length := by simpa using hm
    simp [hm]

/-- One more factor of a product over the nodes, and of its derivative. -/
theorem foldl_factors (node : Nat → K) (j n : Nat) (x : K) :
    (List.range n).foldl (fun (p, dp) m =>
        if m = j then (p, dp) else (p * (x - node m), dp * (x - node m) + p)) (1, 0) =
      ((∏ m ∈ (Finset.range n).erase j, (X - C (node m))).eval x,
        (∏ m ∈ (Finset.range n).erase j, (X - C (node m))).derivative.eval x) := by
  induction n with
  | zero => simp
  | succ n ih =>
    rw [List.range_succ, List.foldl_append, ih, List.foldl_cons, List.foldl_nil,
      Finset.range_add_one]
    dsimp only
    by_cases hnj : n = j
    · rw [if_pos hnj, hnj, Finset.erase_insert_eq_erase]
    · have hnew : n ∉ (Finset.range n).erase j := by simp
      rw [if_neg hnj, Finset.erase_insert_of_ne hnj, Finset.prod_insert hnew]
      simp only [eval_mul, eval_sub, eval_X, eval_C, derivative_mul, derivative_sub, derivative_X,
        derivative_C, eval_add, sub_zero, eval_one, Prod.mk.injEq]
      exact ⟨mul_comm _ _, by ring⟩

/-- The factors of a basis function are the value and the derivative of a product. -/
theorem factors_eq (nodes : List K) (j : Nat) (x : K) :
    factors nodes j x =
      ((nodeProduct nodes j).eval x, (nodeProduct nodes j).derivative.eval x) := by
  rw [factors, zipIdx_eq_map, List.foldl_map]
  exact foldl_factors (nodes.getD · 0) j nodes.length x

theorem distanceProduct_eq (nodes : List K) (j : Nat) (x : K) :
    distanceProduct nodes j x = (nodeProduct nodes j).eval x := by
  have hfirst : (factors nodes j x).1 = distanceProduct nodes j x := by
    rw [factors, distanceProduct]
    refine (List.foldl_hom Prod.fst fun p node => ?_).symm
    dsimp only
    split <;> rfl
  rw [← hfirst, factors_eq]

/-- The polynomial of a node is the product, scaled to be one at the node. -/
theorem polynomial_eq (nodes : List K) (j : Nat) :
    polynomial nodes j =
      C (1 / (nodeProduct nodes j).eval (nodes.getD j 0)) * nodeProduct nodes j := by
  simp only [polynomial, Lagrange.basis, Lagrange.basisDivisor, Finset.prod_mul_distrib,
    nodeProduct, eval_prod, eval_sub, eval_X, eval_C, one_div, ← Finset.prod_inv_distrib,
    ← map_prod]

variable [BEq K] {nodes : List K} {basis : LagrangeBasis K}

/-- **The functions of a basis** are the Lagrange polynomials of its nodes. -/
theorem evaluate_ofNodes (h : ofNodes nodes = .ok basis) (x : K) :
    basis.evaluate x = (List.range nodes.length).map fun j =>
      ((polynomial nodes j).eval x, (polynomial nodes j).derivative.eval x) := by
  obtain ⟨hnonempty, hdistinct⟩ := distinct_of_ofNodes h
  obtain rfl := Except.ok.inj ((ofNodes_eq hnonempty hdistinct).symm.trans h)
  refine List.ext_getElem (by simp [evaluate]) fun j hj _ => ?_
  have hj : j < nodes.length := by simpa [evaluate] using hj
  simp [evaluate, factors_eq, distanceProduct_eq, polynomial_eq, hj]

variable [LawfulBEq K]

theorem Distinct.injOn (h : Distinct nodes) :
    Set.InjOn (nodes.getD · 0) (Finset.range nodes.length : Set Nat) := by
  intro i hi j hj hij
  have hi := Finset.mem_range.1 (Finset.mem_coe.1 hi)
  have hj := Finset.mem_range.1 (Finset.mem_coe.1 hj)
  simp only [List.getD_eq_getElem?_getD, List.getElem?_eq_getElem hi, List.getElem?_eq_getElem hj,
    Option.getD_some] at hij
  by_contra hne
  exact beq_eq_false_iff_ne.1 (h i j hi hj hne) hij

/-- The polynomials of distinct nodes sum to one. -/
theorem sum_polynomial (hnonempty : nodes ≠ []) (h : Distinct nodes) :
    ∑ j ∈ Finset.range nodes.length, polynomial nodes j = 1 :=
  Lagrange.sum_basis h.injOn (Finset.nonempty_range_iff.2 fun hlen =>
    hnonempty (List.length_eq_zero_iff.1 hlen))

end LagrangeBasis

/-! ### Tables -/

namespace Tables

/-- At every point the values of the basis functions sum to one and their derivatives to zero. -/
structure Partition (tables : Tables K) : Prop where
  values : ∀ q < tables.nqpt,
    ∑ d ∈ Finset.range tables.ndof, tables.b.getD (q + tables.nqpt * d) 0 = 1
  derivatives : ∀ q < tables.nqpt,
    ∑ d ∈ Finset.range tables.ndof, tables.g.getD (q + tables.nqpt * d) 0 = 0

/-- **Tables of a basis** are a partition of unity, whatever the rule. -/
theorem partition_of_ofRule [BEq K] [LawfulBEq K] [Stored K] {nodes : List K}
    {basis : LagrangeBasis K} {rule : TensorRule K} {tables : Tables K}
    (hbasis : LagrangeBasis.ofNodes nodes = .ok basis) (h : ofRule basis rule = .ok tables) :
    tables.Partition := by
  obtain ⟨hnonempty, hdistinct⟩ := LagrangeBasis.distinct_of_ofNodes hbasis
  have hsum := LagrangeBasis.sum_polynomial hnonempty hdistinct
  have hnodes := LagrangeBasis.numNodes_of_ofNodes hbasis
  have hvalues := LagrangeBasis.evaluate_ofNodes hbasis
  rw [← hnodes] at hvalues hsum
  have hndof := (paired_of_ofRule h).2.1
  have hentries := fun q hq => entries_of_ofRule hvalues h (q := q) hq
  constructor
  · intro q hq
    have hx := hentries q hq
    rw [Finset.sum_congr rfl fun d hd => (hx d (Finset.mem_range.1 hd)).1, hndof,
      ← eval_finsetSum, hsum, eval_one]
  · intro q hq
    have hx := hentries q hq
    rw [Finset.sum_congr rfl fun d hd => (hx d (Finset.mem_range.1 hd)).2, hndof,
      ← eval_finsetSum, ← derivative_sum, hsum, derivative_one, eval_zero]

namespace Partition

variable {tables : Tables K} {dim k : Nat}

theorem sum_axisEntry (h : tables.Partition) {axis q : Nat} (hq : q < tables.nqpt) :
    ∑ d ∈ Finset.range tables.ndof, axisEntry tables.nqpt tables.b tables.g k axis q d =
      if axis = k then 0 else 1 := by
  by_cases haxis : axis = k
  · subst haxis
    simp only [axisEntry_self, if_true, h.derivatives q hq]
  · simp only [axisEntry_ne _ _ _ haxis, if_neg haxis, h.values q hq]

/-- **The derivatives cancel**: over all nodes of an element those of the basis functions along an
axis sum to zero at every point. -/
theorem sum_gradientEntry (h : tables.Partition) (hk : k < dim) (hnqpt : 0 < tables.nqpt)
    (q : Nat) :
    ∑ i ∈ Finset.range (tables.ndof ^ dim),
      gradientEntry dim tables.ndof tables.nqpt tables.b tables.g k q i = 0 := by
  -- A product over the axes, of which the one along `k` vanishes.
  simp only [gradientEntry]
  rw [sum_prod_digits tables.ndof dim fun axis =>
    axisEntry tables.nqpt tables.b tables.g k axis (q / tables.nqpt ^ axis % tables.nqpt)]
  refine Finset.prod_eq_zero (Finset.mem_range.2 hk) ?_
  rw [h.sum_axisEntry (Nat.mod_lt _ hnqpt), if_pos rfl]

/-- **Constants are lost**: the gradient of an affine combination of fields is the combination of
their gradients. -/
theorem fieldGradient_affine (h : tables.Partition) (hnqpt : 0 < tables.nqpt) (hk : k < dim)
    {ι : Type} {s : Finset ι} {x : Nat → K} {y : ι → Nat → K} {a : ι → K} {v : K}
    (hx : ∀ n < tables.ndof ^ dim, x n = ∑ i ∈ s, a i * y i n + v) (q : Nat) :
    fieldGradient dim tables.ndof tables.nqpt tables.b tables.g x k q =
      ∑ i ∈ s, a i * fieldGradient dim tables.ndof tables.nqpt tables.b tables.g (y i) k q := by
  calc fieldGradient dim tables.ndof tables.nqpt tables.b tables.g x k q
      = ∑ n ∈ Finset.range (tables.ndof ^ dim),
          (∑ i ∈ s,
            a i * (gradientEntry dim tables.ndof tables.nqpt tables.b tables.g k q n * y i n) +
          gradientEntry dim tables.ndof tables.nqpt tables.b tables.g k q n * v) := by
        refine Finset.sum_congr rfl fun n hn => ?_
        rw [hx n (Finset.mem_range.1 hn), mul_add, Finset.mul_sum]
        exact congrArg (· + _) (Finset.sum_congr rfl fun i _ => by ring)
    _ = ∑ i ∈ s, ∑ n ∈ Finset.range (tables.ndof ^ dim),
          a i * (gradientEntry dim tables.ndof tables.nqpt tables.b tables.g k q n * y i n) := by
        rw [Finset.sum_add_distrib, ← Finset.sum_mul, h.sum_gradientEntry hk hnqpt, zero_mul,
          add_zero, Finset.sum_comm]
    _ = ∑ i ∈ s, a i * fieldGradient dim tables.ndof tables.nqpt tables.b tables.g (y i) k q :=
        Finset.sum_congr rfl fun i _ => by rw [fieldGradient, Finset.mul_sum]

end Partition

end Tables

end TensorDiffusion
