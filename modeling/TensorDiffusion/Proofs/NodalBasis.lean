import TensorDiffusion.Proofs.Reproduction

/-!
# The nodal basis reproduces polynomials

Over an exact field a basis is made on every list of nodes that has one and repeats none, and on no
other list (`LagrangeBasis.ofNodes_reproduces`).  What it evaluates to at a point, a node or not,
gives the value and the derivative there of every polynomial of at most the order of the basis, from
the values of the polynomial at the nodes (`LagrangeBasis.Reproduces`).

* `foldlM_error`, `mapM_error`: a loop that failed did so in one of its steps.
* `LagrangeBasis.ofNodes_of_repeated`: the fault of nodes of which two are the same.
* `LagrangeBasis.reproduces`: the running products and their derivatives, scaled, reproduce.
-/

open Polynomial

namespace TensorDiffusion

/-! ### Loops that fail -/

/-- A fold that failed did so in one of its steps. -/
theorem foldlM_error {β σ : Type} {l : List β} {f : σ → β → Except Fault σ} {start : σ}
    {fault : Fault} (h : l.foldlM f start = .error fault) :
    ∃ a ∈ l, ∃ s, f s a = .error fault := by
  induction l generalizing start with
  | nil => exact nomatch h
  | cons b l ih =>
    rw [List.foldlM_cons] at h
    rcases bind_eq_error.1 h with hstep | ⟨s, -, hrest⟩
    · exact ⟨b, List.mem_cons_self, start, hstep⟩
    · obtain ⟨a, ha, hfail⟩ := ih hrest
      exact ⟨a, List.mem_cons_of_mem b ha, hfail⟩

/-- A list whose entries could not all be mapped has one that could not. -/
theorem mapM_error {β γ : Type} {l : List β} {f : β → Except Fault γ} {fault : Fault}
    (h : l.mapM f = .error fault) : ∃ a ∈ l, f a = .error fault := by
  induction l with
  | nil => exact nomatch h
  | cons b l ih =>
    rw [List.mapM_cons] at h
    rcases bind_eq_error.1 h with hstep | ⟨c, -, hrest⟩
    · exact ⟨b, List.mem_cons_self, hstep⟩
    · rcases bind_eq_error.1 hrest with hrest | ⟨_, -, hlast⟩
      · obtain ⟨a, ha, hfail⟩ := ih hrest
        exact ⟨a, List.mem_cons_of_mem b ha, hfail⟩
      · exact nomatch hlast

namespace LagrangeBasis

/-! ### Nodes that are refused -/

section

variable {α : Type} [One α] [Sub α] [Mul α] [BEq α]

theorem distances_error {nodes : List α} {j : Nat} {xj : α} {fault : Fault}
    (h : distances nodes j xj = .error fault) : fault = .violated .repeatedNode := by
  obtain ⟨⟨xm, m⟩, -, product, hstep⟩ := foldlM_error h
  dsimp only at hstep
  split at hstep
  · cases hstep
  · rcases bind_eq_error.1 hstep with hrequire | ⟨_, -, hreturn⟩
    · exact require_error hrequire
    · cases hreturn

variable [Div α]

/-- **Nodes of which two are the same** are refused, and nothing else is reported. -/
theorem ofNodes_of_repeated {nodes : List α} (hnonempty : nodes ≠ []) (h : ¬ Distinct nodes) :
    ofNodes nodes = .error (.violated .repeatedNode) := by
  cases hrun : ofNodes nodes with
  | ok basis => exact absurd (distinct_of_ofNodes hrun).2 h
  | error fault =>
    rw [ofNodes, require_eq_ok.2 hnonempty, ok_bind] at hrun
    rcases bind_eq_error.1 hrun with hweights | ⟨_, -, hreturn⟩
    · obtain ⟨⟨xj, j⟩, -, hweight⟩ := mapM_error hweights
      rcases bind_eq_error.1 hweight with hdistances | ⟨_, -, hreturn⟩
      · rw [distances_error hdistances]
      · cases hreturn
    · cases hreturn

/-- No nodes are refused. -/
theorem ofNodes_nil : ofNodes ([] : List α) = .error (.violated .noNodes) := rfl

end

/-! ### Nodes that are accepted -/

variable {K : Type} [Field K] {nodes : List K}

/-- What values `v` and derivatives `d` at `x` of functions on the nodes are good for. -/
structure Reproduces (nodes : List K) (x : K) (v d : Array K) : Prop where
  values_size : v.size = nodes.length
  derivatives_size : d.size = nodes.length
  /-- The value of a polynomial is recovered from its values at the nodes. -/
  value : ∀ u : K[X], u.natDegree ≤ nodes.length - 1 →
    ∑ j ∈ Finset.range nodes.length, u.eval (nodes.getD j 0) * v.getD j 0 = u.eval x
  /-- So is its derivative. -/
  derivative : ∀ u : K[X], u.natDegree ≤ nodes.length - 1 →
    ∑ j ∈ Finset.range nodes.length, u.eval (nodes.getD j 0) * d.getD j 0 = u.derivative.eval x
  /-- At a node its own function is one and the others are zero. -/
  nodal : ∀ j < nodes.length, x = nodes.getD j 0 →
    ∀ i < nodes.length, v.getD i 0 = if i = j then 1 else 0
  sum_values : ∑ j ∈ Finset.range nodes.length, v.getD j 0 = 1
  sum_derivatives : ∑ j ∈ Finset.range nodes.length, d.getD j 0 = 0

variable [BEq K]

/-- A basis fills buffers of the right size with the values and the derivatives of the polynomials
of its nodes. -/
theorem evaluateInto_eq {basis : LagrangeBasis K} (h : ofNodes nodes = .ok basis) (x : K)
    {values derivatives : Array K} (hvalues : values.size = nodes.length)
    (hderivatives : derivatives.size = nodes.length) :
    ∃ v d, basis.evaluateInto x values derivatives = .ok (v, d) ∧ v.size = nodes.length ∧
      d.size = nodes.length ∧ ∀ j < nodes.length,
        v.getD j 0 = (polynomial nodes j).eval x ∧
          d.getD j 0 = (polynomial nodes j).derivative.eval x := by
  rw [← numNodes_of_ofNodes h] at hvalues hderivatives
  rw [evaluateInto_ok hvalues hderivatives, evaluate_ofNodes h]
  exact ⟨_, _, rfl, by simp, by simp, fun j hj => by simp [hj]⟩

variable [LawfulBEq K]

omit [Field K] in
theorem distinct_iff_nodup : Distinct nodes ↔ nodes.Nodup := by
  rw [List.nodup_iff_injective_get]
  constructor
  · intro h i j hij
    by_contra hne
    exact beq_eq_false_iff_ne.1 (h i j i.isLt j.isLt fun heq => hne (Fin.ext heq)) hij
  · intro h i j hi hj hne
    exact beq_eq_false_iff_ne.2 fun heq => hne (congrArg Fin.val (@h ⟨i, hi⟩ ⟨j, hj⟩ heq))

/-- The polynomial of a node at the nodes. -/
theorem eval_polynomial_node (h : Distinct nodes) {i j : Nat} (hj : j < nodes.length) :
    (polynomial nodes i).eval (nodes.getD j 0) = if i = j then 1 else 0 := by
  have hmem : j ∈ Finset.range nodes.length := Finset.mem_range.2 hj
  by_cases hij : i = j
  · subst hij
    rw [if_pos rfl]
    exact Lagrange.eval_basis_self h.injOn hmem
  · rw [if_neg hij]
    exact Lagrange.eval_basis_of_ne (v := (nodes.getD · 0)) hij hmem

/-- **The functions of a basis reproduce.** -/
theorem reproduces (hnonempty : nodes ≠ []) (h : Distinct nodes) {x : K} {v d : Array K}
    (hvsize : v.size = nodes.length) (hdsize : d.size = nodes.length)
    (hv : ∀ j < nodes.length, v.getD j 0 = (polynomial nodes j).eval x)
    (hd : ∀ j < nodes.length, d.getD j 0 = (polynomial nodes j).derivative.eval x) :
    Reproduces nodes x v d := by
  have hlength : 0 < nodes.length := List.length_pos_iff.2 hnonempty
  -- A polynomial is the sum of its values at the nodes, each times the polynomial of its node; both
  -- sums are this one, evaluated and differentiated.
  have hinterpolate : ∀ u : K[X], u.natDegree ≤ nodes.length - 1 →
      ∑ j ∈ Finset.range nodes.length, C (u.eval (nodes.getD j 0)) * polynomial nodes j = u :=
    fun u hu => sum_eval_polynomial h (by omega)
  have hvalue : ∀ u : K[X], u.natDegree ≤ nodes.length - 1 →
      ∑ j ∈ Finset.range nodes.length, u.eval (nodes.getD j 0) * v.getD j 0 = u.eval x := by
    intro u hu
    conv_rhs => rw [← hinterpolate u hu, eval_finsetSum]
    refine Finset.sum_congr rfl fun j hj => ?_
    rw [hv j (Finset.mem_range.1 hj), eval_mul, eval_C]
  have hderivative : ∀ u : K[X], u.natDegree ≤ nodes.length - 1 →
      ∑ j ∈ Finset.range nodes.length, u.eval (nodes.getD j 0) * d.getD j 0 =
        u.derivative.eval x := by
    intro u hu
    conv_rhs => rw [← hinterpolate u hu, derivative_sum, eval_finsetSum]
    refine Finset.sum_congr rfl fun j hj => ?_
    rw [hd j (Finset.mem_range.1 hj), derivative_C_mul, eval_mul, eval_C]
  have hone : (1 : K[X]).natDegree ≤ nodes.length - 1 := by simp
  refine ⟨hvsize, hdsize, hvalue, hderivative, ?_, ?_, ?_⟩
  · rintro j hj rfl i hi
    rw [hv i hi, eval_polynomial_node h hj]
  · simpa using hvalue 1 hone
  · simpa using hderivative 1 hone

/-- **The nodal basis reproduces every polynomial and its derivative.**  A basis is made on exactly
the lists of nodes that are not empty and repeat no node; of the others the cause is reported.  At
every point, a node or not, it fills buffers of the right size with values and derivatives that
reproduce all polynomials of at most its order. -/
theorem ofNodes_reproduces (nodes : List K) :
    (nodes = [] → ofNodes nodes = .error (.violated .noNodes)) ∧
    (nodes ≠ [] → ¬ nodes.Nodup → ofNodes nodes = .error (.violated .repeatedNode)) ∧
    (nodes ≠ [] → nodes.Nodup → ∃ basis, ofNodes nodes = .ok basis ∧ basis.nodes = nodes ∧
      ∀ (x : K) (values derivatives : Array K), values.size = nodes.length →
        derivatives.size = nodes.length →
        ∃ v d, basis.evaluateInto x values derivatives = .ok (v, d) ∧ Reproduces nodes x v d) := by
  refine ⟨?_, ?_, ?_⟩
  · rintro rfl
    exact ofNodes_nil
  · intro hnonempty hnodup
    exact ofNodes_of_repeated hnonempty (mt distinct_iff_nodup.1 hnodup)
  · intro hnonempty hnodup
    have hdistinct := distinct_iff_nodup.2 hnodup
    have hbasis := ofNodes_eq hnonempty hdistinct
    refine ⟨_, hbasis, rfl, fun x values derivatives hvalues hderivatives => ?_⟩
    obtain ⟨v, d, hrun, hvsize, hdsize, hentries⟩ :=
      evaluateInto_eq hbasis x hvalues hderivatives
    exact ⟨v, d, hrun, reproduces hnonempty hdistinct hvsize hdsize
      (fun j hj => (hentries j hj).1) fun j hj => (hentries j hj).2⟩

/-- Lists that are refused, and the square at a point that is no node. -/
theorem ofNodes_reproduces_three_nodes :
    ofNodes ([] : List ℚ) = .error (.violated .noNodes) ∧
    ofNodes [(1 : ℚ), 2, 1] = .error (.violated .repeatedNode) ∧
    ∃ basis v d, ofNodes [(0 : ℚ), 1, 3] = .ok basis ∧
      basis.evaluateInto 2 #[0, 0, 0] #[0, 0, 0] = .ok (v, d) ∧
      v.getD 1 0 + 9 * v.getD 2 0 = 4 ∧ d.getD 1 0 + 9 * d.getD 2 0 = 4 := by
  refine ⟨(ofNodes_reproduces []).1 rfl,
    (ofNodes_reproduces [1, 2, 1]).2.1 (List.cons_ne_nil _ _) (by decide), ?_⟩
  obtain ⟨basis, hbasis, -, hevaluate⟩ :=
    (ofNodes_reproduces [(0 : ℚ), 1, 3]).2.2 (List.cons_ne_nil _ _) (by decide)
  obtain ⟨v, d, hrun, hreproduces⟩ := hevaluate 2 #[0, 0, 0] #[0, 0, 0] rfl rfl
  have hdegree : (X ^ 2 : ℚ[X]).natDegree ≤ [(0 : ℚ), 1, 3].length - 1 := natDegree_X_pow_le 2
  have hvalue := hreproduces.value (X ^ 2) hdegree
  have hderivative := hreproduces.derivative (X ^ 2) hdegree
  refine ⟨basis, v, d, hbasis, hrun, ?_, ?_⟩
  · norm_num [Finset.sum_range_succ] at hvalue
    simpa using hvalue
  · norm_num [Finset.sum_range_succ] at hderivative
    simpa using hderivative

end LagrangeBasis

end TensorDiffusion
