import TensorDiffusion.Proofs.ActionStiffness
import TensorDiffusion.Proofs.Exact

/-!
# The action of the operator

What a kernel adds to its output, with every size that passes the checks and under every setting:
the operator `Bᵀ D B` of each element, applied to each component (`onFaces_ok`, `onCells_ok`).
-/

namespace TensorDiffusion

/-- The element, component and node of an entry, by its place in its chunk. -/
theorem chunk_positions {nd vdim n : Nat} :
    n % (vdim * nd) / nd = n / nd % vdim ∧ n % (vdim * nd) % nd = n % nd := by
  refine ⟨?_, ?_⟩
  · rw [Nat.mul_comm, Nat.mod_mul_right_div_self]
  · rw [Nat.mod_mul_left_mod]

namespace Action

variable {K : Type} [CommRing K] [Stored K] {fixed : FixedSizes} {config : Execution} {ne : Nat}
  {tables : Tables K} {op x y : Array K}

/-- **The action on faces adds `Bᵀ D B x`.** -/
theorem onFaces_ok {vdim : Nat} (ht : tables.Paired)
    (hf : fixed.Agrees tables.ndof tables.nqpt vdim)
    (h : KernelSizes K 2 vdim tables.ndof tables.nqpt ne config.limits op.size y.size)
    (hx : x.size = y.size) :
    (onFaces fixed config ne tables op x vdim).run y =
      .ok () (addStiffness 2 vdim tables.ndof tables.nqpt tables.b tables.g op x y) := by
  obtain ⟨plan, hplan, hroom⟩ := facePlan_ok ht.toSized hf h hx
  have hp := facePlanned hplan
  have hr := readsTables ht hp.toHoldsTables hp.shapes.toTableShapes
  rw [onFaces_eq hplan hroom]
  refine congrArg (EStateM.Result.ok () <| y.mapIdx ·) (funext fun n => funext fun v => ?_)
  rw [faceUpdate_eq_stiffness hp.shapes hr (Nat.mod_lt _ (Nat.mul_pos hp.d1d_pos hp.d1d_pos)),
    hp.chunk, chunk_positions.1, chunk_positions.2, hp.op, hp.x, hp.d1d, hp.q1d, hp.vdim,
    ← pow_two, Nat.mul_comm vdim]

/-- **The action on cells adds `Bᵀ D B x`.** -/
theorem onCells_ok (ht : tables.Paired)
    (hf : fixed.Agrees tables.ndof tables.nqpt 3)
    (h : KernelSizes K 3 3 tables.ndof tables.nqpt ne config.limits op.size y.size)
    (hx : x.size = y.size) :
    (onCells fixed config ne tables op x).run y =
      .ok () (addStiffness 3 3 tables.ndof tables.nqpt tables.b tables.g op x y) := by
  obtain ⟨plan, hplan, hroom⟩ := cellPlan_ok ht.toSized hf h hx
  have hp := cellPlanned hplan
  have hr := readsTables ht hp.toHoldsTables hp.shapes.toTableShapes
  have hd := hp.d1d_pos
  rw [onCells_eq hplan hroom]
  refine congrArg (EStateM.Result.ok () <| y.mapIdx ·) (funext fun n => funext fun v => ?_)
  rw [cellUpdate_eq_stiffness hp.shapes hr (Nat.mod_lt _ (Nat.mul_pos (Nat.mul_pos hd hd) hd)),
    hp.chunk, chunk_positions.1, chunk_positions.2, hp.op, hp.x, hp.d1d, hp.q1d, ← pow_three',
    Nat.mul_comm 3]

/-- **Sum factorization computes `Bᵀ D B`.**  For every pair of tables, with the transposes that
`Tables.ofTables` makes, an action on faces or on cells returns, and every entry has received the
operator of its element applied to its component: the sum over points `q` and axes `k`, `l` of the
derivative of its basis function along `k`, the entry `(k, l)` of the form, and the derivative of
the component along `l`. -/
theorem action_adds_stiffness {d1d q1d : Nat} {b g : Array K} (hb : b.size = q1d * d1d)
    (hg : g.size = q1d * d1d) (hx : x.size = y.size) :
    (∀ vdim, fixed.Agrees d1d q1d vdim →
      KernelSizes K 2 vdim d1d q1d ne config.limits op.size y.size →
      ∃ tables out, Tables.ofTables d1d q1d b g = .ok tables ∧
        (onFaces fixed config ne tables op x vdim).run y = .ok () out ∧ out.size = y.size ∧
        ∀ e c i, e < ne → c < vdim → i < d1d ^ 2 →
          nodal (d1d ^ 2) vdim out e c i = nodal (d1d ^ 2) vdim y e c i +
            stiffness 2 d1d q1d b g op e (nodal (d1d ^ 2) vdim x e c) i) ∧
    (fixed.Agrees d1d q1d 3 → KernelSizes K 3 3 d1d q1d ne config.limits op.size y.size →
      ∃ tables out, Tables.ofTables d1d q1d b g = .ok tables ∧
        (onCells fixed config ne tables op x).run y = .ok () out ∧ out.size = y.size ∧
        ∀ e c i, e < ne → c < 3 → i < d1d ^ 3 →
          nodal (d1d ^ 3) 3 out e c i = nodal (d1d ^ 3) 3 y e c i +
            stiffness 3 d1d q1d b g op e (nodal (d1d ^ 3) 3 x e c) i) := by
  have hpaired := Tables.ofTables_paired hb hg
  constructor
  · intro vdim hf h
    have htables := Tables.ofTables_eq hb hg (h.table_fits (Nat.le_refl 2))
    refine ⟨_, _, htables, onFaces_ok hpaired hf h hx, size_addStiffness .., ?_⟩
    intro e c i he hc hi
    exact nodal_addStiffness h.len he hc hi
  · intro hf h
    have htables := Tables.ofTables_eq hb hg (h.table_fits (by decide))
    refine ⟨_, _, htables, onCells_ok hpaired hf h hx, size_addStiffness .., ?_⟩
    intro e c i he hc hi
    exact nodal_addStiffness h.len he hc hi

/-- One face with two nodes and one point per axis: at its first node the action on the first unit
vector adds the quadratic form of the gradient `(10, 10)` under the matrix `1, 2, 3`. -/
theorem action_adds_stiffness_one_face :
    ∃ tables out, Tables.ofTables 2 1 #[2, 3] #[5, 7] = .ok tables ∧
      (onFaces {} {} 1 tables #[1, 2, 3] #[1, 0, 0, 0] 1).run #[(1 : ℝ), 0, 0, 0] = .ok () out ∧
      nodal (2 ^ 2) 1 out 0 0 0 = 801 := by
  have hsizes : KernelSizes ℝ 2 1 2 1 1 ({} : Execution).limits 3 4 :=
    ⟨by decide, by decide, by decide, by decide, by decide, by decide, by decide, by decide,
      by decide⟩
  obtain ⟨tables, out, htables, hrun, -, hentry⟩ :=
    (@action_adds_stiffness ℝ _ _ {} {} 1 #[1, 2, 3] #[1, 0, 0, 0] #[1, 0, 0, 0] 2 1 #[2, 3]
      #[5, 7] rfl rfl rfl).1 1 (FixedSizes.agrees_open 2 1 1) hsizes
  refine ⟨tables, out, htables, hrun, ?_⟩
  have hpacked : packed 2 0 0 = 0 ∧ packed 2 0 1 = 1 ∧ packed 2 1 0 = 1 ∧ packed 2 1 1 = 2 := by
    decide
  obtain ⟨h₀₀, h₀₁, h₁₀, h₁₁⟩ := hpacked
  rw [hentry 0 0 0 (by decide) (by decide) (by decide)]
  norm_num [stiffness, fieldGradient, gradientEntry, axisEntry, formEntry, nodal,
    Finset.sum_range_succ, Finset.prod_range_succ, h₀₀, h₀₁, h₁₀, h₁₁]

end Action

end TensorDiffusion
