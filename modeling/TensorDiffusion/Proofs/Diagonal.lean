import TensorDiffusion.Proofs.Action
import TensorDiffusion.Proofs.CellDiagonal
import TensorDiffusion.Proofs.Selection

/-!
# The diagonal of the operator

Over a commutative ring, a diagonal adds to every entry of its output the diagonal entry of the
operator at its node (`onFaces_ok`, `onCells_ok`), which is what the action makes of the unit
vector there.
-/

namespace TensorDiffusion

namespace Diagonal

variable {K : Type} [CommRing K] {plan : Plan K} {d1d q1d ne e : Nat} {b g : Array K}

/-! ### Faces -/

/-- The update of a face adds the diagonal entry of the node. -/
theorem faceUpdate_eq_diagonal (hs : FaceShapes plan d1d q1d ne)
    (hb : ∀ q d, plan.b.entry [q, d] = b.getD (q + q1d * d) 0)
    (hg : ∀ q d, plan.g.entry [q, d] = g.getD (q + q1d * d) 0) (n : Nat) (v : K) :
    faceUpdate plan d1d q1d e n v = v + diagonalEntry 2 d1d q1d b g plan.op.data e n := by
  have hop : ∀ q i, plan.op.entry [q, i, e] = plan.op.data.getD (q + q1d ^ 2 * (i + 3 * e)) 0 := by
    intro q i
    rw [View.entry_eq hs.op, pow_two]
    rfl
  have hxx : ∀ q, plan.op.entry [q, 0, e] = formEntry 2 (q1d ^ 2) plan.op.data q e 0 0 := (hop · 0)
  have hxy : ∀ q, plan.op.entry [q, 1, e] = formEntry 2 (q1d ^ 2) plan.op.data q e 0 1 := (hop · 1)
  have hyx : ∀ q, formEntry 2 (q1d ^ 2) plan.op.data q e 1 0 =
      formEntry 2 (q1d ^ 2) plan.op.data q e 0 1 := fun q => formEntry_comm 2 _ _ q e 1 0
  have hyy : ∀ q, plan.op.entry [q, 2, e] = formEntry 2 (q1d ^ 2) plan.op.data q e 1 1 := (hop · 2)
  refine congrArg (v + ·) ?_
  rw [faceSum, foldl_eq_sum (fun s k => by rw [add_assoc, add_assoc, add_assoc]) 0 q1d, zero_add,
    diagonalEntry]
  -- The kernel takes the points line by line along y, the operator along x.
  rw [show Finset.range (q1d ^ 2) = Finset.range (q1d * q1d) by rw [pow_two], sum_range_pairs,
    Finset.sum_comm]
  refine Finset.sum_congr rfl fun qx hqx => ?_
  have hqx := Finset.mem_range.1 hqx
  simp only [faceForms, leftSum_eq_sum, zero_add, pair_mod _ hqx, pair_div _ hqx, hb, hg, hxx, hxy,
    hyy, Finset.mul_sum, ← Finset.sum_add_distrib]
  refine Finset.sum_congr rfl fun qy hqy => ?_
  have hqy := Finset.mem_range.1 hqy
  simp only [gradientEntry_two, pair_mod _ hqx, pair_div _ hqx, Nat.mod_eq_of_lt hqy,
    Finset.sum_range_succ, Finset.sum_range_zero, zero_add, Nat.mul_comm qy, axisEntry_self,
    axisEntry_ne q1d b g zero_ne_one, axisEntry_ne q1d b g one_ne_zero, hyx]
  ring

/-! ### Cells -/

/-- A contraction along one axis meets the table of the row and that of the column. -/
theorem axisSum_eq (hb : ∀ q d, plan.b.entry [q, d] = b.getD (q + q1d * d) 0)
    (hg : ∀ q d, plan.g.entry [q, d] = g.getD (q + q1d * d) 0) (axis i j node : Nat)
    (t : Nat → K) :
    axisSum plan q1d axis i j node t = ∑ k ∈ Finset.range q1d,
      axisEntry q1d b g i axis k node * t k * axisEntry q1d b g j axis k node := by
  have hentry : ∀ i k, (if i = axis then plan.g.entry [k, node] else plan.b.entry [k, node]) =
      axisEntry q1d b g i axis k node := by
    intro i k
    by_cases h : i = axis
    · rw [if_pos h, h, axisEntry_self, hg]
    · rw [if_neg h, axisEntry_ne q1d b g (Ne.symm h), hb]
  rw [axisSum, leftSum_eq_sum, zero_add]
  refine Finset.sum_congr rfl fun k _ => ?_
  rw [← hentry i, ← hentry j]

theorem symmetricIndex_eq_packed : ∀ i < 3, ∀ j < 3, symmetricIndex i j = packed 3 i j := by decide

/-- Entry `(i, j)` of the forms contributes its term of the diagonal. -/
theorem cellTerm_value (hs : CellShapes plan d1d q1d ne)
    (hb : ∀ q d, plan.b.entry [q, d] = b.getD (q + q1d * d) 0)
    (hg : ∀ q d, plan.g.entry [q, d] = g.getD (q + q1d * d) 0) {i j : Nat} (hi : i < 3)
    (hj : j < 3) (n : Nat) :
    cellTerm plan d1d q1d e i j n = ∑ q ∈ Finset.range (q1d ^ 3),
      gradientEntry 3 d1d q1d b g i q n * formEntry 3 (q1d ^ 3) plan.op.data q e i j *
        gradientEntry 3 d1d q1d b g j q n := by
  have hop : ∀ q, plan.op.entry [q, symmetricIndex i j, e] =
      formEntry 3 (q1d ^ 3) plan.op.data q e i j := by
    intro q
    rw [View.entry_eq hs.op, formEntry, ← symmetricIndex_eq_packed i hi j hj, pow_three']
    rfl
  have hline : n % (d1d * d1d * d1d) / d1d = n / d1d % (d1d * d1d) := by
    rw [Nat.mul_assoc, Nat.mod_mul_right_div_self]
  -- The kernel takes the points along z innermost, the operator along x.
  rw [show Finset.range (q1d ^ 3) = Finset.range (q1d * q1d * q1d) by rw [pow_three'],
    sum_range_triples, sum_reverse, cellTerm, axisSum_eq hb hg]
  refine Finset.sum_congr rfl fun qx hqx => ?_
  have hqx := Finset.mem_range.1 hqx
  rw [cellAlongZY, axisSum_eq hb hg, Finset.mul_sum, Finset.sum_mul, hline, pair_mod _ hqx,
    pair_div _ hqx, ← Nat.div_div_eq_div_mul, pair_div _ hqx, Nat.mod_mul_right_div_self,
    Nat.mod_mul_left_mod]
  refine Finset.sum_congr rfl fun qy hqy => ?_
  have hqy := Finset.mem_range.1 hqy
  rw [cellAlongZ, axisSum_eq hb hg, Finset.mul_sum, Finset.sum_mul, Finset.mul_sum, Finset.sum_mul]
  refine Finset.sum_congr rfl fun qz hqz => ?_
  have hqz := Finset.mem_range.1 hqz
  obtain ⟨hx, hy, hz⟩ := triple_positions (n / d1d / d1d % d1d) hqx hqy
  obtain ⟨hx', hy', hz'⟩ := triple_positions qz hqx hqy
  rw [hz, Nat.mul_comm qz, mod_add_mul, hx, hy, hop, gradientEntry_three, gradientEntry_three, hx',
    hy', hz', Nat.mod_eq_of_lt hqz, ← Nat.div_div_eq_div_mul]
  ring

/-- The update of a cell adds the diagonal entry of the node. -/
theorem cellUpdate_eq_diagonal (hs : CellShapes plan d1d q1d ne)
    (hb : ∀ q d, plan.b.entry [q, d] = b.getD (q + q1d * d) 0)
    (hg : ∀ q d, plan.g.entry [q, d] = g.getD (q + q1d * d) 0) (n : Nat) (v : K) :
    cellUpdate plan d1d q1d e n v = v + diagonalEntry 3 d1d q1d b g plan.op.data e n := by
  rw [cellUpdate, foldl_eq_sum (fun s i => leftSum_eq_sum s 3 _)]
  refine congrArg (v + ·) ?_
  calc ∑ i ∈ Finset.range 3, ∑ j ∈ Finset.range 3, cellTerm plan d1d q1d e i j n
      = ∑ i ∈ Finset.range 3, ∑ j ∈ Finset.range 3, ∑ q ∈ Finset.range (q1d ^ 3),
          gradientEntry 3 d1d q1d b g i q n * formEntry 3 (q1d ^ 3) plan.op.data q e i j *
            gradientEntry 3 d1d q1d b g j q n :=
        Finset.sum_congr rfl fun i hi => Finset.sum_congr rfl fun j hj =>
          cellTerm_value hs hb hg (Finset.mem_range.1 hi) (Finset.mem_range.1 hj) n
    _ = diagonalEntry 3 d1d q1d b g plan.op.data e n := sum_rotate _

/-! ### All elements -/

/-- The tables of a plan, entry by entry. -/
theorem readsTables {tables : Tables K} (hp : HoldsTables plan tables)
    (hs : TableShapes plan plan.d1d plan.q1d) :
    (∀ q d, plan.b.entry [q, d] = tables.b.getD (q + plan.q1d * d) 0) ∧
      ∀ q d, plan.g.entry [q, d] = tables.g.getD (q + plan.q1d * d) 0 := by
  refine ⟨fun q d => ?_, fun q d => ?_⟩
  · rw [View.entry_eq hs.b, hp.b]
    rfl
  · rw [View.entry_eq hs.g, hp.g]
    rfl

section

variable [Stored K] {fixed : FixedSizes} {config : Execution} {tables : Tables K} {op diag : Array K}

/-- **The diagonal on faces.** -/
theorem onFaces_ok {vdim : Nat} (hs : tables.Sized)
    (hf : fixed.Agrees tables.ndof tables.nqpt vdim)
    (h : KernelSizes K 2 vdim tables.ndof tables.nqpt ne config.limits op.size diag.size)
    (hroom : Stored.bytes K * (3 * tables.nqpt * tables.ndof) < Size.bufferBound) :
    (onFaces fixed config ne tables op vdim).run diag =
      .ok () (addDiagonal 2 vdim tables.ndof tables.nqpt tables.b tables.g op diag) := by
  obtain ⟨plan, hplan, hroom⟩ := facePlan_ok hs hf h hroom
  have hp := facePlanned hplan
  obtain ⟨hb, hg⟩ := readsTables hp.toHoldsTables hp.shapes.toTableShapes
  rw [onFaces_eq hplan hroom (chunk_lt_of_len hp.diagLen h.len_lt)]
  refine congrArg (EStateM.Result.ok () <| diag.mapIdx ·) (funext fun n => funext fun v => ?_)
  rw [faceUpdate_eq_diagonal hp.shapes hb hg, hp.chunk, hp.op, hp.d1d, hp.q1d, hp.vdim, ← pow_two,
    diagonalEntry_chunk]

/-- **The diagonal on cells.** -/
theorem onCells_ok (hs : tables.Sized) (hf : fixed.Agrees tables.ndof tables.nqpt 3)
    (h : KernelSizes K 3 3 tables.ndof tables.nqpt ne config.limits op.size diag.size) :
    (onCells fixed config ne tables op).run diag =
      .ok () (addDiagonal 3 3 tables.ndof tables.nqpt tables.b tables.g op diag) := by
  obtain ⟨plan, hplan, hroom⟩ := cellPlan_ok hs hf h
  have hp := cellPlanned hplan
  obtain ⟨hb, hg⟩ := readsTables hp.toHoldsTables hp.shapes.toTableShapes
  rw [onCells_eq hplan hroom (chunk_lt_of_len hp.diagLen h.len_lt)]
  refine congrArg (EStateM.Result.ok () <| diag.mapIdx ·) (funext fun n => funext fun v => ?_)
  rw [cellUpdate_eq_diagonal hp.shapes hb hg, hp.chunk, hp.op, hp.d1d, hp.q1d, ← pow_three',
    diagonalEntry_chunk]

end

end Diagonal

/-! ### The selected kernels -/

section

variable {K : Type} [CommRing K] [Stored K] {config : Execution} {shape : Shape} {ne : Nat}
  {tables : Tables K} {op x y diag : Array K} {events : Array Event}

/-- Whatever kernel runs, it adds `Bᵀ D B x`. -/
theorem Action.select_ok (ht : tables.Paired) (hd : tables.ndof = shape.d1d)
    (hq : tables.nqpt = shape.q1d)
    (h : KernelSizes K shape.dim shape.vdim shape.d1d shape.q1d ne config.limits op.size y.size)
    (hx : x.size = y.size) :
    (Action.select config shape ne tables op x).run ⟨y, events⟩ =
      .ok () ⟨addStiffness shape.dim shape.vdim shape.d1d shape.q1d tables.b tables.g op x y,
        events.push (.applied shape shape.variant)⟩ := by
  obtain ⟨fixed, hf, hselect⟩ := Action.select_eq config shape ne tables op x
  rw [hselect]
  refine Run.run_record_onValue ?_
  rw [← hd, ← hq] at h hf ⊢
  rw [Action.kernel]
  rcases shape.dim_cases with ⟨hdim, hv⟩ | ⟨hdim, hv⟩ | ⟨hdim, hv⟩ <;> rw [hdim, hv] at h <;>
    rw [hv] at hf <;> rw [hdim, hv]
  · exact Action.onFaces_ok ht hf h hx
  · exact Action.onFaces_ok ht hf h hx
  · exact Action.onCells_ok ht hf h hx

/-- Whatever kernel runs, it adds the diagonal. -/
theorem Diagonal.select_ok (hs : tables.Sized) (hd : tables.ndof = shape.d1d)
    (hq : tables.nqpt = shape.q1d)
    (h : KernelSizes K shape.dim shape.vdim shape.d1d shape.q1d ne config.limits op.size diag.size)
    (hroom : shape.dim = 2 →
      Stored.bytes K * (3 * shape.q1d * shape.d1d) < Size.bufferBound) :
    (Diagonal.select config shape ne tables op).run ⟨diag, events⟩ =
      .ok () ⟨addDiagonal shape.dim shape.vdim shape.d1d shape.q1d tables.b tables.g op diag,
        events.push (.diagonal shape shape.variant)⟩ := by
  obtain ⟨fixed, hf, hselect⟩ := Diagonal.select_eq config shape ne tables op
  rw [hselect]
  refine Run.run_record_onValue ?_
  rw [← hd, ← hq] at h hf hroom ⊢
  rw [Diagonal.kernel]
  rcases shape.dim_cases with ⟨hdim, hv⟩ | ⟨hdim, hv⟩ | ⟨hdim, hv⟩ <;> rw [hdim, hv] at h <;>
    rw [hv] at hf <;> rw [hdim, hv]
  · exact Diagonal.onFaces_ok hs hf h (hroom hdim)
  · exact Diagonal.onFaces_ok hs hf h (hroom hdim)
  · exact Diagonal.onCells_ok hs hf h

/-- **The diagonal is that of the action.**  Every entry of the output receives the entry at its
place of the action on the unit vector there, added to zeros, and nothing else; the action on every
unit vector returns. -/
theorem diagonal_eq_unit_actions (ht : tables.Paired) (hd : tables.ndof = shape.d1d)
    (hq : tables.nqpt = shape.q1d)
    (h : KernelSizes K shape.dim shape.vdim shape.d1d shape.q1d ne config.limits op.size diag.size)
    (hroom : shape.dim = 2 →
      Stored.bytes K * (3 * shape.q1d * shape.d1d) < Size.bufferBound) :
    ∃ out, (Diagonal.select config shape ne tables op).run ⟨diag, events⟩ =
        .ok () ⟨out, events.push (.diagonal shape shape.variant)⟩ ∧ out.size = diag.size ∧
      ∀ n < diag.size, ∃ column,
        (Action.select config shape ne tables op (unitVector diag.size n)).run
            ⟨Array.replicate diag.size 0, events⟩ =
          .ok () ⟨column, events.push (.applied shape shape.variant)⟩ ∧
        column.size = diag.size ∧ out.getD n 0 = diag.getD n 0 + column.getD n 0 := by
  refine ⟨_, Diagonal.select_ok ht.toSized hd hq h hroom, size_addDiagonal .., ?_⟩
  intro n hn
  have hzeros : (Array.replicate diag.size (0 : K)).size = diag.size := Array.size_replicate
  refine ⟨_, Action.select_ok ht hd hq (hzeros.symm ▸ h) (by simp [unitVector]), ?_, ?_⟩
  · rw [size_addStiffness, hzeros]
  · exact getElem_addDiagonal h.len rfl hn

/-- Faces in the plane with two nodes and one point per axis: the diagonal at the first node is its
entry in the first column. -/
theorem diagonal_eq_unit_actions_one_face :
    ∃ (shape : Shape) (tables : Tables ℝ) (out column : Array ℝ), shape.sdim = 2 ∧
      (Diagonal.select {} shape 1 tables #[1, 2, 3]).run ⟨Array.replicate 8 1, #[]⟩ =
        .ok () ⟨out, #[.diagonal shape shape.variant]⟩ ∧
      (Action.select {} shape 1 tables #[1, 2, 3] (unitVector 8 0)).run
          ⟨Array.replicate 8 0, #[]⟩ = .ok () ⟨column, #[.applied shape shape.variant]⟩ ∧
      out.getD 0 0 = 1 + column.getD 0 0 := by
  let shape : Shape := ⟨2, 2, 2, 1, by decide, by decide, by decide⟩
  have hpaired : (⟨2, 1, #[2, 3], #[5, 7], Tables.transposed 1 2 #[2, 3],
      Tables.transposed 1 2 #[5, 7]⟩ : Tables ℝ).Paired := Tables.ofTables_paired rfl rfl
  have hsizes : KernelSizes ℝ 2 2 2 1 1 ({} : Execution).limits 3 8 :=
    ⟨by decide, by decide, by decide, by decide, by decide, by decide, by decide, by decide,
      by decide⟩
  obtain ⟨out, hrun, -, hcolumns⟩ := @diagonal_eq_unit_actions ℝ _ _ {} shape 1 _ #[1, 2, 3]
    (Array.replicate 8 1) #[] hpaired rfl rfl hsizes fun _ => by decide
  obtain ⟨column, haction, -, hentry⟩ := hcolumns 0 (by decide)
  exact ⟨shape, _, out, column, rfl, hrun, haction, hentry⟩

end

end TensorDiffusion
