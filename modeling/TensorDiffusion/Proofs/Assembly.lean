import TensorDiffusion.Proofs.Operators
import TensorDiffusion.Proofs.PointData

/-!
# Assembly

What the two assemblies of a context make of the same data.  A sum-factorized operator that was
assembled keeps the forms of the setup (`Factorized.assemble_eq_ok`).  From the same data the
assembly of dense matrices makes the matrices of those forms where every `Jᵀ J` is regular
(`Dense.assemble_ok`), and refuses the context where one is singular (`Dense.assemble_singular`).
-/

open scoped Matrix

namespace TensorDiffusion

namespace PointData

/-- The sizes of the data of a context are those of a setup. -/
abbrev SizesOf {α : Type} (data : PointData α) (context : Context α) (j : Array α) : Prop :=
  SetupSizes data.shape.dim data.shape.sdim data.shape.q1d data.ne context.rule.weights.size j.size
    data.samples.values.size
    (data.shape.q1d ^ data.shape.dim * symmetricEntries data.shape.dim * data.ne)

/-- The Jacobian at point `q` of element `e`, in the data of a context. -/
abbrev jacobianOf {K : Type} [Zero K] (data : PointData K) (j : Array K) (q e : Nat) :
    FinMatrix data.shape.sdim data.shape.dim K :=
  jacobianAt (data.shape.q1d ^ data.shape.dim) data.shape.sdim data.shape.dim j q e

/-- There is room for the operator data. -/
abbrev FormsFit {α : Type} [Stored α] (data : PointData α) : Prop :=
  Stored.bytes α * (data.shape.q1d ^ data.shape.dim * symmetricEntries data.shape.dim * data.ne) <
    Size.bufferBound

end PointData

/-! ### Sum-factorized operators -/

namespace Factorized

variable {α : Type} [Zero α] [One α] [Add α] [Sub α] [Mul α] [Neg α] [Div α] [BEq α] [OfDouble α]
  [SquareRoot α] [Stored α]

/-- The operator that the setup makes of the data of a context. -/
def ofData (context : Context α) (data : PointData α) (j : Array α) : Factorized α where
  shape := data.shape
  ne := data.ne
  tables := data.tables
  op := OperatorData.stored (OperatorData.pointForm data.shape.dim data.shape.sdim)
    (data.shape.q1d ^ data.shape.dim) data.shape.sdim data.shape.dim context.rule.weights j
    data.samples.values (Array.replicate
      (data.shape.q1d ^ data.shape.dim * symmetricEntries data.shape.dim * data.ne) 0)
  execution := context.execution

omit [BEq α] [OfDouble α] [Stored α] in
theorem size_op (context : Context α) (data : PointData α) (j : Array α) :
    (ofData context data j).op.size =
      data.shape.q1d ^ data.shape.dim * symmetricEntries data.shape.dim * data.ne :=
  (OperatorData.size_stored ..).trans Array.size_replicate

/-- **An assembled operator** keeps the forms of the setup, whose sizes were accepted. -/
theorem assemble_eq_ok {context : Context α} {operator : Factorized α} {s s' : Session Unit}
    (h : (assemble context).run s = .ok operator s') :
    ∃ data j, PointData.compute context = .ok data ∧ data.jacobians = .ok j ∧
      operator = ofData context data j ∧ data.SizesOf context j ∧ data.FormsFit := by
  rw [assemble] at h
  obtain ⟨data, s₁, hdata, h⟩ := run_bind_eq_ok.1 h
  obtain ⟨hcompute, rfl⟩ := run_ofExcept_eq_ok.1 hdata
  rw [run_bind_ok (Run.run_record _)] at h
  obtain ⟨blank, s₂, hblank, h⟩ := run_bind_eq_ok.1 h
  obtain ⟨hfilled, rfl⟩ := run_ofExcept_eq_ok.1 hblank
  obtain ⟨j, s₃, hj, h⟩ := run_bind_eq_ok.1 h
  obtain ⟨hjacobians, rfl⟩ := run_ofExcept_eq_ok.1 hj
  obtain ⟨op, s₄, hwithin, h⟩ := run_bind_eq_ok.1 h
  obtain ⟨last, hsetup, rfl⟩ := Run.run_within_eq_ok hwithin
  have hsizes := OperatorData.sizes_of_setup data.shape.hasKernel hsetup
  rw [OperatorData.setup_eq data.shape.hasKernel hsizes] at hsetup
  cases hsetup
  cases h
  rw [bind_eq_ok] at hfilled
  obtain ⟨len, hlen, hfilled⟩ := hfilled
  rw [filled, bind_eq_ok] at hfilled
  obtain ⟨_, hreserve, hblank⟩ := hfilled
  obtain rfl := Except.ok.inj hblank
  rw [Array.size_replicate] at hsizes
  obtain rfl := hsizes.op
  exact ⟨data, j, hcompute, hjacobians, rfl, hsizes, Size.reserve_eq_ok.1 hreserve⟩

/-- **A context is assembled** where the setup accepts the sizes and there is room for the forms. -/
theorem assemble_ok {context : Context α} {data : PointData α} {j : Array α} {s : Session Unit}
    (hcompute : PointData.compute context = .ok data) (hj : data.jacobians = .ok j)
    (hsizes : data.SizesOf context j) (hforms : data.FormsFit) :
    (assemble context).run s = .ok (ofData context data j)
      ⟨s.value, (s.events.push (.setup data.shape data.ne data.samples.isConstant)).push
        (.setupKernel data.shape.dim data.shape.sdim data.shape.q1d data.ne)⟩ := by
  have hk := data.shape.hasKernel
  have hpoints : data.shape.numPoints = .ok (data.shape.q1d ^ data.shape.dim) :=
    Size.pow_ok (hsizes.points_lt hk)
  have hblank : (do filled (← data.shape.opLen data.ne) (0 : α)) = .ok (Array.replicate
      (data.shape.q1d ^ data.shape.dim * symmetricEntries data.shape.dim * data.ne) 0) := by
    rw [Shape.opLen, hpoints, ok_bind, Shape.symmetricEntries, hsizes.opLen_ok hk, ok_bind,
      filled_ok hforms]
  rw [assemble, run_bind_ok (run_ofExcept hcompute s), run_bind_ok (Run.run_record _)]
  refine (run_bind_ok (run_ofExcept hblank _)).trans ?_
  refine (run_bind_ok (run_ofExcept hj _)).trans ?_
  refine (run_bind_ok (Run.run_within (OperatorData.setup_eq hk ?_))).trans rfl
  rwa [Array.size_replicate]

end Factorized

/-! ### Dense element matrices -/

namespace Dense

/-- **Dense matrices that were assembled** had a view of the Jacobians and room, and there is one
for every element. -/
theorem assemble_eq_ok {α : Type} [Zero α] [One α] [Add α] [Sub α] [Mul α] [Neg α] [Div α] [BEq α]
    [OfDouble α] [SquareRoot α] [Stored α] {context : Context α} {operator : Dense α}
    {s s' : Session Unit} (h : (assemble context).run s = .ok operator s') :
    ∃ data j v, PointData.compute context = .ok data ∧ data.jacobians = .ok j ∧
      View.ofBuffer j [data.shape.q1d ^ data.shape.dim, data.shape.sdim, data.shape.dim, data.ne] =
        .ok v ∧
      Stored.bytes α * (data.shape.d1d ^ data.shape.dim * data.shape.d1d ^ data.shape.dim *
        data.ne) < Size.bufferBound ∧
      operator.shape = data.shape ∧ operator.ne = data.ne ∧
      operator.matrices.size =
        data.shape.d1d ^ data.shape.dim * data.shape.d1d ^ data.shape.dim * data.ne := by
  rw [assemble] at h
  obtain ⟨data, s₁, hdata, h⟩ := run_bind_eq_ok.1 h
  obtain ⟨hcompute, rfl⟩ := run_ofExcept_eq_ok.1 hdata
  dsimp only at h
  obtain ⟨nq, s₂, hnq, h⟩ := run_bind_eq_ok.1 h
  obtain ⟨hpoints, rfl⟩ := run_ofExcept_eq_ok.1 hnq
  obtain ⟨-, rfl⟩ := Size.pow_eq_ok.1 hpoints
  obtain ⟨nd, s₃, hnd, h⟩ := run_bind_eq_ok.1 h
  obtain ⟨hnodes, rfl⟩ := run_ofExcept_eq_ok.1 hnd
  obtain ⟨-, rfl⟩ := Size.pow_eq_ok.1 hnodes
  obtain ⟨matrices, s₄, hmatrices, h⟩ := run_bind_eq_ok.1 h
  obtain ⟨hrun, rfl⟩ := run_ofExcept_eq_ok.1 hmatrices
  rw [run_bind_ok (Run.run_record _)] at h
  cases h
  simp only [bind_eq_ok] at hrun
  obtain ⟨j, hj, v, hv, _, -, _, -, len, hlen, blank, hblank, hfill⟩ := hrun
  obtain ⟨_, hreserve, hblank⟩ := bind_eq_ok.1 hblank
  obtain rfl := Except.ok.inj hblank
  have hlt := Size.reserve_eq_ok.1 hreserve
  have hlen : len = data.shape.d1d ^ data.shape.dim * data.shape.d1d ^ data.shape.dim * data.ne := by
    rw [Size.product_eq hlen]
    simp [volume, Nat.mul_assoc]
  rw [hlen] at hlt hfill
  refine ⟨data, j, v, hcompute, hj, hv, hlt, rfl, rfl, ?_⟩
  rw [Update.fill] at hfill
  split at hfill
  · rename_i out hloop
    obtain rfl := Except.ok.inj hfill
    rw [KeepsSize.forElements _ _ _ _ _ _ _ hloop, Array.size_replicate]
  · cases hfill

/-- The Jacobian of a point is read from a view. -/
theorem jacobian_ok {K : Type} [Zero K] [Stored K] {nq sdim dim ne q e : Nat} {v : View K}
    (hk : HasKernel dim sdim) (hv : v.shape = [nq, sdim, dim, ne]) (hq : q < nq) (he : e < ne) :
    ∃ m, (Matrix.build sdim dim fun i k => v.get [q, i, k, e]) = .ok m ∧
      m.Holds (jacobianAt nq sdim dim v.data q e) := by
  have hsmall : sdim * dim ≤ 9 := by
    rcases hk with ⟨rfl, rfl⟩ | ⟨rfl, rfl⟩ | ⟨rfl, rfl⟩ <;> decide
  exact Matrix.build_ok (small_room hsmall) fun i k =>
    View.get_jacobian hv hq i.isLt k.isLt he

section

variable {K : Type} [Field K] [BEq K] [LawfulBEq K] [SquareRoot K] [Stored K] {context : Context K}
  {data : PointData K} {v : View K} {q e : Nat}

/-- The matrix of a point whose `Jᵀ J` is singular is refused. -/
theorem entry_singular
    (hshape : v.shape = [data.shape.q1d ^ data.shape.dim, data.shape.sdim, data.shape.dim, data.ne])
    (hq : q < data.shape.q1d ^ data.shape.dim) (he : e < data.ne)
    (hdet : ((data.jacobianOf v.data q e)ᵀ * data.jacobianOf v.data q e).det = 0) :
    (do
      let jacobian ← Matrix.build data.shape.sdim data.shape.dim fun i k => v.get [q, i, k, e]
      pointMatrix context.rule.weights data.samples jacobian q e) =
      .error (.refused (.singularJacobian q e)) := by
  have hk := data.shape.hasKernel
  obtain ⟨jacobian, hbuild, hjacobian⟩ := jacobian_ok hk hshape hq he
  rw [hbuild, ok_bind, pointMatrix_singular hk hjacobian hdet]

/-- The matrix of a point whose `Jᵀ J` is regular is the form that a setup stores. -/
theorem entry_regular [LinearOrder K] [IsStrictOrderedRing K] [ExactRoot K]
    (hwf : data.WellFormed context) (hsizes : data.SizesOf context v.data)
    (hshape : v.shape = [data.shape.q1d ^ data.shape.dim, data.shape.sdim, data.shape.dim, data.ne])
    (hq : q < data.shape.q1d ^ data.shape.dim) (he : e < data.ne)
    (hdet : ((data.jacobianOf v.data q e)ᵀ * data.jacobianOf v.data q e).det ≠ 0) :
    ∃ m, (do
        let jacobian ← Matrix.build data.shape.sdim data.shape.dim fun i k => v.get [q, i, k, e]
        pointMatrix context.rule.weights data.samples jacobian q e) = .ok m ∧
      m.Holds (formMatrix data.shape.dim (data.shape.q1d ^ data.shape.dim)
        (Factorized.ofData context data v.data).op q e) := by
  have hk := data.shape.hasKernel
  obtain ⟨jacobian, hbuild, hjacobian⟩ := jacobian_ok hk hshape hq he
  have hw : slot context.rule.weights q = .ok (context.rule.weights.getD q 0) :=
    slot_getD 0 (hsizes.w ▸ hq)
  have hc := Samples.get_eq hwf.samples hsizes.c (hsizes.samples_lt hk) hq he
  obtain ⟨m, hm, hholds⟩ := pointMatrix_regular hk hjacobian hw hc hdet
  refine ⟨m, bind_eq_ok.2 ⟨jacobian, hbuild, hm⟩, ?_⟩
  have hform := formMatrix_regular (w := context.rule.weights) (c := data.samples.values) hk
    (Array.size_replicate (v := (0 : K))) hq he hdet
  rw [Factorized.ofData, hform]
  exact hholds

/-- The matrix of a point that stands at a flat position. -/
def entryAt (context : Context K) (data : PointData K) (v : View K) (p : Nat) :
    Except Fault (Matrix K) := do
  let nq := data.shape.q1d ^ data.shape.dim
  let jacobian ← Matrix.build data.shape.sdim data.shape.dim fun i k => v.get [p % nq, i, k, p / nq]
  pointMatrix context.rule.weights data.samples jacobian (p % nq) (p / nq)

variable [LinearOrder K] [IsStrictOrderedRing K] [ExactRoot K]

/-- Points are visited element by element; the first singular one is refused. -/
theorem points_singular (hwf : data.WellFormed context) (hsizes : data.SizesOf context v.data)
    (hshape : v.shape = [data.shape.q1d ^ data.shape.dim, data.shape.sdim, data.shape.dim, data.ne])
    (hq : q < data.shape.q1d ^ data.shape.dim) (he : e < data.ne)
    (hdet : ((data.jacobianOf v.data q e)ᵀ * data.jacobianOf v.data q e).det = 0) :
    ∃ q e, q < data.shape.q1d ^ data.shape.dim ∧ e < data.ne ∧
      ((data.jacobianOf v.data q e)ᵀ * data.jacobianOf v.data q e).det = 0 ∧
      tabulate (data.shape.q1d ^ data.shape.dim * data.ne) (entryAt context data v) =
        .error (.refused (.singularJacobian q e)) := by
  classical
  obtain ⟨nq, hnq⟩ : ∃ nq, nq = data.shape.q1d ^ data.shape.dim := ⟨_, rfl⟩
  -- The least singular position; all before it are regular, so the assembly gets there.
  let Singular (p : Nat) : Prop := p < nq * data.ne ∧
    ((data.jacobianOf v.data (p % nq) (p / nq))ᵀ * data.jacobianOf v.data (p % nq) (p / nq)).det = 0
  have hexists : ∃ p, Singular p := by
    refine ⟨q + nq * e, pair_lt (hnq ▸ hq) he, ?_⟩
    rw [pair_mod _ (hnq ▸ hq), pair_div _ (hnq ▸ hq)]
    exact hdet
  obtain ⟨hp, hpdet⟩ := Nat.find_spec hexists
  have hbefore : ∀ i < Nat.find hexists, ∃ m, entryAt context data v i = .ok m := by
    intro i hi
    have hlt : i < nq * data.ne := Nat.lt_trans hi hp
    have hregular := fun h => Nat.find_min hexists hi ⟨hlt, h⟩
    obtain ⟨m, hm, -⟩ := entry_regular hwf hsizes hshape (hnq ▸ mod_lt_left hlt) (div_lt_right hlt)
      hregular
    subst hnq
    exact ⟨m, hm⟩
  subst hnq
  exact ⟨_, _, mod_lt_left hp, div_lt_right hp, hpdet, tabulate_error hp hbefore
    (entry_singular hshape (mod_lt_left hp) (div_lt_right hp) hpdet)⟩

/-- Where every point is regular, the matrices are the forms that a setup stores. -/
theorem points_regular (hwf : data.WellFormed context) (hsizes : data.SizesOf context v.data)
    (hshape : v.shape = [data.shape.q1d ^ data.shape.dim, data.shape.sdim, data.shape.dim, data.ne])
    (hregular : ∀ q e, q < data.shape.q1d ^ data.shape.dim → e < data.ne →
      ((data.jacobianOf v.data q e)ᵀ * data.jacobianOf v.data q e).det ≠ 0) :
    ∃ pointMatrices,
      tabulate (data.shape.q1d ^ data.shape.dim * data.ne) (entryAt context data v) =
        .ok pointMatrices ∧
      ∀ q e, q < data.shape.q1d ^ data.shape.dim → e < data.ne →
        ∃ form, slot pointMatrices (q + data.shape.q1d ^ data.shape.dim * e) = .ok form ∧
          form.Holds (formMatrix data.shape.dim (data.shape.q1d ^ data.shape.dim)
            (Factorized.ofData context data v.data).op q e) := by
  obtain ⟨pointMatrices, hrun, hslot⟩ := tabulate_forall fun p hp =>
    entry_regular hwf hsizes hshape (mod_lt_left hp) (div_lt_right hp)
      (hregular _ _ (mod_lt_left hp) (div_lt_right hp))
  refine ⟨pointMatrices, hrun, ?_⟩
  intro q e hq he
  have hform := hslot _ (pair_lt hq he)
  rwa [pair_mod _ hq, pair_div _ hq] at hform

omit [BEq K] [LawfulBEq K] [SquareRoot K] [LinearOrder K] [IsStrictOrderedRing K] [ExactRoot K] in
/-- Where there is room for the matrices, there is room for the gradients of a point. -/
theorem gradient_room (hwf : data.WellFormed context)
    (hroom : FitsMemory K (data.shape.d1d ^ data.shape.dim * data.shape.d1d ^ data.shape.dim)
      data.ne) :
    Stored.bytes K * (data.shape.dim * data.shape.d1d ^ data.shape.dim) < Size.bufferBound := by
  have hle := (Shape.components_le hwf.two_le_d1d).1
  exact Nat.lt_of_le_of_lt (Nat.mul_le_mul_left _ (Nat.mul_le_mul_right _ hle)) hroom.one

omit [BEq K] [LawfulBEq K] [SquareRoot K] [LinearOrder K] [IsStrictOrderedRing K] [ExactRoot K] in
/-- The gradients at all points. -/
theorem gradients_ok (hwf : data.WellFormed context)
    (hpoints : data.shape.q1d ^ data.shape.dim < Size.bufferBound)
    (hroom : FitsMemory K (data.shape.d1d ^ data.shape.dim * data.shape.d1d ^ data.shape.dim)
      data.ne) :
    ∃ gradients,
      tabulate (data.shape.q1d ^ data.shape.dim) (referenceGradients data.shape data.tables
        (data.shape.d1d ^ data.shape.dim)) = .ok gradients ∧
      ∀ q < data.shape.q1d ^ data.shape.dim, ∃ gradient, slot gradients q = .ok gradient ∧
        gradient.Holds (gradientMatrix data.shape.dim data.shape.d1d data.shape.q1d data.tables.b
          data.tables.g q) := by
  have hdim := data.shape.dim_two_le
  have hnodes : data.shape.d1d ^ data.shape.dim < Size.bufferBound :=
    Nat.lt_of_le_of_lt (Nat.le_mul_of_pos_right _ (Nat.pow_pos data.shape.d1d_pos)) hroom.one_lt
  have htable : data.shape.q1d * data.shape.d1d < Size.bufferBound :=
    mul_lt_of_squares (Nat.lt_of_le_of_lt (square_le_pow data.shape.q1d_pos hdim) hpoints)
      (Nat.lt_of_le_of_lt (square_le_pow data.shape.d1d_pos hdim) hnodes)
  exact tabulate_forall fun q _ =>
    referenceGradients_ok hwf.tables.toSized hwf.ndof hwf.nqpt rfl htable (gradient_room hwf hroom)

variable [OfDouble K] {j : Array K} {s : Session Unit}

/-- **A context without singular points is assembled**, with the matrices of the forms that a setup
stores. -/
theorem assemble_ok (hcompute : PointData.compute context = .ok data)
    (hj : data.jacobians = .ok j) (hsizes : data.SizesOf context j)
    (hroom : FitsMemory K (data.shape.d1d ^ data.shape.dim * data.shape.d1d ^ data.shape.dim)
      data.ne)
    (hregular : ∀ q e, q < data.shape.q1d ^ data.shape.dim → e < data.ne →
      ((data.jacobianOf j q e)ᵀ * data.jacobianOf j q e).det ≠ 0) :
    (assemble context).run s =
      .ok (ofForms data.shape data.ne context.execution data.tables.b data.tables.g
          (Factorized.ofData context data j).op)
        ⟨s.value, s.events.push (.matrices data.ne (data.shape.d1d ^ data.shape.dim))⟩ := by
  have hwf := PointData.compute_wellFormed hcompute
  have hk := data.shape.hasKernel
  have hnd : 0 < data.shape.d1d ^ data.shape.dim := Nat.pow_pos data.shape.d1d_pos
  obtain ⟨v, hv⟩ := hsizes.jacobian_view hk
  obtain ⟨-, rfl, hshape⟩ := View.ofBuffer_eq_ok.1 hv
  have hpoints : data.shape.numPoints = .ok (data.shape.q1d ^ data.shape.dim) :=
    Size.pow_ok (hsizes.points_lt hk)
  obtain ⟨pointMatrices, hforms, hform⟩ := points_regular hwf hsizes hshape hregular
  obtain ⟨gradients, hgradients, hgradient⟩ := gradients_ok hwf (hsizes.points_lt hk) hroom
  have hlen : Size.product
      [data.shape.d1d ^ data.shape.dim, data.shape.d1d ^ data.shape.dim, data.ne] =
      .ok (data.shape.d1d ^ data.shape.dim * data.shape.d1d ^ data.shape.dim * data.ne) := by
    have hpos : ∀ n ∈ [data.shape.d1d ^ data.shape.dim, data.shape.d1d ^ data.shape.dim], 0 < n := by
      simp [hnd]
    exact Size.product_elements hpos (by simp [volume]) rfl hroom.lt
  have hfill := fill_ok context.execution data.shape.d1d_pos ⟨hform, hgradient⟩
    (gradient_room hwf hroom)
  unfold entryAt at hforms
  rw [assemble, run_bind_ok (run_ofExcept hcompute s)]
  dsimp only at hforms ⊢
  rw [run_bind_ok (run_ofExcept hpoints s), run_bind_ok (run_ofExcept hwf.numNodes_ok s), hj,
    ok_bind, hv, ok_bind, hforms, ok_bind, hgradients, ok_bind, hlen, ok_bind,
    hroom.filled_ok, ok_bind, hfill]
  rfl

/-- **A context with a singular point is refused.** -/
theorem assemble_singular (hcompute : PointData.compute context = .ok data)
    (hj : data.jacobians = .ok j) (hsizes : data.SizesOf context j)
    (hq : q < data.shape.q1d ^ data.shape.dim) (he : e < data.ne)
    (hdet : ((data.jacobianOf j q e)ᵀ * data.jacobianOf j q e).det = 0) :
    ∃ q e, q < data.shape.q1d ^ data.shape.dim ∧ e < data.ne ∧
      ((data.jacobianOf j q e)ᵀ * data.jacobianOf j q e).det = 0 ∧
      (assemble context).run s = .error (.refused (.singularJacobian q e)) s := by
  have hwf := PointData.compute_wellFormed hcompute
  have hk := data.shape.hasKernel
  obtain ⟨v, hv⟩ := hsizes.jacobian_view hk
  obtain ⟨-, rfl, hshape⟩ := View.ofBuffer_eq_ok.1 hv
  have hpoints : data.shape.numPoints = .ok (data.shape.q1d ^ data.shape.dim) :=
    Size.pow_ok (hsizes.points_lt hk)
  obtain ⟨q', e', hq', he', hdet', hentries⟩ := points_singular hwf hsizes hshape hq he hdet
  refine ⟨q', e', hq', he', hdet', ?_⟩
  rw [assemble, run_bind_ok (run_ofExcept hcompute s)]
  dsimp only
  rw [run_bind_ok (run_ofExcept hpoints s), run_bind_ok (run_ofExcept hwf.numNodes_ok s)]
  refine run_bind_error (run_ofExcept_error ?_ s)
  rw [hj, ok_bind, hv, ok_bind]
  change (tabulate _ (entryAt context data v) >>= _) = _
  rw [hentries]
  rfl

end

end Dense

end TensorDiffusion
