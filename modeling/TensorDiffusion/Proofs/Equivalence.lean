import Mathlib
import TensorDiffusion.Proofs.Assembly
import TensorDiffusion.Proofs.Exact

/-!
# Both forms of an operator are one operator

Where a sum-factorized operator can be assembled, the operator of dense element matrices can be
assembled from the same context unless a Jacobian is singular, and then it is refused.  Applied to
the same vectors the two leave the same output (`dense_eq_factorized`).
-/

open scoped Matrix

namespace TensorDiffusion

variable {K : Type}

/-- Room for both forms of the operator of a context: for the matrices, which are not assembled
without it, and for the forms of one element where there are none. -/
structure Context.HasRoom [Stored K] (context : Context K) : Prop where
  matrices : FitsMemory K (context.space.nodesPerElement * context.space.nodesPerElement)
    context.space.numElements
  forms : context.space.numElements = 0 →
    FitsMemory K (context.rule.numPoints1d ^ context.space.dim *
      symmetricEntries context.space.dim) 0

namespace PointData.WellFormed

variable [Zero K] [Stored K] {context : Context K} {data : PointData K}

theorem matrices_fit (hwf : data.WellFormed context) (hroom : context.HasRoom) :
    FitsMemory K (data.shape.d1d ^ data.shape.dim * data.shape.d1d ^ data.shape.dim) data.ne := by
  rw [hwf.d1d, hwf.dim, hwf.ne]
  exact hroom.matrices

theorem forms_fit (hwf : data.WellFormed context) (hforms : data.FormsFit)
    (hnone : context.space.numElements = 0 →
      FitsMemory K (context.rule.numPoints1d ^ context.space.dim *
        symmetricEntries context.space.dim) 0) :
    FitsMemory K (data.shape.q1d ^ data.shape.dim * symmetricEntries data.shape.dim) data.ne := by
  -- With elements the assembly has found the room; without, it has asked for none.
  rcases Nat.eq_zero_or_pos data.ne with hne | hne
  · rw [hne, hwf.q1d, hwf.dim]
    exact hnone (hwf.ne ▸ hne)
  · rwa [FitsMemory, Nat.max_eq_right hne]

/-- A vector has room where the matrices have. -/
theorem vector_fits (hwf : data.WellFormed context) (hroom : context.HasRoom) :
    FitsMemory K (data.shape.d1d ^ data.shape.dim * data.shape.vdim) data.ne :=
  Nat.lt_of_le_of_lt (Nat.mul_le_mul_left _ (Nat.mul_le_mul_right _ (Nat.mul_le_mul_left _
    (Shape.components_le hwf.two_le_d1d).2.1))) (hwf.matrices_fit hroom)

omit [Stored K] in
theorem vectorLen_eq (hwf : data.WellFormed context) :
    context.space.vectorLen = data.shape.d1d ^ data.shape.dim * data.shape.vdim * data.ne := by
  rw [hwf.d1d, hwf.dim, hwf.ne, Shape.vdim, hwf.sdim]
  rfl

/-- The kernels accept the sizes of an assembled operator. -/
theorem kernelSizes {len opLen : Nat} (hwf : data.WellFormed context)
    (hvector : FitsMemory K (data.shape.d1d ^ data.shape.dim * data.shape.vdim) data.ne)
    (hforms : FitsMemory K (data.shape.q1d ^ data.shape.dim * symmetricEntries data.shape.dim)
      data.ne)
    (hop : opLen = data.shape.q1d ^ data.shape.dim * symmetricEntries data.shape.dim * data.ne)
    (hlen : len = context.space.vectorLen) :
    KernelSizes K data.shape.dim data.shape.vdim data.shape.d1d data.shape.q1d data.ne
      context.execution.limits opLen len where
  d1d_pos := data.shape.d1d_pos
  q1d_pos := data.shape.q1d_pos
  vdim_pos := data.shape.vdim_pos
  maxD1d := hwf.maxD1d
  maxQ1d := hwf.maxQ1d
  opLen := hop
  len := by rw [hlen, hwf.vectorLen_eq]
  opFits := hforms
  vectorFits := hvector

/-- There is room for the workspace of the diagonal on faces. -/
theorem diagonal_room (hwf : data.WellFormed context) (hroom : context.HasRoom)
    (hforms : data.FormsFit) (hdim : data.shape.dim = 2) :
    Stored.bytes K * (3 * data.shape.q1d * data.shape.d1d) < Size.bufferBound := by
  have hpoints := (hwf.forms_fit hforms hroom.forms).one
  have hmatrices := (hwf.matrices_fit hroom).one
  have hthree := (Shape.components_le hwf.two_le_d1d).2.2
  rw [hdim] at hpoints hmatrices hthree
  -- The workspace is below the matrices or below the forms, whichever side is longer.
  rcases Nat.le_total data.shape.q1d data.shape.d1d with hle | hle
  · have hbound : 3 * data.shape.q1d * data.shape.d1d ≤ data.shape.d1d ^ 2 * data.shape.d1d ^ 2 :=
      calc 3 * data.shape.q1d * data.shape.d1d = 3 * (data.shape.q1d * data.shape.d1d) :=
            Nat.mul_assoc _ _ _
        _ ≤ data.shape.d1d ^ 2 * (data.shape.d1d * data.shape.d1d) :=
            Nat.mul_le_mul hthree (Nat.mul_le_mul_right _ hle)
        _ = data.shape.d1d ^ 2 * data.shape.d1d ^ 2 := by rw [Nat.pow_two]
    exact Nat.lt_of_le_of_lt (Nat.mul_le_mul_left _ hbound) hmatrices
  · have hbound : 3 * data.shape.q1d * data.shape.d1d ≤ data.shape.q1d ^ 2 * symmetricEntries 2 :=
      calc 3 * data.shape.q1d * data.shape.d1d = 3 * (data.shape.q1d * data.shape.d1d) :=
            Nat.mul_assoc _ _ _
        _ ≤ 3 * (data.shape.q1d * data.shape.q1d) :=
            Nat.mul_le_mul_left _ (Nat.mul_le_mul_left _ hle)
        _ = data.shape.q1d ^ 2 * symmetricEntries 2 := by rw [Nat.pow_two, Nat.mul_comm]; rfl
    exact Nat.lt_of_le_of_lt (Nat.mul_le_mul_left _ hbound) hpoints

end PointData.WellFormed

/-- `Jᵀ J` is invertible at point `q` of element `e`. -/
def PointData.RegularAt [Field K] [Stored K] (data : PointData K) (j : Array K) (q e : Nat) : Prop :=
  IsUnit ((data.jacobianOf j q e)ᵀ * data.jacobianOf j q e)

theorem PointData.regularAt_iff [Field K] [Stored K] {data : PointData K} {j : Array K} {q e : Nat} :
    data.RegularAt j q e ↔
      ((data.jacobianOf j q e)ᵀ * data.jacobianOf j q e).det ≠ 0 :=
  (Matrix.isUnit_iff_isUnit_det _).trans isUnit_iff_ne_zero

variable [Field K] [SquareRoot K] [Stored K]

/-- Two operators accept every vector of a length and leave the same output. -/
structure SameOutputs (len : Nat) (factorized : Factorized K) (dense : Dense K) : Prop where
  addMult : ∀ {x y : Array K} (events : Array Event), x.size = len → y.size = len →
    ∃ out journal, (factorized.addMult x).run ⟨y, events⟩ = .ok () ⟨out, journal⟩ ∧
      (dense.addMult x).run ⟨y, events⟩ = .ok () ⟨out, events⟩
  addDiagonal : ∀ {diag : Array K} (events : Array Event), diag.size = len →
    ∃ out journal, factorized.addDiagonal.run ⟨diag, events⟩ = .ok () ⟨out, journal⟩ ∧
      dense.addDiagonal.run ⟨diag, events⟩ = .ok () ⟨out, events⟩

/-- From the same data both forms leave the same output. -/
theorem sameOutputs_ofData {context : Context K} {data : PointData K} {j : Array K}
    (hwf : data.WellFormed context) (hroom : context.HasRoom)
    (hforms : data.FormsFit) :
    SameOutputs context.space.vectorLen (Factorized.ofData context data j)
      (Dense.ofForms data.shape data.ne context.execution data.tables.b data.tables.g
        (Factorized.ofData context data j).op) where
  addMult {x y} events hx hy := by
    have hsizes := hwf.kernelSizes (hwf.vector_fits hroom) (hwf.forms_fit hforms hroom.forms)
      (Factorized.size_op context data j) hy
    exact ⟨_, _,
      Factorized.addMult_ok hwf.tables hwf.ndof hwf.nqpt hsizes (hx.trans hy.symm),
      Dense.addMult_ok (hwf.matrices_fit hroom).lt hsizes.vectorFits.lt hsizes.len
        (hx.trans hy.symm)⟩
  addDiagonal {diag} events hdiag := by
    have hsizes := hwf.kernelSizes (hwf.vector_fits hroom) (hwf.forms_fit hforms hroom.forms)
      (Factorized.size_op context data j) hdiag
    exact ⟨_, _,
      Factorized.addDiagonal_ok hwf.ndof hwf.nqpt hwf.tables.toSized hsizes
        (hwf.diagonal_room hroom hforms),
      Dense.addDiagonal_ok (hwf.matrices_fit hroom).lt hsizes.vectorFits.lt hsizes.len⟩

/-- **Both forms of an operator are one operator.**  Where the sum-factorized form of a context can
be assembled and `Jᵀ J` is invertible at every point, the dense form can be assembled too, if there
is room for its matrices, and leaves the same outputs.  Where `Jᵀ J` is singular at some point the
dense form is refused, and such a point is named. -/
theorem dense_eq_factorized [LinearOrder K] [IsStrictOrderedRing K] [BEq K] [LawfulBEq K]
    [OfDouble K] [ExactRoot K] {context : Context K} {operator : Factorized K}
    {s s' : Session Unit} (h : (Factorized.assemble context).run s = .ok operator s') :
    ∃ data j, PointData.compute context = .ok data ∧ data.jacobians = .ok j ∧
      ((∀ q e, q < data.shape.q1d ^ data.shape.dim → e < data.ne → data.RegularAt j q e) →
        context.HasRoom →
        ∃ dense s'', (Dense.assemble context).run s = .ok dense s'' ∧
          SameOutputs context.space.vectorLen operator dense) ∧
      ((∃ q e, q < data.shape.q1d ^ data.shape.dim ∧ e < data.ne ∧ ¬ data.RegularAt j q e) →
        ∃ q e, q < data.shape.q1d ^ data.shape.dim ∧ e < data.ne ∧ ¬ data.RegularAt j q e ∧
          (Dense.assemble context).run s = .error (.refused (.singularJacobian q e)) s) := by
  obtain ⟨data, j, hcompute, hj, rfl, hsizes, hforms⟩ := Factorized.assemble_eq_ok h
  have hwf := PointData.compute_wellFormed hcompute
  refine ⟨data, j, hcompute, hj, ?_, ?_⟩
  · intro hregular hroom
    have hdet := fun q e hq he => PointData.regularAt_iff.1 (hregular q e hq he)
    exact ⟨_, _, Dense.assemble_ok hcompute hj hsizes (hwf.matrices_fit hroom) hdet,
      sameOutputs_ofData hwf hroom hforms⟩
  · rintro ⟨q, e, hq, he, hsingular⟩
    rw [PointData.regularAt_iff, not_not] at hsingular
    obtain ⟨q', e', hq', he', hdet, hrefused⟩ :=
      Dense.assemble_singular hcompute hj hsizes hq he hsingular
    refine ⟨q', e', hq', he', ?_, hrefused⟩
    rwa [PointData.regularAt_iff, not_not]

/-! ### One face -/

theorem hasKernel_plane : HasKernel 2 2 :=
  .inl ⟨rfl, rfl⟩

/-- The basis of order one over the reals. -/
theorem Space.basis_of_order_one {space : Space ℝ} (h : space.order = 1) :
    space.basis = .ok ⟨[-1, 1], [-1 / 2, 1 / 2]⟩ := by
  have hnodes : space.basis = LagrangeBasis.ofNodes
      [OfDouble.ofDouble (-One.one : Float), OfDouble.ofDouble (One.one : Float)] := by
    rw [Space.basis, h]
    rfl
  rw [hnodes, ofDouble_one, ofDouble_neg_one]
  simp [LagrangeBasis.ofNodes, LagrangeBasis.distances, require]
  norm_num

/-- A rule with one point on an axis, of weight one. -/
noncomputable def middleRule : TensorRule ℝ := ⟨2, #[0], #[1], #[1]⟩

/-- The tables of order one at the middle of the interval. -/
noncomputable def middleTables : Tables ℝ :=
  ⟨2, 1, #[half, half], #[-half, half], #[half, half], #[-half, half]⟩

theorem Tables.ofRule_middle :
    Tables.ofRule ⟨[-1, 1], [-1 / 2, 1 / 2]⟩ middleRule = .ok middleTables := by
  have hrun : Tables.ofRule ⟨[-1, 1], [-1 / 2, 1 / 2]⟩ middleRule = .ok ⟨2, 1,
      #[-1 / 2 * (1 * (0 - 1)), 1 / 2 * (1 * (0 - -1))],
      #[-1 / 2 * (0 * (0 - 1) + 1), 1 / 2 * (0 * (0 - -1) + 1)],
      #[-1 / 2 * (1 * (0 - 1)), 1 / 2 * (1 * (0 - -1))],
      #[-1 / 2 * (0 * (0 - 1) + 1), 1 / 2 * (0 * (0 - -1) + 1)]⟩ := by
    with_unfolding_all rfl
  rw [hrun, middleTables]
  norm_num [half]

/-- The Jacobian at the middle of a face. -/
theorem Geometry.ofNodes_face {b₀ b₁ g₀ g₁ x₀ x₁ x₂ x₃ y₀ y₁ y₂ y₃ : ℝ} {bt gt : Array ℝ} :
    Geometry.ofNodes 2 2 ⟨2, 1, #[b₀, b₁], #[g₀, g₁], bt, gt⟩ #[x₀, x₁, x₂, x₃, y₀, y₁, y₂, y₃]
      ⟨true, false⟩ {} = .ok ⟨2, 2, 1, 1, some #[
        0 + b₀ * (0 + g₀ * x₀ + g₁ * x₁) + b₁ * (0 + g₀ * x₂ + g₁ * x₃),
        0 + b₀ * (0 + g₀ * y₀ + g₁ * y₁) + b₁ * (0 + g₀ * y₂ + g₁ * y₃),
        0 + g₀ * (0 + b₀ * x₀ + b₁ * x₁) + g₁ * (0 + b₀ * x₂ + b₁ * x₃),
        0 + g₀ * (0 + b₀ * y₀ + b₁ * y₁) + g₁ * (0 + b₀ * y₂ + b₁ * y₃)], none⟩ := by
  cbv

theorem Geometry.ofNodes_sheared :
    Geometry.ofNodes 2 2 middleTables #[0, 2, 1, 3, 0, 0, 2, 2] ⟨true, false⟩ {} =
      .ok ⟨2, 2, 1, 1, some #[1, 0, half, 1], none⟩ := by
  rw [middleTables, ofNodes_face]
  norm_num [half]

/-- What is known at the middle of the sheared face. -/
noncomputable def shearedData : PointData ℝ where
  shape := ⟨2, 2, 2, 1, hasKernel_plane, Nat.two_pos, Nat.one_pos⟩
  ne := 1
  tables := middleTables
  geometry := ⟨2, 2, 1, 1, some #[1, 0, half, 1], none⟩
  samples := ⟨1, 1, #[1]⟩

theorem compute_sheared {space : Space ℝ}
    (h : Space.ofNodes 2 2 1 #[0, 2, 1, 3, 0, 0, 2, 2] = .ok space) :
    PointData.compute ⟨space, middleRule, .constant 1, {}⟩ = .ok shearedData := by
  obtain rfl := Except.ok.inj h
  exact bind_eq_ok.2 ⟨_, rfl, bind_eq_ok.2 ⟨_, Space.basis_of_order_one rfl, bind_eq_ok.2
    ⟨_, Tables.ofRule_middle, bind_eq_ok.2 ⟨_, Geometry.ofNodes_sheared, rfl⟩⟩⟩⟩

theorem jacobianOf_sheared : shearedData.jacobianOf #[1, 0, half, 1] 0 0 = !![1, half; 0, 1] := by
  ext i k
  fin_cases i <;> fin_cases k <;> rfl

theorem regularAt_sheared (q e : Nat) (hq : q < 1 ^ 2) (he : e < 1) :
    shearedData.RegularAt #[1, 0, half, 1] q e := by
  obtain rfl : q = 0 := by omega
  obtain rfl : e = 0 := by omega
  have hdet : (!![1, half; 0, 1]ᵀ * !![1, half; 0, 1] : FinMatrix 2 2 ℝ).det ≠ 0 := by
    rw [Matrix.det_mul, Matrix.det_transpose, Matrix.det_fin_two_of]
    norm_num
  rw [PointData.regularAt_iff, jacobianOf_sheared]
  exact hdet

/-- A sheared face has both forms, and they are one operator. -/
theorem dense_eq_factorized_sheared_face :
    ∃ (space : Space ℝ) (factorized : Factorized ℝ) (dense : Dense ℝ) (s₁ s₂ : Session Unit),
      Space.ofNodes 2 2 1 #[0, 2, 1, 3, 0, 0, 2, 2] = .ok space ∧
      (Factorized.assemble ⟨space, middleRule, .constant 1, {}⟩).run ⟨(), #[]⟩ =
        .ok factorized s₁ ∧
      (Dense.assemble ⟨space, middleRule, .constant 1, {}⟩).run ⟨(), #[]⟩ = .ok dense s₂ ∧
      SameOutputs 8 factorized dense := by
  obtain ⟨space, hspace⟩ : ∃ space : Space ℝ,
      Space.ofNodes 2 2 1 #[0, 2, 1, 3, 0, 0, 2, 2] = .ok space := ⟨_, rfl⟩
  have hdata := compute_sheared hspace
  have hsizes : shearedData.SizesOf ⟨space, middleRule, .constant 1, {}⟩ #[1, 0, half, 1] :=
    ⟨by decide, rfl, by decide, by decide, by decide, by decide⟩
  have hassemble := Factorized.assemble_ok (s := ⟨(), #[]⟩) hdata rfl hsizes (by decide)
  obtain ⟨data, j, hcompute, hj, hregular, -⟩ := dense_eq_factorized hassemble
  obtain rfl := Except.ok.inj (hcompute.symm.trans hdata)
  obtain rfl := Except.ok.inj hj
  obtain rfl := Except.ok.inj hspace
  obtain ⟨dense, s₂, hdense, hsame⟩ := hregular regularAt_sheared ⟨by decide, by decide⟩
  exact ⟨_, _, dense, _, s₂, rfl, hassemble, hdense, hsame⟩

end TensorDiffusion
