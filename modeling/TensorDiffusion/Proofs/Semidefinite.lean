import TensorDiffusion.Proofs.Equivalence
import TensorDiffusion.Proofs.Integration
import TensorDiffusion.Proofs.PointSizes
import TensorDiffusion.Proofs.Symmetry

/-!
# Assembled operators are symmetric

Whatever a successful assembly made, in either form: what it adds to an output is a symmetric
function of the vector it is applied to, and a positive semidefinite one where no weight, times the
coefficient and the volume factor, is negative (`assembled_symmetric`).
-/

open scoped Matrix

namespace TensorDiffusion

variable {K : Type}

/-- A computation whose result is mapped. -/
theorem run_map_eq_ok {σ β γ : Type} {x : EStateM Fault σ β} {f : β → γ} {s s' : σ} {r : γ} :
    (f <$> x).run s = .ok r s' ↔ ∃ a, x.run s = .ok a s' ∧ r = f a := by
  rw [map_eq_pure_bind, run_bind_eq_ok]
  constructor
  · rintro ⟨a, s₁, hx, h⟩
    cases h
    exact ⟨a, hx, rfl⟩
  · rintro ⟨a, hx, rfl⟩
    exact ⟨a, s', hx, rfl⟩

section

variable [Field K] [SquareRoot K] [Stored K]

/-- Room for the vectors of a space, and for the forms of one element where there are none. -/
structure Context.HoldsVectors (context : Context K) : Prop where
  vectors : FitsMemory K (context.space.nodesPerElement * context.space.vdim)
    context.space.numElements
  forms : context.space.numElements = 0 →
    FitsMemory K (context.rule.numPoints1d ^ context.space.dim *
      symmetricEntries context.space.dim) 0

/-- The backend accepts every vector of a length, and adds the same to every output. -/
def Backend.Adds (backend : Backend K) (len : Nat) (image : Array K → Array K) : Prop :=
  ∀ {x y : Array K} (events : Array Event), x.size = len → y.size = len →
    (image x).size = len ∧ ∃ journal, (backend.addMult x).run ⟨y, events⟩ =
      .ok () ⟨Array.zipWith (· + ·) y (image x), journal⟩

/-- What the operator of a context adds. -/
def PointData.image (context : Context K) (data : PointData K) (j x : Array K) : Array K :=
  stiffnessVector data.shape.dim data.shape.vdim data.shape.d1d data.shape.q1d data.tables.b
    data.tables.g (Factorized.ofData context data j).op x

variable {context : Context K} {data : PointData K} {j : Array K}

omit [Stored K] in
theorem PointData.size_image (x : Array K) : (PointData.image context data j x).size = x.size :=
  size_stiffnessVector

omit [SquareRoot K] in
theorem PointData.WellFormed.holds_vector (hwf : data.WellFormed context)
    (hroom : context.HoldsVectors) :
    FitsMemory K (data.shape.d1d ^ data.shape.dim * data.shape.vdim) data.ne := by
  rw [hwf.d1d, hwf.dim, hwf.ne, Shape.vdim, hwf.sdim]
  exact hroom.vectors

/-- The sum-factorized operator of a context. -/
theorem Factorized.adds_image (hwf : data.WellFormed context) (hforms : data.FormsFit)
    (hroom : context.HoldsVectors) :
    (Backend.factorized (ofData context data j)).Adds context.space.vectorLen
      (PointData.image context data j) := by
  intro x y events hx hy
  have hsizes := hwf.kernelSizes (hwf.holds_vector hroom) (hwf.forms_fit hforms hroom.forms)
    (Factorized.size_op context data j) hy
  have hrun : ((ofData context data j).addMult x).run ⟨y, events⟩ = _ :=
    addMult_ok hwf.tables hwf.ndof hwf.nqpt hsizes (hx.trans hy.symm)
  rw [addStiffness_eq (hx.trans hy.symm)] at hrun
  exact ⟨(PointData.size_image x).trans hx, _, hrun⟩

omit [SquareRoot K] [Stored K] in
/-- Without elements there is nothing to add. -/
theorem Dense.addMult_empty {operator : Dense K} (hne : operator.ne = 0)
    (hfits : operator.shape.d1d ^ operator.shape.dim * operator.shape.vdim < Size.bufferBound)
    {events : Array Event} :
    (operator.addMult #[]).run ⟨#[], events⟩ = .ok () ⟨#[], events⟩ := by
  have hnd : 0 < operator.shape.d1d ^ operator.shape.dim := Nat.pow_pos operator.shape.d1d_pos
  have hnodes : operator.shape.numNodes = .ok (operator.shape.d1d ^ operator.shape.dim) :=
    Size.pow_ok (Nat.lt_of_le_of_lt (Nat.le_mul_of_pos_right _ operator.shape.vdim_pos) hfits)
  have hvectors : operator.shape.d1d ^ operator.shape.dim * operator.shape.vdim * max 1 operator.ne <
      Size.bufferBound := by
    rwa [hne, Nat.max_eq_left (Nat.zero_le 1), Nat.mul_one]
  have hempty : 0 = operator.shape.d1d ^ operator.shape.dim * operator.shape.vdim * operator.ne := by
    rw [hne, Nat.mul_zero]
  have hcheck := Shape.checkVectors_ok hvectors hempty rfl
  have hbody : ActsBy (operator.shape.d1d ^ operator.shape.dim * operator.shape.vdim) 0
      (fun _ => True) (operator.applyElement (operator.shape.d1d ^ operator.shape.dim)
        operator.shape.vdim #[]) fun _ _ v => v :=
    fun _ _ _ _ he => absurd he (Nat.not_lt_zero _)
  have hloop : (forElements operator.execution _ (.ofValue ()) _).run #[] = _ :=
    forElements_eq hbody (Nat.mul_pos hnd operator.shape.vdim_pos) rfl trivial (by simp)
  rw [addMult, run_bind_ok (run_get _)]
  refine (run_bind_ok (run_ofExcept hnodes _)).trans ?_
  refine (run_bind_ok (run_ofExcept hcheck _)).trans (Run.run_onValue ?_)
  rw [hloop]
  rfl

end

section

variable [Field K] [LinearOrder K] [IsStrictOrderedRing K] [BEq K] [LawfulBEq K] [OfDouble K]
  [SquareRoot K] [ExactRoot K] [Stored K] {context : Context K} {data : PointData K} {j : Array K}

/-- The dense operator of a context without singular points. -/
theorem Dense.adds_image {operator : Dense K} {s s' : Session Unit} (hrule : context.rule.Built)
    (hcompute : PointData.compute context = .ok data) (hj : data.jacobians = .ok j)
    (h : (assemble context).run s = .ok operator s') (hroom : context.HoldsVectors)
    (hregular : ∀ q e, q < data.shape.q1d ^ data.shape.dim → e < data.ne → data.RegularAt j q e) :
    (Backend.dense operator).Adds context.space.vectorLen (PointData.image context data j) := by
  have hwf := PointData.compute_wellFormed hcompute
  have hvector := hwf.holds_vector hroom
  obtain ⟨data', j', v, hcompute', hj', hv, hmatrices, hshape, hne, -⟩ := assemble_eq_ok h
  obtain rfl := Except.ok.inj (hcompute.symm.trans hcompute')
  obtain rfl := Except.ok.inj (hj.symm.trans hj')
  obtain ⟨j', hsized⟩ := PointData.sizes_of_compute hcompute
  obtain rfl := Except.ok.inj (hj.symm.trans hsized.jacobians)
  have hsizes := hsized.sizesOf_of_view hwf hrule hv
  rcases Nat.eq_zero_or_pos data.ne with hnone | hsome
  · -- Without elements the vectors are empty, and no room was made for matrices.
    intro x y events hx hy
    have hlen : context.space.vectorLen = 0 := by rw [hwf.vectorLen_eq, hnone, Nat.mul_zero]
    obtain rfl := Array.eq_empty_of_size_eq_zero (hx.trans hlen)
    obtain rfl := Array.eq_empty_of_size_eq_zero (hy.trans hlen)
    refine ⟨(PointData.size_image _).trans hx, events, ?_⟩
    have hrun : (operator.addMult #[]).run ⟨#[], events⟩ = _ :=
      Dense.addMult_empty (hne.trans hnone) (by rw [hshape]; exact hvector.one_lt)
    refine hrun.trans ?_
    simp
  · have hfits : FitsMemory K (data.shape.d1d ^ data.shape.dim * data.shape.d1d ^ data.shape.dim)
        data.ne := by
      rwa [FitsMemory, Nat.max_eq_right hsome]
    have hdet := fun q e hq he => PointData.regularAt_iff.1 (hregular q e hq he)
    have hrun := assemble_ok (s := s) hcompute hj hsizes hfits hdet
    rw [h] at hrun
    cases hrun
    intro x y events hx hy
    have hadd : ((ofForms data.shape data.ne context.execution data.tables.b data.tables.g
        (Factorized.ofData context data j).op).addMult x).run ⟨y, events⟩ = _ :=
      Dense.addMult_ok hfits.lt hvector.lt (hy.trans hwf.vectorLen_eq) (hx.trans hy.symm)
    rw [addStiffness_eq (hx.trans hy.symm)] at hadd
    exact ⟨(PointData.size_image x).trans hx, events, hadd⟩

omit [LinearOrder K] [IsStrictOrderedRing K] [BEq K] [LawfulBEq K] [OfDouble K] [ExactRoot K]
  [Stored K] in
theorem PointData.image_symmetric (hwf : data.WellFormed context) {x y : Array K}
    (hx : x.size = context.space.vectorLen) (hy : y.size = context.space.vectorLen) :
    scalarProduct (image context data j x) y = scalarProduct x (image context data j y) :=
  scalarProduct_stiffnessVector_comm (hx.trans hwf.vectorLen_eq) (hy.trans hx.symm)

omit [BEq K] [LawfulBEq K] [OfDouble K] in
theorem PointData.image_nonneg (hwf : data.WellFormed context)
    (hregular : ∀ q e, q < data.shape.q1d ^ data.shape.dim → e < data.ne → data.RegularAt j q e)
    (hsign : ∀ q e, q < data.shape.q1d ^ data.shape.dim → e < data.ne →
      0 ≤ context.rule.weights.getD q 0 *
        sampleEntry (data.shape.q1d ^ data.shape.dim) data.samples.values q e *
          volumeFactor (data.jacobianOf j q e))
    {x : Array K} (hx : x.size = context.space.vectorLen) :
    0 ≤ scalarProduct x (image context data j x) := by
  refine scalarProduct_stiffnessVector_nonneg (hx.trans hwf.vectorLen_eq) fun q e hq he a => ?_
  have hdet := regularAt_iff.1 (hregular q e hq he)
  rw [Factorized.ofData, formMatrix_regular data.shape.hasKernel Array.size_replicate hq he hdet,
    Matrix.smul_mulVec, dotProduct_smul, smul_eq_mul]
  exact mul_nonneg (hsign q e hq he) (gram_inverse_nonneg _ hdet a)

/-- Providers of the two forms of the library. -/
def Provider.Standard (provider : Provider K) : Prop :=
  ∀ context, provider.create context = Backend.factorized <$> Factorized.assemble context ∨
    provider.create context = Backend.dense <$> Dense.assemble context

omit [LinearOrder K] [IsStrictOrderedRing K] [LawfulBEq K] [ExactRoot K] in
/-- Whoever chose, the backend is one of the two forms. -/
theorem Integrator.chosen_eq_ok {provider : Option (Provider K)} {backend : Backend K}
    {s s' : Session Unit} (hprovider : ∀ p, provider = some p → p.Standard)
    (h : (chosen provider context).run s = .ok backend s') :
    (∃ operator, (Factorized.assemble context).run s = .ok operator s' ∧
      backend = .factorized operator) ∨
    ∃ operator, (Dense.assemble context).run s = .ok operator s' ∧ backend = .dense operator := by
  cases provider with
  | none => exact .inl (run_map_eq_ok.1 h)
  | some p =>
    rw [chosen] at h
    split at h
    · rcases hprovider p rfl context with hfactorized | hdense
      · rw [hfactorized] at h
        exact .inl (run_map_eq_ok.1 h)
      · rw [hdense] at h
        exact .inr (run_map_eq_ok.1 h)
    · exact .inl (run_map_eq_ok.1 h)

/-- A backend that was made of a context adds its image. -/
theorem Integrator.chosen_adds {provider : Option (Provider K)} {backend : Backend K}
    {s s' : Session Unit} (hprovider : ∀ p, provider = some p → p.Standard)
    (hrule : context.rule.Built) (h : (chosen provider context).run s = .ok backend s') :
    ∃ data j, PointData.compute context = .ok data ∧ data.jacobians = .ok j ∧
      ((∀ q e, q < data.shape.q1d ^ data.shape.dim → e < data.ne → data.RegularAt j q e) →
        context.HoldsVectors →
        backend.Adds context.space.vectorLen (PointData.image context data j)) := by
  rcases chosen_eq_ok hprovider h with ⟨operator, hrun, rfl⟩ | ⟨operator, hrun, rfl⟩
  · obtain ⟨data, j, hcompute, hj, rfl, -, hforms⟩ := Factorized.assemble_eq_ok hrun
    exact ⟨data, j, hcompute, hj, fun _ hroom =>
      Factorized.adds_image (PointData.compute_wellFormed hcompute) hforms hroom⟩
  · obtain ⟨data, j, _, hcompute, hj, -⟩ := Dense.assemble_eq_ok hrun
    exact ⟨data, j, hcompute, hj, fun hregular hroom =>
      Dense.adds_image hrule hcompute hj hrun hroom hregular⟩

/-- **Assembled operators are symmetric.**  What an integrator adds after a successful assembly, in
either form, is symmetric with respect to the scalar product if `Jᵀ J` is invertible at all points;
and positive semidefinite if no weight, times the coefficient and the volume factor, is negative. -/
theorem assembled_symmetric {integrator : Integrator K} {space : Space K} {events : Array Event}
    {assembled : Session (Integrator K)}
    (hrule : ∀ rule, integrator.rule = some rule → rule.Built)
    (hprovider : ∀ provider, integrator.provider = some provider → provider.Standard)
    (h : (Integrator.assemble space).run ⟨integrator, events⟩ = .ok () assembled) :
    ∃ rule data j, integrator.integrationRule space = .ok rule ∧
      PointData.compute (integrator.context space rule) = .ok data ∧ data.jacobians = .ok j ∧
      ((∀ q e, q < data.shape.q1d ^ data.shape.dim → e < data.ne → data.RegularAt j q e) →
        (integrator.context space rule).HoldsVectors →
        ∃ image : Array K → Array K,
          (∀ {x y : Array K} (events : Array Event), x.size = space.vectorLen →
            y.size = space.vectorLen → (image x).size = space.vectorLen ∧
            ∃ journal, (assembled.value.addMult x).run ⟨y, events⟩ =
              .ok () ⟨Array.zipWith (· + ·) y (image x), journal⟩) ∧
          (∀ {x y : Array K}, x.size = space.vectorLen → y.size = space.vectorLen →
            scalarProduct (image x) y = scalarProduct x (image y)) ∧
          ((∀ q e, q < data.shape.q1d ^ data.shape.dim → e < data.ne →
              0 ≤ rule.weights.getD q 0 *
                sampleEntry (data.shape.q1d ^ data.shape.dim) data.samples.values q e *
                  volumeFactor (data.jacobianOf j q e)) →
            ∀ {x : Array K}, x.size = space.vectorLen → 0 ≤ scalarProduct x (image x))) := by
  obtain ⟨rule, s, backend, s', hfound, hchosen, rfl⟩ := Integrator.assemble_run_ok.1 h
  have hfor := Integrator.ruleFor_eq_ok hfound
  obtain ⟨data, j, hcompute, hj, hadds⟩ := Integrator.chosen_adds hprovider
    (Integrator.built_integrationRule hrule hfor) hchosen
  have hwf := PointData.compute_wellFormed hcompute
  exact ⟨rule, data, j, hfor, hcompute, hj, fun hregular hroom =>
    ⟨PointData.image _ data j, hadds hregular hroom, PointData.image_symmetric hwf,
      fun hsign _ => PointData.image_nonneg hwf hregular hsign⟩⟩

end

/-! ### One face -/

theorem middleRule_built : middleRule.Built := by
  have h : TensorRule.ofInterval 2 #[(0 : ℝ)] #[1] = .ok ⟨2, #[0], #[1], #[1 * 1]⟩ := rfl
  rw [mul_one] at h
  exact .ofInterval h

/-- The sheared face, around the origin. -/
noncomputable def shearedFace : Space ℝ where
  dim := 2
  sdim := 2
  order := 1
  numElements := 1
  nodes := #[-(1 + half), half, -half, 1 + half, -1, -1, 1, 1]
  one_le_dim := Nat.le_succ 1
  dim_le_sdim := Nat.le_refl 2
  sdim_le := Nat.le_succ 2
  one_le_order := Nat.le_refl 1
  element_lt := (by decide : 8 < Size.bound)
  nodes_size := rfl

/-- An integrator that takes dense matrices on small elements. -/
noncomputable def denseIntegrator : Integrator ℝ :=
  ((Integrator.new (.constant 1)).withRule middleRule).withProvider (Provider.dense 64)

theorem compute_shearedFace :
    PointData.compute (denseIntegrator.context shearedFace middleRule) = .ok shearedData := by
  have hgeometry : Geometry.ofNodes 2 2 middleTables shearedFace.nodes ⟨true, false⟩ {} =
      .ok ⟨2, 2, 1, 1, some #[1, 0, half, 1], none⟩ := by
    rw [middleTables, shearedFace, Geometry.ofNodes_face]
    norm_num [half]
  exact bind_eq_ok.2 ⟨_, rfl, bind_eq_ok.2 ⟨_, Space.basis_of_order_one rfl, bind_eq_ok.2
    ⟨_, Tables.ofRule_middle, bind_eq_ok.2 ⟨_, hgeometry, rfl⟩⟩⟩⟩

theorem sizesOf_sheared :
    shearedData.SizesOf (denseIntegrator.context shearedFace middleRule) #[1, 0, half, 1] :=
  ⟨by decide, rfl, by decide, by decide, by decide, by decide⟩

theorem assemble_shearedFace :
    ∃ assembled, (Integrator.assemble shearedFace).run ⟨denseIntegrator, #[]⟩ =
      .ok () assembled := by
  have hdet := fun q e hq he => PointData.regularAt_iff.1 (regularAt_sheared q e hq he)
  have hrule : (denseIntegrator.ruleFor shearedFace).run ⟨(), #[]⟩ =
      .ok middleRule ⟨(), #[.underIntegrated 1 1 2]⟩ := rfl
  have hdense := Dense.assemble_ok (s := ⟨(), #[.underIntegrated 1 1 2]⟩) compute_shearedFace rfl
    sizesOf_sheared (by decide) hdet
  have hchosen := (run_map_eq_ok (f := Backend.dense)).2 ⟨_, hdense, rfl⟩
  exact ⟨_, Integrator.assemble_run_ok.2 ⟨_, _, _, _, hrule, hchosen, rfl⟩⟩

theorem volumeFactor_sheared : volumeFactor (!![1, half; 0, 1] : FinMatrix 2 2 ℝ) = 1 := by
  rw [volumeFactor_square, Matrix.det_fin_two_of]
  norm_num

/-- On the sheared face the operator of the dense matrix is symmetric and positive semidefinite. -/
theorem assembled_symmetric_sheared_face :
    ∃ (assembled : Session (Integrator ℝ)) (image : Array ℝ → Array ℝ),
      (Integrator.assemble shearedFace).run ⟨denseIntegrator, #[]⟩ = .ok () assembled ∧
      (∀ {x y : Array ℝ} (events : Array Event), x.size = 8 → y.size = 8 →
        (image x).size = 8 ∧ ∃ journal, (assembled.value.addMult x).run ⟨y, events⟩ =
          .ok () ⟨Array.zipWith (· + ·) y (image x), journal⟩) ∧
      (∀ {x y : Array ℝ}, x.size = 8 → y.size = 8 →
        scalarProduct (image x) y = scalarProduct x (image y)) ∧
      ∀ {x : Array ℝ}, x.size = 8 → 0 ≤ scalarProduct x (image x) := by
  obtain ⟨assembled, hassemble⟩ := assemble_shearedFace
  obtain ⟨rule, data, j, hrule, hcompute, hj, hsymmetric⟩ := assembled_symmetric
    (fun rule h => Option.some.inj h ▸ middleRule_built)
    (fun provider h => Option.some.inj h ▸ fun _ => .inr rfl) hassemble
  obtain rfl := Except.ok.inj hrule
  obtain rfl := Except.ok.inj (hcompute.symm.trans compute_shearedFace)
  obtain rfl := Except.ok.inj hj
  obtain ⟨image, hadds, hcomm, hnonneg⟩ := hsymmetric regularAt_sheared ⟨by decide, by decide⟩
  refine ⟨assembled, image, hassemble, hadds, hcomm, hnonneg fun q e hq he => ?_⟩
  obtain rfl : q = 0 := by have : q < 1 := hq; omega
  obtain rfl : e = 0 := by have : e < 1 := he; omega
  have hvolume : volumeFactor (shearedData.jacobianOf #[1, 0, half, 1] 0 0) = 1 := by
    rw [jacobianOf_sheared]
    exact volumeFactor_sheared
  rw [hvolume]
  show (0 : ℝ) ≤ 1 * 1 * 1
  norm_num

end TensorDiffusion
