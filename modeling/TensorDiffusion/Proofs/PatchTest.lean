import TensorDiffusion.Proofs.Conservation
import TensorDiffusion.Proofs.Factors

/-!
# The patch test

A field that is affine in the coordinates of the nodes has, at every point of every element, the
gradient `Jᵀ a` of its linear part `a`, however the element is curved
(`PointData.fieldGradient_affine`): Jacobians and fields are differentiated by the same tables, and
these lose constants.  So the energy of the field is the sum over all points of
`w c vol aᵀ P a`, where `P = J (Jᵀ J)⁻¹ Jᵀ` projects on the tangent space (`patch_test`).
-/

open scoped Matrix

namespace TensorDiffusion

variable {K : Type}

/-! ### Projections -/

section

variable [Field K] {m n : Nat}

/-- The projection on the columns of a matrix, which are independent. -/
noncomputable def tangentProjection (j : FinMatrix m n K) : FinMatrix m m K :=
  j * (jᵀ * j)⁻¹ * jᵀ

/-- Where nothing is normal to the columns the projection is the identity. -/
theorem tangentProjection_square {j : FinMatrix m n K} (hmn : m = n) (hdet : (jᵀ * j).det ≠ 0) :
    tangentProjection j = 1 := by
  subst hmn
  have hj : IsUnit j.det := by
    rw [Matrix.det_mul, Matrix.det_transpose] at hdet
    exact isUnit_iff_ne_zero.2 (left_ne_zero_of_mul hdet)
  have ht : IsUnit jᵀ.det := by rwa [Matrix.det_transpose]
  rw [tangentProjection, Matrix.mul_inv_rev, ← Matrix.mul_assoc, Matrix.mul_nonsing_inv _ hj,
    Matrix.one_mul, Matrix.nonsing_inv_mul _ ht]

/-- The trace of the projection is the number of columns. -/
theorem trace_tangentProjection {j : FinMatrix m n K} (hdet : (jᵀ * j).det ≠ 0) :
    (tangentProjection j).trace = n := by
  rw [tangentProjection, Matrix.trace_mul_cycle,
    Matrix.mul_nonsing_inv _ (isUnit_iff_ne_zero.2 hdet), Matrix.trace_one, Fintype.card_fin]

/-- The energy density of a field whose gradient is `Jᵀ a`. -/
theorem dotProduct_gram_inverse (j : FinMatrix m n K) (a : Fin m → K) :
    a ᵥ* j ⬝ᵥ (jᵀ * j)⁻¹ *ᵥ (a ᵥ* j) = a ⬝ᵥ tangentProjection j *ᵥ a := by
  rw [tangentProjection, ← Matrix.mulVec_mulVec, ← Matrix.mulVec_mulVec, Matrix.mulVec_transpose,
    Matrix.dotProduct_mulVec a]

end

/-! ### Affine fields -/

namespace Space

variable [CommRing K] (space : Space K)

/-- The vector of the field that has the value `f e c n` at node `n` of component `c` of element
`e`. -/
def field (f : Nat → Nat → Nat → K) : Array K :=
  Array.ofFn fun k : Fin space.vectorLen =>
    f (k / (space.nodesPerElement * space.vdim)) (k / space.nodesPerElement % space.vdim)
      (k % space.nodesPerElement)

/-- The vector of the field whose component `c` is `a c ⬝ X + b c` at a node with the coordinates
`X`. -/
def affineField (a : Nat → Nat → K) (b : Nat → K) : Array K :=
  space.field fun e c n => ∑ i ∈ Finset.range space.sdim,
    a c i * nodal space.nodesPerElement space.sdim space.nodes e i n + b c

@[simp]
theorem size_affineField (a : Nat → Nat → K) (b : Nat → K) :
    (space.affineField a b).size = space.vectorLen :=
  Array.size_ofFn

variable {space} {e c n : Nat}

theorem nodal_field {f : Nat → Nat → Nat → K} (he : e < space.numElements) (hc : c < space.vdim)
    (hn : n < space.nodesPerElement) :
    nodal space.nodesPerElement space.vdim (space.field f) e c n = f e c n := by
  have hlt : n + space.nodesPerElement * (c + space.vdim * e) < space.vectorLen :=
    nodal_lt he hc hn
  obtain ⟨hnode, hcomponent, helement⟩ := triple_positions e hn hc
  rw [nodal, field, getD_ofFn 0 hlt, hnode, hcomponent, helement]

omit [CommRing K] in
/-- The coordinates of the nodes have the layout of a vector. -/
theorem size_nodes : space.nodes.size = space.nodesPerElement * space.vdim * space.numElements := by
  rw [space.nodes_size, Nat.mul_comm]
  rfl

/-- The coordinates of the nodes are an affine field. -/
theorem affineField_coordinates :
    space.affineField (fun c i => if i = c then 1 else 0) (fun _ => 0) = space.nodes := by
  refine nodal_ext (space.size_affineField _ _) space.size_nodes fun e c n he hc hn => ?_
  have hmem : c ∈ Finset.range space.sdim := Finset.mem_range.2 hc
  rw [affineField, nodal_field he hc hn, add_zero, Finset.sum_eq_single_of_mem c hmem
    fun i _ hi => by rw [if_neg hi, zero_mul], if_pos rfl, one_mul]
  rfl

end Space

/-! ### Energies -/

namespace PointData

variable [Field K] [BEq K] [LawfulBEq K] [OfDouble K] [Stored K] {context : Context K}
  {data : PointData K} {j : Array K} {q e c : Nat}

/-- **The gradient of an affine field** is `Jᵀ a`. -/
theorem fieldGradient_affine (hcompute : compute context = .ok data)
    (hj : data.jacobians = .ok j) (hq : q < data.shape.q1d ^ data.shape.dim) (he : e < data.ne)
    (hc : c < context.space.vdim) (a : Nat → Nat → K) (b : Nat → K) (k : Fin data.shape.dim) :
    fieldGradient data.shape.dim data.tables.ndof data.tables.nqpt data.tables.b data.tables.g
        (nodal context.space.nodesPerElement context.space.vdim (context.space.affineField a b) e c)
        k q =
      ((fun i : Fin data.shape.sdim => a c i) ᵥ* data.jacobianOf j q e) k := by
  have hwf := compute_wellFormed hcompute
  have hnodes : data.tables.ndof ^ data.shape.dim = context.space.nodesPerElement :=
    hwf.nodesPerElement_eq.symm
  have hrange : Finset.range context.space.sdim = Finset.range data.shape.sdim := by rw [hwf.sdim]
  rw [(partition_of_compute hcompute).fieldGradient_affine (hwf.nqpt ▸ data.shape.q1d_pos) k.isLt
    fun n hn => Space.nodal_field (hwf.ne ▸ he) hc (hnodes ▸ hn), hrange, Finset.sum_range]
  exact Finset.sum_congr rfl fun i _ =>
    congrArg (a c i * ·) (jacobianOf_eq hcompute hj hq he i k).symm

variable [SquareRoot K]

/-- What a point weighs: its weight, the coefficient there and the volume factor. -/
def measure (context : Context K) (data : PointData K) (j : Array K) (q e : Nat) : K :=
  context.rule.weights.getD q 0 *
    sampleEntry (data.shape.q1d ^ data.shape.dim) data.samples.values q e *
      volumeFactor (data.jacobianOf j q e)

variable [LinearOrder K] [IsStrictOrderedRing K] [ExactRoot K]

/-- The energy of an affine field on an element. -/
theorem energy_affine (hcompute : compute context = .ok data) (hj : data.jacobians = .ok j)
    (he : e < data.ne) (hc : c < context.space.vdim)
    (hregular : ∀ q < data.shape.q1d ^ data.shape.dim, data.RegularAt j q e) (a : Nat → Nat → K)
    (b : Nat → K) :
    energy data.shape.dim data.tables.ndof data.tables.nqpt data.tables.b data.tables.g
        (Factorized.ofData context data j).op e
        (nodal context.space.nodesPerElement context.space.vdim (context.space.affineField a b) e c)
        (nodal context.space.nodesPerElement context.space.vdim (context.space.affineField a b) e c) =
      ∑ q ∈ Finset.range (data.shape.q1d ^ data.shape.dim), measure context data j q e *
        ((fun i : Fin data.shape.sdim => a c i) ⬝ᵥ
          tangentProjection (data.jacobianOf j q e) *ᵥ fun i => a c i) := by
  rw [energy_eq_dotProduct, (compute_wellFormed hcompute).nqpt]
  refine Finset.sum_congr rfl fun q hq => ?_
  have hq := Finset.mem_range.1 hq
  have hdet := regularAt_iff.1 (hregular q hq)
  have hgradient := funext (fieldGradient_affine hcompute hj hq he hc a b)
  rw [(compute_wellFormed hcompute).nqpt] at hgradient
  rw [hgradient, Factorized.ofData,
    formMatrix_regular data.shape.hasKernel Array.size_replicate hq he hdet, Matrix.smul_mulVec,
    dotProduct_smul, smul_eq_mul, dotProduct_gram_inverse]
  rfl

/-- The energy of an affine field. -/
theorem scalarProduct_affine (hcompute : compute context = .ok data) (hj : data.jacobians = .ok j)
    (hregular : ∀ q e, q < data.shape.q1d ^ data.shape.dim → e < data.ne → data.RegularAt j q e)
    (a : Nat → Nat → K) (b : Nat → K) :
    scalarProduct (context.space.affineField a b)
        (image context data j (context.space.affineField a b)) =
      ∑ q ∈ Finset.range (data.shape.q1d ^ data.shape.dim), ∑ e ∈ Finset.range data.ne,
        measure context data j q e * ∑ c ∈ Finset.range data.shape.sdim,
          (fun i : Fin data.shape.sdim => a c i) ⬝ᵥ
            tangentProjection (data.jacobianOf j q e) *ᵥ fun i => a c i := by
  have hwf := compute_wellFormed hcompute
  have hsize : (context.space.affineField a b).size =
      data.tables.ndof ^ data.shape.dim * data.shape.vdim * data.ne := by
    rw [Space.size_affineField, hwf.vectorLen_eq, hwf.ndof]
  rw [image_eq hwf, scalarProduct_comm size_stiffnessVector.symm,
    scalarProduct_stiffnessVector hsize, Finset.sum_comm (s := Finset.range (_ ^ _))]
  refine Finset.sum_congr rfl fun e he => ?_
  have he := Finset.mem_range.1 he
  simp only [Finset.mul_sum]
  rw [Finset.sum_comm (s := Finset.range (_ ^ _))]
  refine Finset.sum_congr rfl fun c hc => ?_
  have hc : c < context.space.vdim := hwf.vdim_eq ▸ Finset.mem_range.1 hc
  rw [← hwf.nodesPerElement_eq, ← hwf.vdim_eq]
  exact energy_affine hcompute hj he hc (fun q hq => hregular q e hq he) a b

/-- The energy of the coordinates. -/
theorem scalarProduct_coordinates (hcompute : compute context = .ok data)
    (hj : data.jacobians = .ok j)
    (hregular : ∀ q e, q < data.shape.q1d ^ data.shape.dim → e < data.ne → data.RegularAt j q e) :
    scalarProduct context.space.nodes (image context data j context.space.nodes) =
      data.shape.dim * ∑ q ∈ Finset.range (data.shape.q1d ^ data.shape.dim),
        ∑ e ∈ Finset.range data.ne, measure context data j q e := by
  rw [← Space.affineField_coordinates, scalarProduct_affine hcompute hj hregular, Finset.mul_sum]
  refine Finset.sum_congr rfl fun q hq => ?_
  rw [Finset.mul_sum]
  refine Finset.sum_congr rfl fun e he => ?_
  have hdet := regularAt_iff.1 (hregular q e (Finset.mem_range.1 hq) (Finset.mem_range.1 he))
  rw [mul_comm, ← trace_tangentProjection hdet, Matrix.trace, Finset.sum_range]
  refine congrArg (· * _) (Finset.sum_congr rfl fun c _ => ?_)
  have hunit : (fun i : Fin data.shape.sdim => if (i : Nat) = c then (1 : K) else 0) =
      Pi.single c 1 := funext fun i => by simp [Pi.single_apply, Fin.ext_iff]
  rw [hunit, single_one_dotProduct, Matrix.mulVec_single_one]
  rfl

end PointData

/-! ### Assembled operators -/

/-- An integrator adds what its backend adds. -/
theorem Integrator.adds_of_backend [Field K] [SquareRoot K] [Stored K] {integrator : Integrator K}
    {backend : Backend K} {len : Nat} {image : Array K → Array K} (h : backend.Adds len image)
    {x y : Array K} (events : Array Event) (hx : x.size = len) (hy : y.size = len) :
    (image x).size = len ∧ ∃ journal, ((integrator.holding backend).addMult x).run ⟨y, events⟩ =
      .ok () ⟨Array.zipWith (· + ·) y (image x), journal⟩ :=
  h events hx hy

/-- **The patch test.**  An integrator that was assembled in the native form, on elements that may
be curved but have Jacobians of full column rank at all points, with any rule and any scalar
coefficient, gives every affine field the energy that it has: at a point of weight `w`, coefficient
`c` and volume factor `vol`, component by component, `w c vol aᵀ P a` for the projection `P` on the
tangent space, which is the identity where the elements fill the space.  The coordinates themselves
have as their energy the weighted volume, once for every reference axis. -/
theorem patch_test [Field K] [LinearOrder K] [IsStrictOrderedRing K] [BEq K] [LawfulBEq K]
    [OfDouble K] [SquareRoot K] [ExactRoot K] [Stored K] {integrator : Integrator K}
    {space : Space K} {events : Array Event} {assembled : Session (Integrator K)}
    (hprovider : ∀ provider, integrator.provider = some provider → provider.Standard)
    (h : (Integrator.assemble space).run ⟨integrator, events⟩ = .ok () assembled)
    (hnative : assembled.value.backendName = some "native") :
    ∃ rule data j, integrator.integrationRule space = .ok rule ∧
      PointData.compute (integrator.context space rule) = .ok data ∧ data.jacobians = .ok j ∧
      ((∀ q e, q < data.shape.q1d ^ data.shape.dim → e < data.ne →
          (data.jacobianOf j q e).rank = data.shape.dim) →
        (integrator.context space rule).HoldsVectors →
        ∃ image : Array K → Array K,
          (∀ {x y : Array K} (events : Array Event), x.size = space.vectorLen →
            y.size = space.vectorLen → (image x).size = space.vectorLen ∧
            ∃ journal, (assembled.value.addMult x).run ⟨y, events⟩ =
              .ok () ⟨Array.zipWith (· + ·) y (image x), journal⟩) ∧
          (∀ (a : Nat → Nat → K) (b : Nat → K),
            scalarProduct (space.affineField a b) (image (space.affineField a b)) =
              ∑ q ∈ Finset.range (data.shape.q1d ^ data.shape.dim), ∑ e ∈ Finset.range data.ne,
                PointData.measure (integrator.context space rule) data j q e *
                  ∑ c ∈ Finset.range data.shape.sdim, (fun i : Fin data.shape.sdim => a c i) ⬝ᵥ
                    tangentProjection (data.jacobianOf j q e) *ᵥ fun i => a c i) ∧
          (space.sdim = space.dim → ∀ q e, q < data.shape.q1d ^ data.shape.dim → e < data.ne →
            tangentProjection (data.jacobianOf j q e) = 1) ∧
          scalarProduct space.nodes (image space.nodes) =
            data.shape.dim * ∑ q ∈ Finset.range (data.shape.q1d ^ data.shape.dim),
              ∑ e ∈ Finset.range data.ne,
                PointData.measure (integrator.context space rule) data j q e) := by
  obtain ⟨rule, s, backend, s', hfound, hchosen, rfl⟩ := Integrator.assemble_run_ok.1 h
  rcases Integrator.chosen_eq_ok hprovider hchosen with ⟨operator, hrun, rfl⟩ | ⟨_, -, rfl⟩
  · obtain ⟨data, j, hcompute, hj, rfl, -, hforms⟩ := Factorized.assemble_eq_ok hrun
    have hwf := PointData.compute_wellFormed hcompute
    refine ⟨rule, data, j, Integrator.ruleFor_eq_ok hfound, hcompute, hj, fun hrank hroom => ?_⟩
    have hregular := fun q e hq he =>
      PointData.regularAt_iff.2 ((gram_det_ne_zero_iff _).2 (hrank q e hq he))
    have haffine := PointData.scalarProduct_affine hcompute hj hregular
    refine ⟨PointData.image (integrator.context space rule) data j,
      Integrator.adds_of_backend (Factorized.adds_image hwf hforms hroom),
      fun a b => (haffine a b).trans rfl, fun hflat q e hq he => ?_,
      PointData.scalarProduct_coordinates hcompute hj hregular⟩
    exact tangentProjection_square (hwf.sdim.trans (hflat.trans hwf.dim.symm))
      (PointData.regularAt_iff.1 (hregular q e hq he))
  · have hname : "dense element" = "native" := Option.some.inj hnative
    exact absurd hname (by decide)

/-! ### One face -/

theorem measure_sheared : PointData.measure (nativeIntegrator.context shearedFace middleRule)
    shearedData #[1, 0, half, 1] 0 0 = 1 := by
  have hvolume : volumeFactor (shearedData.jacobianOf #[1, 0, half, 1] 0 0) = 1 := by
    rw [jacobianOf_sheared]
    exact volumeFactor_sheared
  rw [PointData.measure, hvolume]
  show (1 : ℝ) * 1 * 1 = 1
  norm_num

/-- On the sheared face, of volume one by its single point, an affine field has the energy of its
linear part, and the coordinates have the energy two. -/
theorem patch_test_sheared_face :
    ∃ (assembled : Session (Integrator ℝ)) (image : Array ℝ → Array ℝ),
      (Integrator.assemble shearedFace).run ⟨nativeIntegrator, #[]⟩ = .ok () assembled ∧
      (∀ {x y : Array ℝ} (events : Array Event), x.size = 8 → y.size = 8 →
        (image x).size = 8 ∧ ∃ journal, (assembled.value.addMult x).run ⟨y, events⟩ =
          .ok () ⟨Array.zipWith (· + ·) y (image x), journal⟩) ∧
      (∀ (a : Nat → Nat → ℝ) (b : Nat → ℝ),
        scalarProduct (shearedFace.affineField a b) (image (shearedFace.affineField a b)) =
          ∑ c ∈ Finset.range 2, (a c 0 * a c 0 + a c 1 * a c 1)) ∧
      scalarProduct shearedFace.nodes (image shearedFace.nodes) = 2 := by
  obtain ⟨assembled, hassemble, hnative⟩ := assemble_shearedFace_native
  have hprovider : ∀ p, (none : Option (Provider ℝ)) = some p → p.Standard := fun _ hp => nomatch hp
  obtain ⟨rule, data, j, hrule, hcompute, hj, hpatch⟩ := patch_test hprovider hassemble hnative
  obtain rfl := Except.ok.inj hrule
  obtain rfl := Except.ok.inj (hcompute.symm.trans compute_shearedFace)
  obtain rfl := Except.ok.inj hj
  obtain ⟨image, hadds, hfields, hflat, hnodes⟩ := hpatch
    (fun q e hq he => (gram_det_ne_zero_iff _).1 (PointData.regularAt_iff.1
      (regularAt_sheared q e hq he))) ⟨by decide, by decide⟩
  have hprojection := hflat rfl 0 0 Nat.one_pos Nat.one_pos
  refine ⟨assembled, image, hassemble, hadds, fun a b => ?_, ?_⟩
  · calc scalarProduct (shearedFace.affineField a b) (image (shearedFace.affineField a b))
        = ∑ q ∈ Finset.range 1, ∑ e ∈ Finset.range 1,
            PointData.measure (nativeIntegrator.context shearedFace middleRule) shearedData
              #[1, 0, half, 1] q e * ∑ c ∈ Finset.range 2, (fun i : Fin 2 => a c i) ⬝ᵥ
                tangentProjection (shearedData.jacobianOf #[1, 0, half, 1] q e) *ᵥ
                  fun i => a c i := hfields a b
      _ = ∑ c ∈ Finset.range 2, (fun i : Fin 2 => a c i) ⬝ᵥ fun i : Fin 2 => a c i := by
        rw [Finset.sum_range_one, Finset.sum_range_one, measure_sheared, one_mul]
        exact Finset.sum_congr rfl fun c _ => (congrArg (fun p : FinMatrix 2 2 ℝ =>
          (fun i : Fin 2 => a c i) ⬝ᵥ p *ᵥ fun i => a c i) hprojection).trans
            (congrArg _ (Matrix.one_mulVec _))
      _ = ∑ c ∈ Finset.range 2, (a c 0 * a c 0 + a c 1 * a c 1) :=
        Finset.sum_congr rfl fun c _ => Fin.sum_univ_two _
  · calc scalarProduct shearedFace.nodes (image shearedFace.nodes)
        = (2 : ℕ) * ∑ q ∈ Finset.range 1, ∑ e ∈ Finset.range 1,
            PointData.measure (nativeIntegrator.context shearedFace middleRule) shearedData
              #[1, 0, half, 1] q e := hnodes
      _ = 2 := by
        rw [Finset.sum_range_one, Finset.sum_range_one, measure_sheared, mul_one, Nat.cast_ofNat]

end TensorDiffusion
