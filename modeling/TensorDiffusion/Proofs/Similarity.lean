import TensorDiffusion.Proofs.NodeMaps
import TensorDiffusion.Proofs.PatchTest
import TensorDiffusion.Proofs.Representation

/-!
# Spaces that are turned, scaled and shifted

The nodes of a space are moved by a similarity `x ↦ s R x + t`.  The shift is lost in the
Jacobians, which become `s R J` (`PointData.jacobianAt_similarity`), and the rotation in `Jᵀ J`,
which becomes `s² Jᵀ J`.  So the forms of the setup are those of the space at rest times
`s ^ (dim - 2)` (`OperatorData.pointForm_similarity`), and so is all operator data of the next
assembly (`operatorData_similarity`): faces keep theirs, of whatever size they are.
-/

open scoped Matrix

namespace TensorDiffusion

variable {K : Type}

/-! ### Similarities -/

section

variable [CommRing K] {l m n : Nat}

/-- A matrix with orthonormal columns keeps all products of columns. -/
theorem gram_of_orthonormal {r : FinMatrix l m K} (hr : rᵀ * r = 1) (j : FinMatrix m n K) :
    (r * j)ᵀ * (r * j) = jᵀ * j := by
  calc (r * j)ᵀ * (r * j)
      = jᵀ * (rᵀ * r) * j := by rw [Matrix.transpose_mul]; simp only [Matrix.mul_assoc]
    _ = jᵀ * j := by rw [hr, Matrix.mul_one]

/-- Matrices that turn space. -/
structure Rotation (r : FinMatrix m m K) : Prop where
  orthogonal : rᵀ * r = 1
  det : r.det = 1

/-- The point that `x` is moved to: turned, scaled, then shifted. -/
def similarity (s : K) (r : FinMatrix m m K) (t x : Vector K m) : Vector K m :=
  Vector.ofFn fun i => s * (r *ᵥ x.get) i + t[i]

/-- A rotation keeps them too, up to the square of the scale. -/
theorem Rotation.gram {r : FinMatrix m m K} (h : Rotation r) (s : K) (j : FinMatrix m n K) :
    (s • (r * j))ᵀ * (s • (r * j)) = s ^ 2 • (jᵀ * j) := by
  rw [Matrix.transpose_smul, Matrix.smul_mul, Matrix.mul_smul, smul_smul, ← pow_two,
    gram_of_orthonormal h.orthogonal]

end

/-! ### Forms -/

/-- Every stored entry stands for entries of the matrix. -/
theorem exists_packed {dim sdim p : Nat} (hk : HasKernel dim sdim) (hp : p < symmetricEntries dim) :
    ∃ k < dim, ∃ l < dim, packed dim k l = p := by
  have htwo : ∀ p < 3, ∃ k < 2, ∃ l < 2, packed 2 k l = p := by decide
  have hthree : ∀ p < 6, ∃ k < 3, ∃ l < 3, packed 3 k l = p := by decide
  rcases hk with ⟨rfl, -⟩ | ⟨rfl, -⟩ | ⟨rfl, -⟩
  · exact htwo p hp
  · exact htwo p hp
  · exact hthree p hp

/-- So forms whose matrices are multiples have entries that are multiples. -/
theorem getD_of_unpacked_smul [Semiring K] {dim sdim p : Nat} {form form' : Array K} {s : K}
    (hk : HasKernel dim sdim) (hp : p < symmetricEntries dim)
    (h : unpacked dim form' = s • unpacked dim form) : form'.getD p 0 = s * form.getD p 0 := by
  obtain ⟨k, hkdim, l, hldim, rfl⟩ := exists_packed hk hp
  exact congrFun (congrFun h ⟨k, hkdim⟩) ⟨l, hldim⟩

section

variable [Field K] [LinearOrder K] [IsStrictOrderedRing K] [SquareRoot K] [ExactRoot K]

/-- The root of a product with a square. -/
theorem sqrt_sq_mul {a b : K} (ha : 0 ≤ a) (hb : 0 ≤ b) :
    SquareRoot.sqrt (b ^ 2 * a) = b * SquareRoot.sqrt a := by
  have hproduct : 0 ≤ b ^ 2 * a := mul_nonneg (sq_nonneg b) ha
  refine (pow_left_inj₀ (ExactRoot.sqrt_nonneg hproduct)
    (mul_nonneg hb (ExactRoot.sqrt_nonneg ha)) two_ne_zero).1 ?_
  rw [ExactRoot.sqrt_sq hproduct, mul_pow, ExactRoot.sqrt_sq ha]

variable {dim sdim : Nat} {s : K} {r : FinMatrix sdim sdim K}

/-- The volume factor scales with the reference dimension. -/
theorem Rotation.volumeFactor (hr : Rotation r) (hk : HasKernel dim sdim) (s : K)
    (j : FinMatrix sdim dim K) :
    volumeFactor (s • (r * j)) = s ^ dim * TensorDiffusion.volumeFactor j := by
  have hsquare : ∀ {n} {r : FinMatrix n n K} (j : FinMatrix n n K), Rotation r →
      TensorDiffusion.volumeFactor (s • (r * j)) = s ^ n * TensorDiffusion.volumeFactor j := by
    intro n r j hr
    rw [volumeFactor_square, volumeFactor_square, Matrix.det_smul, Matrix.det_mul, hr.det, one_mul,
      Fintype.card_fin]
  rcases hk with ⟨rfl, rfl⟩ | ⟨rfl, rfl⟩ | ⟨rfl, rfl⟩
  · exact hsquare j hr
  · rw [volumeFactor_surface, volumeFactor_surface, hr.gram, Matrix.det_smul, Fintype.card_fin]
    exact sqrt_sq_mul (gram_det_nonneg j) (sq_nonneg s)
  · exact hsquare j hr

namespace OperatorData

variable {j j' : Nat → Nat → K} {w : K}

/-- **The form of a point** is multiplied by `s ^ (dim - 2)`: the adjugate of `Jᵀ J` scales with
`2 (dim - 1)`, the volume factor with `dim`. -/
theorem pointForm_similarity (hk : HasKernel dim sdim) (hr : Rotation r) (hs : s ≠ 0)
    (h : jacobianMatrix sdim dim j' = s • (r * jacobianMatrix sdim dim j)) (w : K) :
    unpacked dim (pointForm dim sdim w j') =
      s ^ (dim - 2) • unpacked dim (pointForm dim sdim w j) := by
  have hdim : 2 ≤ dim := by rcases hk with ⟨rfl, -⟩ | ⟨rfl, -⟩ | ⟨rfl, -⟩ <;> decide
  have hpow : (s ^ 2) ^ (dim - 1) = s ^ (dim - 2) * s ^ dim := by
    rw [← pow_mul, ← pow_add]
    congr 1
    omega
  rw [pointForm_eq_adjugate hk, pointForm_eq_adjugate hk, h, hr.gram, hr.volumeFactor hk,
    Matrix.adjugate_smul, Fintype.card_fin, smul_smul, smul_smul, hpow]
  refine congrArg (· • _) ?_
  have hne : s ^ dim ≠ 0 := pow_ne_zero dim hs
  rw [div_mul_eq_mul_div, mul_comm (s ^ (dim - 2)), ← mul_assoc, mul_comm w, mul_assoc,
    mul_div_mul_left _ _ hne, mul_comm, mul_div_assoc]

/-- So is every entry that is stored of it. -/
theorem pointForm_entry_similarity {p : Nat} (hk : HasKernel dim sdim) (hr : Rotation r)
    (hs : s ≠ 0) (h : jacobianMatrix sdim dim j' = s • (r * jacobianMatrix sdim dim j)) (w : K)
    (hp : p < symmetricEntries dim) :
    (pointForm dim sdim w j').getD p 0 = s ^ (dim - 2) * (pointForm dim sdim w j).getD p 0 :=
  getD_of_unpacked_smul hk hp (pointForm_similarity hk hr hs h w)

/-- All operator data is multiplied by `s ^ (dim - 2)`. -/
theorem stored_similarity {nq ne : Nat} {w j j' c op : Array K} (hk : HasKernel dim sdim)
    (hr : Rotation r) (hs : s ≠ 0) (hop : op.size = nq * symmetricEntries dim * ne)
    (h : ∀ q e, q < nq → e < ne →
      jacobianAt nq sdim dim j' q e = s • (r * jacobianAt nq sdim dim j q e)) :
    stored (pointForm dim sdim) nq sdim dim w j' c op =
      (stored (pointForm dim sdim) nq sdim dim w j c op).map (s ^ (dim - 2) * ·) := by
  refine Array.ext (by simp) fun n hn _ => ?_
  rw [size_stored, hop] at hn
  have hchunk : n % (nq * symmetricEntries dim) < nq * symmetricEntries dim := mod_lt_left hn
  rw [Array.getElem_map]
  refine (Array.getElem_mapIdx ..).trans (Eq.trans ?_ (congrArg _ (Array.getElem_mapIdx ..).symm))
  exact pointForm_entry_similarity hk hr hs (h _ _ (mod_lt_left hchunk) (div_lt_right hn)) _
    (div_lt_right hchunk)

end OperatorData

end

/-! ### Spaces with other nodes -/

/-- Coefficients that are given at the points. -/
def Coefficient.AtPoints {α : Type} (coefficient : Coefficient α) : Prop :=
  ∀ field, coefficient ≠ .function field

/-- The samples of such a coefficient do not depend on where the points are. -/
theorem Samples.take_congr {α : Type} [Zero α] [Stored α] {coefficient : Coefficient α}
    (hcoefficient : coefficient.AtPoints) {geometry geometry' : Geometry α}
    (hnq : geometry'.nq = geometry.nq) (hne : geometry'.ne = geometry.ne) (storage : Storage)
    (config : Execution) :
    take coefficient geometry' storage config = take coefficient geometry storage config := by
  cases coefficient with
  | constant value => cases storage <;> simp only [take, hnq, hne]
  | samples values => simp only [take, hnq, hne]
  | function field => exact absurd rfl (hcoefficient field)
  | vector => rfl
  | matrix => rfl

namespace PointData

/-- With other nodes the data of a context has another geometry, and nothing else changes. -/
theorem compute_withNodes {α : Type} [Zero α] [One α] [Add α] [Sub α] [Mul α] [Div α] [BEq α]
    [OfDouble α] [Stored α] {space : Space α} {rule : TensorRule α} {coefficient : Coefficient α}
    {config : Execution} {data : PointData α} (hcoefficient : coefficient.AtPoints)
    (hcompute : compute ⟨space, rule, coefficient, config⟩ = .ok data) {nodes : Array α}
    (h : nodes.size = space.nodes.size) :
    ∃ geometry, compute ⟨space.withNodes nodes h, rule, coefficient, config⟩ =
      .ok { data with geometry } := by
  obtain ⟨shape, basis, tables, geometry, samples, hshape, hbasis, htables, hgeometry, hsamples,
    rfl⟩ := compute_eq_ok hcompute
  have hsized := Geometry.sized_of_ofNodes hgeometry
  obtain ⟨p, haccepted⟩ := Geometry.accepted_of_ofNodes hgeometry
  dsimp only at haccepted
  rw [← h] at haccepted
  have hcomputed : ∃ geometry', Geometry.ofNodes space.dim space.sdim tables nodes
      (wanted coefficient) config = .ok geometry' := Geometry.exists_accepted_iff.1 ⟨p, haccepted⟩
  obtain ⟨geometry', hgeometry'⟩ := hcomputed
  have hsized' := Geometry.sized_of_ofNodes hgeometry'
  rw [h] at hsized'
  rw [← Samples.take_congr hcoefficient (hsized'.nq.trans hsized.nq.symm)
    (hsized'.ne.trans hsized.ne.symm)] at hsamples
  refine ⟨geometry', bind_eq_ok.2 ⟨shape, hshape, bind_eq_ok.2 ⟨basis, hbasis, bind_eq_ok.2
    ⟨tables, htables, bind_eq_ok.2 ⟨geometry', hgeometry', bind_eq_ok.2 ⟨samples, hsamples, rfl⟩⟩⟩⟩⟩⟩

variable [Field K] [BEq K] [LawfulBEq K] [OfDouble K] [Stored K] {space : Space K}
  {rule : TensorRule K} {coefficient : Coefficient K} {config : Execution} {data : PointData K}
  {geometry : Geometry K} {nodes j j' : Array K} {h : nodes.size = space.nodes.size} {s : K}
  {r : FinMatrix space.sdim space.sdim K} {t : Vector K space.sdim}

omit [BEq K] [LawfulBEq K] [OfDouble K] [Stored K] in
/-- The coordinates of a node that a similarity moved are affine in those it had. -/
theorem nodal_similarity {e n : Nat}
    (hmoved : space.point nodes e n = similarity s r t (space.point space.nodes e n))
    (i : Fin space.sdim) :
    nodal space.nodesPerElement space.sdim nodes e i n =
      ∑ l : Fin space.sdim, s * r i l *
        nodal space.nodesPerElement space.sdim space.nodes e l n + t[i] := by
  have hsum : s * (r *ᵥ (space.point space.nodes e n).get) i = ∑ l : Fin space.sdim,
      s * r i l * nodal space.nodesPerElement space.sdim space.nodes e l n := by
    rw [Matrix.mulVec, dotProduct, Finset.mul_sum]
    refine Finset.sum_congr rfl fun l _ => ?_
    rw [mul_assoc, ← space.getElem_point space.nodes e n l.isLt]
    rfl
  rw [← space.getElem_point nodes e n i.isLt, hmoved, similarity, Vector.getElem_ofFn, hsum]

/-- **The Jacobians are turned and scaled**; the shift is lost. -/
theorem jacobianAt_similarity (hcompute : compute ⟨space, rule, coefficient, config⟩ = .ok data)
    (hcompute' : compute ⟨space.withNodes nodes h, rule, coefficient, config⟩ =
      .ok { data with geometry })
    (hj : data.jacobians = .ok j) (hj' : { data with geometry }.jacobians = .ok j')
    (hmoved : ∀ e n, e < space.numElements → n < space.nodesPerElement →
      space.point nodes e n = similarity s r t (space.point space.nodes e n))
    {q e : Nat} (hq : q < rule.numPoints1d ^ space.dim) (he : e < space.numElements) :
    jacobianAt (rule.numPoints1d ^ space.dim) space.sdim space.dim j' q e =
      s • (r * jacobianAt (rule.numPoints1d ^ space.dim) space.sdim space.dim j q e) := by
  have hwf := compute_wellFormed hcompute
  have hnodes : data.tables.ndof ^ space.dim = space.nodesPerElement :=
    hwf.dim ▸ hwf.nodesPerElement_eq.symm
  ext i k
  have hnode : ∀ n < data.tables.ndof ^ space.dim, _ := fun n hn =>
    nodal_similarity (hmoved e n he (hnodes ▸ hn)) i
  have haffine := (partition_of_compute hcompute).fieldGradient_affine
    (hwf.nqpt ▸ data.shape.q1d_pos) k.isLt hnode q
  rw [Matrix.smul_apply, smul_eq_mul, Matrix.mul_apply, Finset.mul_sum]
  refine (jacobianEntry_eq hcompute' hj' hq he i.isLt k.isLt).trans (haffine.trans ?_)
  refine Finset.sum_congr rfl fun l _ => ?_
  rw [mul_assoc]
  exact congrArg (fun d => s * (r i l * d))
    (jacobianEntry_eq hcompute hj hq he l.isLt k.isLt).symm

end PointData

/-! ### Assemblies -/

section

variable [Field K] [LinearOrder K] [IsStrictOrderedRing K] [BEq K] [LawfulBEq K] [OfDouble K]
  [SquareRoot K] [ExactRoot K] [Stored K] {space : Space K} {s : K}
  {r : FinMatrix space.sdim space.sdim K}

/-- A context is assembled again after its nodes were moved, and the operator data is multiplied by
`s ^ (dim - 2)`. -/
theorem Factorized.assemble_similarity {rule : TensorRule K} {coefficient : Coefficient K}
    {config : Execution} {operator : Factorized K} {u u' : Session Unit}
    (hcoefficient : coefficient.AtPoints) (hr : Rotation r) (hs : s ≠ 0) (t : Vector K space.sdim)
    (h : (assemble ⟨space, rule, coefficient, config⟩).run u = .ok operator u')
    (v : Session Unit) :
    ∃ again v', (assemble ⟨space.mapNodes (similarity s r t), rule, coefficient, config⟩).run v =
        .ok again v' ∧ again.op = operator.op.map (s ^ (space.dim - 2) * ·) := by
  obtain ⟨data, j, hcompute, hj, rfl, hsizes, hforms⟩ := assemble_eq_ok h
  have hwf := PointData.compute_wellFormed hcompute
  obtain ⟨nodes, hnodes, hspace, hmoved⟩ := space.mapNodes_moves (similarity s r t)
  rw [hspace]
  obtain ⟨geometry, hcompute'⟩ := PointData.compute_withNodes hcoefficient hcompute hnodes
  obtain ⟨j', hsized'⟩ := PointData.sizes_of_compute hcompute'
  have hsizes' : PointData.SizesOf { data with geometry } ⟨space.withNodes nodes hnodes, rule,
      coefficient, config⟩ j' := { hsizes with j := hsized'.j }
  refine ⟨_, _, assemble_ok hcompute' hsized'.jacobians hsizes' hforms, ?_⟩
  rw [op_eq hwf, op_eq (PointData.compute_wellFormed hcompute')]
  exact OperatorData.stored_similarity hwf.hasKernel hr hs Array.size_replicate fun q e hq he =>
    PointData.jacobianAt_similarity hcompute hcompute' hj hsized'.jacobians hmoved hq he

omit [LinearOrder K] [IsStrictOrderedRing K] [LawfulBEq K] [ExactRoot K] in
/-- What an integrator held before does not matter to an assembly: its settings do. -/
theorem Integrator.assemble_of_settings {integrator other : Integrator K} {rule : TensorRule K}
    {backend : Backend K} {events : Array Event} {u u' : Session Unit}
    (hsettings : other.settings = integrator.settings)
    (hrule : (integrator.ruleFor space).run ⟨(), events⟩ = .ok rule u)
    (hchosen : (chosen integrator.provider (integrator.context space rule)).run u =
      .ok backend u') :
    (assemble space).run ⟨other, events⟩ = .ok ()
      ⟨(other.asked (integrator.context space rule)).holding backend,
      u'.events.push (.assembled backend.name space.numElements)⟩ := by
  obtain ⟨coefficient, own, provider, questions, execution, held⟩ := integrator
  obtain ⟨coefficient', own', provider', questions', execution', held'⟩ := other
  obtain ⟨rfl, rfl, rfl, rfl⟩ := Settings.mk.inj hsettings
  exact assemble_run_ok.2 ⟨rule, u, backend, u', hrule, hchosen, rfl⟩

omit [LinearOrder K] [IsStrictOrderedRing K] [BEq K] [LawfulBEq K] [SquareRoot K] [ExactRoot K]
  [Stored K] in
/-- The rule does not depend on where the nodes are. -/
theorem Integrator.ruleFor_mapNodes (integrator : Integrator K) (space : Space K)
    (f : Vector K space.sdim → Vector K space.sdim) :
    integrator.ruleFor (space.mapNodes f) = integrator.ruleFor space := by
  obtain ⟨nodes, hnodes, hspace, -⟩ := space.mapNodes_moves f
  rw [hspace]
  rfl

/-- **Similar elements.**  An integrator assembled its operator in the native form, on any elements,
with any rule, and a constant for its coefficient or values at the points.  The nodes of the space
are then turned, scaled and shifted, and the integrator is assembled again.  It succeeds again, and
the operator data is what it was before, every entry times `s ^ (dim - 2)`. -/
theorem operatorData_similarity {integrator : Integrator K} {events : Array Event}
    {assembled : Session (Integrator K)} (hcoefficient : integrator.coefficient.AtPoints)
    (hr : Rotation r) (hs : s ≠ 0) (t : Vector K space.sdim)
    (hkeeps : integrator.KeepsNative space)
    (hkeeps' : integrator.KeepsNative (space.mapNodes (similarity s r t)))
    (h : (Integrator.assemble space).run ⟨integrator, events⟩ = .ok () assembled)
    (others : Array Event) :
    ∃ op again, assembled.value.operatorData = some op ∧
      (Integrator.assemble (space.mapNodes (similarity s r t))).run ⟨assembled.value, others⟩ =
        .ok () again ∧
      again.value.backendName = some "native" ∧
      again.value.operatorData = some (op.map (s ^ (space.dim - 2) * ·)) := by
  obtain ⟨rule, u, backend, u', hrule, hchosen, rfl⟩ := Integrator.assemble_run_ok.1 h
  have hfound := Integrator.ruleFor_eq_ok hrule
  obtain ⟨operator, hrun, rfl⟩ := (hkeeps.chosen_ok hfound).1 hchosen
  obtain ⟨v, hrule'⟩ := (integrator.ruleFor_onlyWrites space).result hrule others
  rw [← integrator.ruleFor_mapNodes space (similarity s r t)] at hrule'
  obtain ⟨operator', v', hrun', hop⟩ :=
    Factorized.assemble_similarity hcoefficient hr hs t hrun v
  have hchosen' := (hkeeps'.chosen_ok (Integrator.ruleFor_eq_ok hrule')).2 ⟨operator', hrun', rfl⟩
  have hsettings : ((integrator.asked (integrator.context space rule)).holding
      (.factorized operator)).settings = integrator.settings := integrator.settings_asked _
  exact ⟨operator.op, _, rfl, Integrator.assemble_of_settings hsettings hrule' hchosen', rfl,
    congrArg some hop⟩

end

/-! ### One face -/

/-- A quarter turn of the plane. -/
def quarterTurn : FinMatrix 2 2 ℝ :=
  !![0, -1; 1, 0]

theorem rotation_quarterTurn : Rotation quarterTurn where
  orthogonal := by
    ext i k
    fin_cases i <;> fin_cases k <;> simp [quarterTurn, Matrix.mul_apply, Fin.sum_univ_two]
  det := by
    rw [quarterTurn, Matrix.det_fin_two_of]
    norm_num

/-- The sheared face, turned a quarter, twice as large and elsewhere, has the same operator data. -/
theorem operatorData_similarity_quarter_turn :
    ∃ (assembled again : Session (Integrator ℝ)) (op : Array ℝ),
      (Integrator.assemble shearedFace).run ⟨nativeIntegrator, #[]⟩ = .ok () assembled ∧
      assembled.value.operatorData = some op ∧
      (Integrator.assemble (shearedFace.mapNodes (similarity 2 quarterTurn #v[3, 4]))).run
        ⟨assembled.value, #[]⟩ = .ok () again ∧
      again.value.operatorData = some op := by
  obtain ⟨assembled, hassemble, -⟩ := assemble_shearedFace_native
  have hkeeps : ∀ space, nativeIntegrator.KeepsNative space := fun _ _ _ hprovider =>
    nomatch hprovider
  have hconstant : (Coefficient.constant (1 : ℝ)).AtPoints := fun _ h => nomatch h
  obtain ⟨op, again, hop, hagain, -, hop'⟩ := operatorData_similarity hconstant
    rotation_quarterTurn two_ne_zero #v[3, 4] (hkeeps _) (hkeeps _) hassemble #[]
  have hsame : op.map ((2 : ℝ) ^ (shearedFace.dim - 2) * ·) = op := by
    have hdim : shearedFace.dim - 2 = 0 := rfl
    simp [hdim]
  exact ⟨assembled, again, op, hassemble, hop, hagain, hop'.trans (congrArg some hsame)⟩

end TensorDiffusion
