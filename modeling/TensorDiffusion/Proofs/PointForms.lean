import TensorDiffusion.Proofs.Jacobian

/-!
# What the setup stores

After a setup the symmetric matrix at every point is the form of the weight, the sample and the
Jacobian there (`formMatrix_stored`).  Where the Jacobian has full column rank, that is the inverse
of `Jᵀ J`, times the weight, the sample and the volume factor (`setup_stores_inverse`).
-/

open scoped Matrix

namespace TensorDiffusion

variable {K : Type}

/-- The Jacobian at point `q` of element `e`, in an array of layout `(NQ, SDIM, DIM, NE)`. -/
def jacobianAt [Zero K] (nq sdim dim : Nat) (j : Array K) (q e : Nat) : FinMatrix sdim dim K :=
  jacobianMatrix sdim dim (jacobianEntry nq sdim dim j q e)

/-- The matrix at point `q` of element `e`, in operator data of layout
`(NQ, DIM (DIM + 1) / 2, NE)`. -/
def formMatrix [Zero K] (dim nq : Nat) (op : Array K) (q e : Nat) : FinMatrix dim dim K :=
  fun k l => formEntry dim nq op q e k l

theorem packed_lt {dim sdim : Nat} (hk : HasKernel dim sdim) {k l : Nat} (hkdim : k < dim)
    (hldim : l < dim) : packed dim k l < symmetricEntries dim := by
  have htwo : ∀ k < 2, ∀ l < 2, packed 2 k l < symmetricEntries 2 := by decide
  have hthree : ∀ k < 3, ∀ l < 3, packed 3 k l < symmetricEntries 3 := by decide
  rcases hk with ⟨rfl, -⟩ | ⟨rfl, -⟩ | ⟨rfl, -⟩
  · exact htwo k hkdim l hldim
  · exact htwo k hkdim l hldim
  · exact hthree k hkdim l hldim

variable [Field K]

/-- An entry is stored at its place in the layout, whatever the operator data held before. -/
theorem OperatorData.stored_getD {form : K → (Nat → Nat → K) → Array K} {dim sdim nq ne q e p : Nat}
    {w j c op : Array K} (hop : op.size = nq * symmetricEntries dim * ne) (hq : q < nq)
    (hp : p < symmetricEntries dim) (he : e < ne) :
    (stored form nq sdim dim w j c op).getD (q + nq * (p + symmetricEntries dim * e)) 0 =
      (formAt form nq sdim dim w j c q e).getD p 0 := by
  have hchunk : q + nq * (p + symmetricEntries dim * e) =
      q + nq * p + nq * symmetricEntries dim * e := by
    rw [Nat.mul_add, Nat.mul_assoc, Nat.add_assoc]
  have hinner : q + nq * p < nq * symmetricEntries dim := pair_lt hq hp
  have hlt : q + nq * p + nq * symmetricEntries dim * e < op.size := by
    rw [hop]
    exact pair_lt hinner he
  simp only [stored, storedEntry, Array.getD_eq_getD_getElem?, Array.getElem?_mapIdx,
    Array.getElem?_eq_getElem hlt, Option.map_some, Option.getD_some, hchunk, pair_div e hinner,
    pair_mod e hinner, pair_div _ hq, pair_mod _ hq]

/-- The matrix at a point is the form there. -/
theorem formMatrix_stored {form : K → (Nat → Nat → K) → Array K} {dim sdim nq ne q e : Nat}
    {w j c op : Array K} (hk : HasKernel dim sdim) (hop : op.size = nq * symmetricEntries dim * ne)
    (hq : q < nq) (he : e < ne) :
    formMatrix dim nq (OperatorData.stored form nq sdim dim w j c op) q e =
      unpacked dim (OperatorData.formAt form nq sdim dim w j c q e) := by
  ext k l
  exact OperatorData.stored_getD hop hq (packed_lt hk k.isLt l.isLt) he

variable [LinearOrder K] [IsStrictOrderedRing K] [SquareRoot K] [ExactRoot K]

/-- Where `Jᵀ J` is regular, the matrix at a point is its inverse times the weight, the sample and
the volume factor. -/
theorem formMatrix_regular {dim sdim nq ne q e : Nat} {w j c op : Array K}
    (hk : HasKernel dim sdim) (hop : op.size = nq * symmetricEntries dim * ne) (hq : q < nq)
    (he : e < ne) (hdet : ((jacobianAt nq sdim dim j q e)ᵀ * jacobianAt nq sdim dim j q e).det ≠ 0) :
    formMatrix dim nq
        (OperatorData.stored (OperatorData.pointForm dim sdim) nq sdim dim w j c op) q e =
      (w.getD q 0 * sampleEntry nq c q e * volumeFactor (jacobianAt nq sdim dim j q e)) •
        ((jacobianAt nq sdim dim j q e)ᵀ * jacobianAt nq sdim dim j q e)⁻¹ := by
  rw [formMatrix_stored hk hop hq he]
  exact pointForm_eq_inverse hk _ _ hdet

/-- **The setup stores the inverse of `Jᵀ J`.**  A setup returns, whatever the operator data held
before; at every point where the Jacobian has full column rank, the matrix that it stores times
`Jᵀ J` is the product of the weight, the sample and the volume factor. -/
theorem setup_stores_inverse {config : Execution} {dim sdim q1d ne : Nat} {w j c op : Array K}
    {events : Array Event} (hk : HasKernel dim sdim)
    (h : SetupSizes dim sdim q1d ne w.size j.size c.size op.size) :
    ∃ out, (OperatorData.setup config dim sdim q1d ne w j c).run ⟨op, events⟩ =
        .ok () ⟨out, events.push (.setupKernel dim sdim q1d ne)⟩ ∧ out.size = op.size ∧
      ∀ q e, q < q1d ^ dim → e < ne → (jacobianAt (q1d ^ dim) sdim dim j q e).rank = dim →
        formMatrix dim (q1d ^ dim) out q e *
            ((jacobianAt (q1d ^ dim) sdim dim j q e)ᵀ * jacobianAt (q1d ^ dim) sdim dim j q e) =
          (w.getD q 0 * sampleEntry (q1d ^ dim) c q e *
            volumeFactor (jacobianAt (q1d ^ dim) sdim dim j q e)) • 1 := by
  refine ⟨_, OperatorData.setup_eq hk h, OperatorData.size_stored .., ?_⟩
  intro q e hq he hrank
  have hdet := (gram_det_ne_zero_iff (jacobianAt (q1d ^ dim) sdim dim j q e)).2 hrank
  rw [formMatrix_regular hk h.op hq he hdet, Matrix.smul_mul,
    Matrix.nonsing_inv_mul _ (isUnit_iff_ne_zero.2 hdet)]

/-- One face in the plane whose Jacobian `(1, 2; 3, 4)` reverses the orientation: the weight is
two, the sample three, and the volume factor minus two. -/
theorem setup_stores_inverse_one_face :
    ∃ out : Array ℝ,
      (OperatorData.setup {} 2 2 1 1 #[2] #[1, 3, 2, 4] #[3]).run ⟨#[0, 0, 0], #[]⟩ =
        .ok () ⟨out, #[.setupKernel 2 2 1 1]⟩ ∧
      formMatrix 2 1 out 0 0 * (!![1, 2; 3, 4]ᵀ * !![1, 2; 3, 4]) = (-12 : ℝ) • 1 := by
  have hsizes : SetupSizes 2 2 1 1 1 4 1 3 :=
    ⟨by decide, by decide, by decide, by decide, by decide, by decide⟩
  have hj : jacobianAt 1 2 2 #[(1 : ℝ), 3, 2, 4] 0 0 = !![1, 2; 3, 4] := by
    ext i k
    fin_cases i <;> fin_cases k <;> rfl
  have hdet : (!![1, 2; 3, 4] : FinMatrix 2 2 ℝ).det = -2 := by
    rw [Matrix.det_fin_two_of]
    norm_num
  have hrank : (!![1, 2; 3, 4] : FinMatrix 2 2 ℝ).rank = 2 := by
    rw [← gram_det_ne_zero_iff, Matrix.det_mul, Matrix.det_transpose, hdet]
    norm_num
  obtain ⟨out, hrun, -, hform⟩ := @setup_stores_inverse ℝ _ _ _ _ _ {} 2 2 1 1 #[2] #[1, 3, 2, 4]
    #[3] #[0, 0, 0] #[] (.inl ⟨rfl, rfl⟩) hsizes
  refine ⟨out, hrun, ?_⟩
  have hpoint := hform 0 0 (by decide) (by decide)
  rw [show 1 ^ 2 = 1 from rfl, hj, volumeFactor_square, hdet] at hpoint
  rw [hpoint hrank]
  norm_num [sampleEntry]

end TensorDiffusion
