import TensorDiffusion.Operator.Dense
import TensorDiffusion.Proofs.Matrices
import TensorDiffusion.Proofs.PointForms
import TensorDiffusion.Proofs.Transpose

/-!
# The matrices of a point

What the assembly of dense matrices computes at a quadrature point: the gradients of the basis
functions (`referenceGradients_ok`), and the weight, the sample and the volume factor times the
inverse of `Jᵀ J` (`pointMatrix_regular`), which is refused where it does not exist
(`pointMatrix_singular`).
-/

open scoped Matrix

namespace TensorDiffusion

namespace Dense

/-! ### Gradients -/

section

variable {K : Type} [CommRing K]

/-- The gradients of the basis functions at the point `q`, as the columns of a matrix. -/
def gradientMatrix (dim d1d q1d : Nat) (b g : Array K) (q : Nat) : FinMatrix dim (d1d ^ dim) K :=
  fun k i => gradientEntry dim d1d q1d b g k q i

/-- A loop whose steps multiply by a factor. -/
theorem sweep_eq_prod {n : Nat} {step : K → Nat → Except Fault K} {t : Nat → K}
    (h : ∀ s k, k < n → step s k = .ok (s * t k)) :
    sweep n step 1 = .ok (∏ k ∈ Finset.range n, t k) := by
  obtain ⟨s, hrun, rfl⟩ : ∃ s, sweep n step 1 = .ok s ∧ s = ∏ k ∈ Finset.range n, t k := by
    refine sweep_induction (fun k s => s = ∏ k ∈ Finset.range k, t k) (by simp) fun k s hk hs => ?_
    exact ⟨s * t k, h s k hk, by rw [hs, Finset.prod_range_succ]⟩
  exact hrun

theorem referenceGradients_ok [Stored K] {shape : Shape} {tables : Tables K} {nd q : Nat}
    (hs : tables.Sized) (hd : tables.ndof = shape.d1d) (hq : tables.nqpt = shape.q1d)
    (hnd : nd = shape.d1d ^ shape.dim) (htable : shape.q1d * shape.d1d < Size.bufferBound)
    (hroom : Stored.bytes K * (shape.dim * nd) < Size.bufferBound) :
    ∃ m, referenceGradients shape tables nd q = .ok m ∧
      m.Holds (gradientMatrix shape.dim shape.d1d shape.q1d tables.b tables.g q) := by
  subst hnd
  obtain ⟨b, g, -, -, hb, hg, -, -⟩ := hs.views (hd ▸ shape.d1d_pos) (hq ▸ shape.q1d_pos)
    (hd ▸ hq ▸ htable)
  rw [hd, hq] at hb hg
  obtain ⟨-, hbdata, hbshape⟩ := View.ofBuffer_eq_ok.1 hb
  obtain ⟨-, hgdata, hgshape⟩ := View.ofBuffer_eq_ok.1 hg
  simp only [referenceGradients]
  rw [hb, ok_bind, hg, ok_bind]
  refine Matrix.build_ok hroom fun k i => sweep_eq_prod fun product axis _ => ?_
  -- An axis contributes its derivative if it is the row's, its value otherwise.
  have hqpos : q / Nat.pow shape.q1d axis % shape.q1d < shape.q1d := Nat.mod_lt _ shape.q1d_pos
  have hdpos : i / Nat.pow shape.d1d axis % shape.d1d < shape.d1d := Nat.mod_lt _ shape.d1d_pos
  by_cases haxis : axis = k
  · rw [if_pos haxis, View.get_matrix hgshape hqpos hdpos, View.entry_eq hgshape, hgdata, axisEntry,
      if_pos haxis]
    rfl
  · rw [if_neg haxis, View.get_matrix hbshape hqpos hdpos, View.entry_eq hbshape, hbdata, axisEntry,
      if_neg haxis]
    rfl

end

/-! ### Forms -/

/-- There is room for a matrix of a Jacobian. -/
theorem small_room {K : Type} [Stored K] {n : Nat} (hn : n ≤ 9) :
    Stored.bytes K * n < Size.bufferBound :=
  Nat.lt_of_le_of_lt (Nat.mul_le_mul Stored.bytes_le hn) (by decide)

theorem dim_cases {dim sdim : Nat} (hk : HasKernel dim sdim) : dim = 2 ∨ dim = 3 := by
  rcases hk with ⟨h, -⟩ | ⟨h, -⟩ | ⟨h, -⟩
  · exact .inl h
  · exact .inl h
  · exact .inr h

section

variable {K : Type} [Field K] [Stored K] [BEq K] [LawfulBEq K] [SquareRoot K] {dim sdim q e : Nat}
  {weights : Array K} {samples : Samples K} {jacobian : Matrix K} {J : FinMatrix sdim dim K}

omit [LawfulBEq K] in
/-- What is left to do once `Jᵀ J` and the volume factor are known. -/
theorem pointMatrix_eq (hk : HasKernel dim sdim) (hj : jacobian.Holds J) :
    ∃ gram : Matrix K, gram.Holds (Jᵀ * J) ∧ pointMatrix weights samples jacobian q e = (do
      match ← gram.inverse? with
      | none => refuse (.singularJacobian q e)
      | some inverse =>
        return inverse.scale ((← slot weights q) * (← samples.get q e) * volumeFactor J)) := by
  have hsmall : dim * sdim ≤ 9 ∧ dim * dim ≤ 9 := by
    rcases hk with ⟨rfl, rfl⟩ | ⟨rfl, rfl⟩ | ⟨rfl, rfl⟩ <;> decide
  obtain ⟨jt, hjt, ht⟩ := Matrix.transpose_ok hj (small_room hsmall.1)
  obtain ⟨gram, hgram, hg⟩ := Matrix.mul_ok ht hj (small_room hsmall.2)
  refine ⟨gram, hg, ?_⟩
  rw [pointMatrix, hjt, ok_bind, hgram, ok_bind, hj.rows, hj.cols]
  by_cases hsquare : sdim = dim
  · subst hsquare
    have hvol : jacobian.determinant = .ok (volumeFactor J) := by
      rw [Matrix.determinant_ok hj (dim_cases hk), volumeFactor_square]
    rw [if_pos rfl, hvol]
    rfl
  · have hvol : SquareRoot.sqrt <$> gram.determinant = .ok (volumeFactor J) := by
      rw [Matrix.determinant_ok hg (dim_cases hk), volumeFactor, dif_neg hsquare]
      rfl
    rw [if_neg hsquare, hvol]
    rfl

/-- Where `Jᵀ J` is regular. -/
theorem pointMatrix_regular {w c : K} (hk : HasKernel dim sdim) (hj : jacobian.Holds J)
    (hw : slot weights q = .ok w) (hc : samples.get q e = .ok c) (hdet : (Jᵀ * J).det ≠ 0) :
    ∃ m, pointMatrix weights samples jacobian q e = .ok m ∧
      m.Holds ((w * c * volumeFactor J) • (Jᵀ * J)⁻¹) := by
  obtain ⟨gram, hg, hpoint⟩ := pointMatrix_eq hk hj
  obtain ⟨inverse, hinverse, hi⟩ := Matrix.inverse_regular hg (dim_cases hk) hdet
  refine ⟨_, ?_, Matrix.scale_holds hi _⟩
  rw [hpoint, hinverse, ok_bind]
  dsimp only
  rw [hw, ok_bind, hc]
  rfl

/-- Where `Jᵀ J` is singular. -/
theorem pointMatrix_singular (hk : HasKernel dim sdim) (hj : jacobian.Holds J)
    (hdet : (Jᵀ * J).det = 0) :
    pointMatrix weights samples jacobian q e = .error (.refused (.singularJacobian q e)) := by
  obtain ⟨gram, hg, hpoint⟩ := pointMatrix_eq hk hj
  rw [hpoint, Matrix.inverse_singular hg (dim_cases hk) hdet, ok_bind]
  rfl

end

end Dense

end TensorDiffusion
