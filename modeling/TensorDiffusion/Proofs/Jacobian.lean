import Mathlib.LinearAlgebra.Matrix.Adjugate
import Mathlib.LinearAlgebra.Matrix.NonsingularInverse
import Mathlib.LinearAlgebra.Matrix.Rank
import Mathlib.Tactic.FieldSimp
import Mathlib.Tactic.LinearCombination
import Mathlib.Tactic.Positivity
import TensorDiffusion.Proofs.Bilinear
import TensorDiffusion.Proofs.Exact
import TensorDiffusion.Proofs.Setup

/-!
# The form of a Jacobian

Over an exact field the three formulas of the setup are one: the form of a point is the adjugate
of `Jᵀ J` times the weight over the volume factor (`pointForm_eq_adjugate`), for every Jacobian.
The square of the volume factor is `det (Jᵀ J)` (`volumeFactor_sq`), so where that is not zero the
form is a multiple of the inverse of `Jᵀ J` (`pointForm_eq_inverse`).  It is not zero exactly where
the Jacobian has full column rank (`gram_det_ne_zero_iff`).
-/

/-- Matrices of fixed size. -/
abbrev FinMatrix (m n : Nat) (K : Type) :=
  Matrix (Fin m) (Fin n) K

open scoped Matrix

namespace TensorDiffusion

variable {K : Type}

/-- The matrix of a family of entries. -/
def jacobianMatrix (sdim dim : Nat) (j : Nat → Nat → K) : FinMatrix sdim dim K :=
  fun i k => j i k

/-- The symmetric matrix that is stored as its upper triangle. -/
def unpacked [Zero K] (dim : Nat) (form : Array K) : FinMatrix dim dim K :=
  fun k l => form.getD (packed dim k l) 0

variable [Field K] [SquareRoot K]

/-- The volume factor of a Jacobian: the determinant with its sign where it is square, the root of
`det (Jᵀ J)` elsewhere. -/
def volumeFactor {sdim dim : Nat} (j : FinMatrix sdim dim K) : K :=
  if h : sdim = dim then (j.submatrix (Fin.cast h.symm) id).det
  else SquareRoot.sqrt (jᵀ * j).det

theorem volumeFactor_square {dim : Nat} (j : FinMatrix dim dim K) : volumeFactor j = j.det := by
  rw [volumeFactor, dif_pos rfl]
  rfl

theorem volumeFactor_surface (j : FinMatrix 3 2 K) :
    volumeFactor j = SquareRoot.sqrt (jᵀ * j).det :=
  dif_neg (by decide)

/-! ### The adjugate -/

omit [SquareRoot K] in
theorem unpacked_two (a b c : K) : unpacked 2 #[a, b, c] = !![a, b; b, c] := by
  ext k l
  fin_cases k <;> fin_cases l <;> rfl

omit [SquareRoot K] in
theorem unpacked_three (a b c d e f : K) :
    unpacked 3 #[a, b, c, d, e, f] = !![a, b, c; b, d, e; c, e, f] := by
  ext k l
  fin_cases k <;> fin_cases l <;> rfl

theorem planar_eq_adjugate (w : K) (j : Nat → Nat → K) :
    unpacked 2 (OperatorData.pointForm 2 2 w j) =
      (w / volumeFactor (jacobianMatrix 2 2 j)) •
        ((jacobianMatrix 2 2 j)ᵀ * jacobianMatrix 2 2 j).adjugate := by
  have hdet : volumeFactor (jacobianMatrix 2 2 j) = j 0 0 * j 1 1 - j 1 0 * j 0 1 := by
    rw [volumeFactor_square, Matrix.det_fin_two]
    simp [jacobianMatrix, mul_comm]
  rw [hdet, Matrix.adjugate_fin_two]
  simp only [OperatorData.pointForm, Form2.planar, Form2.toArray, unpacked_two]
  -- Both sides have the one quotient; nothing has to be known of it.
  generalize w / (j 0 0 * j 1 1 - j 1 0 * j 0 1) = s
  ext k l
  fin_cases k <;> fin_cases l <;>
    simp [jacobianMatrix, Matrix.mul_apply, Fin.sum_univ_two] <;> ring

theorem surface_eq_adjugate (w : K) (j : Nat → Nat → K) :
    unpacked 2 (OperatorData.pointForm 2 3 w j) =
      (w / volumeFactor (jacobianMatrix 3 2 j)) •
        ((jacobianMatrix 3 2 j)ᵀ * jacobianMatrix 3 2 j).adjugate := by
  have hdet : ((jacobianMatrix 3 2 j)ᵀ * jacobianMatrix 3 2 j).det =
      (j 0 0 * j 0 0 + j 1 0 * j 1 0 + j 2 0 * j 2 0) *
        (j 0 1 * j 0 1 + j 1 1 * j 1 1 + j 2 1 * j 2 1) -
      (j 0 0 * j 0 1 + j 1 0 * j 1 1 + j 2 0 * j 2 1) *
        (j 0 0 * j 0 1 + j 1 0 * j 1 1 + j 2 0 * j 2 1) := by
    rw [Matrix.det_fin_two]
    simp [jacobianMatrix, Matrix.mul_apply, Fin.sum_univ_three, mul_comm]
  rw [volumeFactor_surface, hdet, Matrix.adjugate_fin_two]
  simp only [OperatorData.pointForm, Form2.surface, Form2.toArray, unpacked_two,
    ← div_eq_mul_one_div]
  generalize w / SquareRoot.sqrt _ = s
  ext k l
  fin_cases k <;> fin_cases l <;>
    simp [jacobianMatrix, Matrix.mul_apply, Fin.sum_univ_three] <;> ring

theorem solid_eq_adjugate (w : K) (j : Nat → Nat → K) :
    unpacked 3 (OperatorData.pointForm 3 3 w j) =
      (w / volumeFactor (jacobianMatrix 3 3 j)) •
        ((jacobianMatrix 3 3 j)ᵀ * jacobianMatrix 3 3 j).adjugate := by
  have hdet : volumeFactor (jacobianMatrix 3 3 j) =
      j 0 0 * (j 1 1 * j 2 2 - j 2 1 * j 1 2) - j 1 0 * (j 0 1 * j 2 2 - j 2 1 * j 0 2) +
        j 2 0 * (j 0 1 * j 1 2 - j 1 1 * j 0 2) := by
    rw [volumeFactor_square, Matrix.det_fin_three]
    simp only [jacobianMatrix]
    simp
    ring
  -- The kernel multiplies the cofactors of the Jacobian, so the adjugate is taken apart first.
  rw [hdet, Matrix.adjugate_mul_distrib, ← Matrix.adjugate_transpose, Matrix.adjugate_fin_three]
  simp only [OperatorData.pointForm, Form3.solid, Form3.toArray, unpacked_three]
  generalize w / (_ + _) = s
  ext k l
  rw [Matrix.smul_apply, Matrix.mul_apply, Fin.sum_univ_three]
  fin_cases k <;> fin_cases l <;>
    simp [jacobianMatrix, -mul_eq_mul_left_iff] <;> ring

/-- **The forms of the setup.**  For every Jacobian, the form of a point is the adjugate of `Jᵀ J`
times the weight over the volume factor. -/
theorem pointForm_eq_adjugate {dim sdim : Nat} (hk : HasKernel dim sdim) (w : K)
    (j : Nat → Nat → K) :
    unpacked dim (OperatorData.pointForm dim sdim w j) =
      (w / volumeFactor (jacobianMatrix sdim dim j)) •
        ((jacobianMatrix sdim dim j)ᵀ * jacobianMatrix sdim dim j).adjugate := by
  rcases hk with ⟨rfl, rfl⟩ | ⟨rfl, rfl⟩ | ⟨rfl, rfl⟩
  · exact planar_eq_adjugate w j
  · exact surface_eq_adjugate w j
  · exact solid_eq_adjugate w j

/-! ### The volume factor -/

section

variable [LinearOrder K] [IsStrictOrderedRing K]

omit [SquareRoot K] in
/-- The determinant of `Jᵀ J` is the sum of the squares of the minors. -/
theorem gram_det_nonneg (j : FinMatrix 3 2 K) : 0 ≤ (jᵀ * j).det := by
  have hminors : (jᵀ * j).det = (j 0 0 * j 1 1 - j 1 0 * j 0 1) ^ 2 +
      (j 0 0 * j 2 1 - j 2 0 * j 0 1) ^ 2 + (j 1 0 * j 2 1 - j 2 0 * j 1 1) ^ 2 := by
    rw [Matrix.det_fin_two]
    simp only [Matrix.mul_apply, Matrix.transpose_apply, Fin.sum_univ_three]
    ring
  rw [hminors]
  positivity

/-- **The square of the volume factor** is the determinant of `Jᵀ J`. -/
theorem volumeFactor_sq [ExactRoot K] {dim sdim : Nat} (hk : HasKernel dim sdim)
    (j : FinMatrix sdim dim K) : volumeFactor j ^ 2 = (jᵀ * j).det := by
  rcases hk with ⟨rfl, rfl⟩ | ⟨rfl, rfl⟩ | ⟨rfl, rfl⟩
  · rw [volumeFactor_square, Matrix.det_mul, Matrix.det_transpose, pow_two]
  · rw [volumeFactor_surface]
    exact ExactRoot.sqrt_sq (gram_det_nonneg j)
  · rw [volumeFactor_square, Matrix.det_mul, Matrix.det_transpose, pow_two]

omit [SquareRoot K] in
/-- `Jᵀ J` is regular exactly where the Jacobian has full column rank. -/
theorem gram_det_ne_zero_iff {dim sdim : Nat} (j : FinMatrix sdim dim K) :
    (jᵀ * j).det ≠ 0 ↔ j.rank = dim := by
  rw [← Matrix.rank_transpose_mul_self]
  constructor
  · intro hdet
    rw [Matrix.rank_of_det_ne_zero hdet, Fintype.card_fin]
  · intro hrank
    have hcols : LinearIndependent K (jᵀ * j).col := by
      rw [linearIndependent_iff_card_eq_finrank_span, Fintype.card_fin, Set.finrank,
        ← Matrix.rank_eq_finrank_span_cols, hrank]
    have hunit : IsUnit (jᵀ * j) := Matrix.linearIndependent_cols_iff_isUnit.1 hcols
    exact ((Matrix.isUnit_iff_isUnit_det _).1 hunit).ne_zero

/-- **Where `Jᵀ J` is regular**, the form is its inverse times the weight and the volume factor. -/
theorem pointForm_eq_inverse [ExactRoot K] {dim sdim : Nat} (hk : HasKernel dim sdim) (w : K)
    (j : Nat → Nat → K)
    (hj : ((jacobianMatrix sdim dim j)ᵀ * jacobianMatrix sdim dim j).det ≠ 0) :
    unpacked dim (OperatorData.pointForm dim sdim w j) =
      (w * volumeFactor (jacobianMatrix sdim dim j)) •
        ((jacobianMatrix sdim dim j)ᵀ * jacobianMatrix sdim dim j)⁻¹ := by
  have hvol := volumeFactor_sq hk (jacobianMatrix sdim dim j)
  have hne : volumeFactor (jacobianMatrix sdim dim j) ≠ 0 := by
    intro h
    exact hj (by rw [← hvol, h, zero_pow two_ne_zero])
  rw [pointForm_eq_adjugate hk, Matrix.inv_def, Ring.inverse_eq_inv', smul_smul, ← hvol]
  refine congrArg (· • _) ?_
  field_simp

end

end TensorDiffusion
