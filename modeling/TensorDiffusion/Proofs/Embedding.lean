import TensorDiffusion.Proofs.Similarity

/-!
# Faces of the plane in space

A matrix `R` with orthonormal columns lays the plane into space.  The Jacobians `R J` have the
products of columns that `J` has, and their volume factor is the determinant of `J` without its sign
(`volumeFactor_embedded`).  So the setup for faces in space stores what the setup for faces in the
plane stores, up to the orientation: where `J` reverses it, every entry has the opposite sign
(`surface_setup_embedded`).
-/

open scoped Matrix

namespace TensorDiffusion

variable {K : Type}

section

variable [Field K] [LinearOrder K] [IsStrictOrderedRing K]

/-- A quotient by an absolute value has the sign of the divisor in front. -/
theorem div_abs_eq_sign_mul (a b : K) : a / |b| = (SignType.sign b : K) * (a / b) := by
  rcases lt_trichotomy b 0 with hb | rfl | hb
  · rw [abs_of_neg hb, sign_neg hb, SignType.coe_neg_one, neg_one_mul, div_neg]
  · rw [abs_zero, div_zero, mul_zero]
  · rw [abs_of_pos hb, sign_pos hb, SignType.coe_one, one_mul]

variable [SquareRoot K] [ExactRoot K]

theorem sqrt_sq_eq_abs (a : K) : SquareRoot.sqrt (a ^ 2) = |a| := by
  refine (pow_left_inj₀ (ExactRoot.sqrt_nonneg (sq_nonneg a)) (abs_nonneg a) two_ne_zero).1 ?_
  rw [ExactRoot.sqrt_sq (sq_nonneg a), sq_abs]

variable {r : FinMatrix 3 2 K}

/-- The volume factor in space does not know the orientation. -/
theorem volumeFactor_embedded (hr : rᵀ * r = 1) (j : FinMatrix 2 2 K) :
    volumeFactor (r * j) = |j.det| := by
  rw [volumeFactor_surface, gram_of_orthonormal hr, Matrix.det_mul, Matrix.det_transpose, ← pow_two,
    sqrt_sq_eq_abs]

namespace OperatorData

/-- **The form of a point** of a face that is laid into space. -/
theorem pointForm_embedded {j j' : Nat → Nat → K} (hr : rᵀ * r = 1)
    (h : jacobianMatrix 3 2 j' = r * jacobianMatrix 2 2 j) (w : K) :
    unpacked 2 (pointForm 2 3 w j') =
      (SignType.sign (jacobianMatrix 2 2 j).det : K) • unpacked 2 (pointForm 2 2 w j) := by
  rw [pointForm_eq_adjugate (.inr (.inl ⟨rfl, rfl⟩)), pointForm_eq_adjugate (.inl ⟨rfl, rfl⟩), h,
    gram_of_orthonormal hr, volumeFactor_embedded hr, volumeFactor_square, div_abs_eq_sign_mul,
    smul_smul]

/-- The entries that are stored at a point, one by one. -/
theorem stored_embedded {nq ne q e p : Nat} {w j j' c op op' : Array K} (hr : rᵀ * r = 1)
    (hop : op.size = nq * symmetricEntries 2 * ne) (hop' : op'.size = nq * symmetricEntries 2 * ne)
    (hq : q < nq) (hp : p < symmetricEntries 2) (he : e < ne)
    (h : jacobianAt nq 3 2 j' q e = r * jacobianAt nq 2 2 j q e) :
    (stored (pointForm 2 3) nq 3 2 w j' c op').getD (q + nq * (p + symmetricEntries 2 * e)) 0 =
      (SignType.sign (jacobianAt nq 2 2 j q e).det : K) * (stored (pointForm 2 2) nq 2 2 w j c
        op).getD (q + nq * (p + symmetricEntries 2 * e)) 0 := by
  rw [stored_getD hop hq hp he, stored_getD hop' hq hp he]
  exact getD_of_unpacked_smul (.inl ⟨rfl, rfl⟩) hp (pointForm_embedded hr h _)

/-- **Faces of the plane, laid into space.**  Both setups return, on the same weights and the same
samples, one on the Jacobians `J` in the plane and one on the Jacobians `R J` in space.  Where the
determinant of `J` is positive, the entries that they store are the same; where it is negative, the
entries in space are the opposite ones. -/
theorem surface_setup_embedded {config config' : Execution} {q1d ne : Nat}
    {w j j' c op op' : Array K} (hr : rᵀ * r = 1)
    (h : SetupSizes 2 2 q1d ne w.size j.size c.size op.size)
    (h' : SetupSizes 2 3 q1d ne w.size j'.size c.size op'.size)
    (hj : ∀ q e, q < q1d ^ 2 → e < ne →
      jacobianAt (q1d ^ 2) 3 2 j' q e = r * jacobianAt (q1d ^ 2) 2 2 j q e) :
    ∃ out out' : Array K,
      (run planar config q1d ne w j c).run op = .ok () out ∧ out.size = q1d ^ 2 * 3 * ne ∧
      (run surface config' q1d ne w j' c).run op' = .ok () out' ∧
        out'.size = q1d ^ 2 * 3 * ne ∧
      ∀ q k e, q < q1d ^ 2 → k < 3 → e < ne →
        (0 < (jacobianAt (q1d ^ 2) 2 2 j q e).det →
          out'.getD (q + q1d ^ 2 * (k + 3 * e)) 0 = out.getD (q + q1d ^ 2 * (k + 3 * e)) 0) ∧
        ((jacobianAt (q1d ^ 2) 2 2 j q e).det < 0 →
          out'.getD (q + q1d ^ 2 * (k + 3 * e)) 0 = -out.getD (q + q1d ^ 2 * (k + 3 * e)) 0) := by
  refine ⟨_, _, run_eq planar_computes (.inl ⟨rfl, rfl⟩) h, (size_stored ..).trans h.op,
    run_eq surface_computes (.inr (.inl ⟨rfl, rfl⟩)) h', (size_stored ..).trans h'.op, ?_⟩
  intro q k e hq hk he
  have hentry := stored_embedded (w := w) (c := c) hr h.op h'.op hq hk he (hj q e hq he)
  constructor
  · intro hdet
    rw [sign_pos hdet, SignType.coe_one, one_mul] at hentry
    exact hentry
  · intro hdet
    rw [sign_neg hdet, SignType.coe_neg_one, neg_one_mul] at hentry
    exact hentry

end OperatorData

end

/-! ### Two faces in a tilted plane -/

/-- A plane that contains the third axis. -/
noncomputable def tiltedPlane : FinMatrix 3 2 ℝ :=
  !![3 / 5, 0; 4 / 5, 0; 0, 1]

theorem tiltedPlane_orthonormal : tiltedPlaneᵀ * tiltedPlane = 1 := by
  ext i k
  fin_cases i <;> fin_cases k <;>
    norm_num [tiltedPlane, Matrix.mul_apply, Fin.sum_univ_succ]

/-- Two faces of one point each, of which the first reverses the orientation. -/
theorem OperatorData.surface_setup_embedded_two_faces :
    ∃ out out' : Array ℝ,
      (run planar {} 1 2 #[2] #[1, 3, 2, 4, 2, 4, 1, 3] #[3, 5]).run #[0, 0, 0, 0, 0, 0] =
        .ok () out ∧
      (run surface {} 1 2 #[2] #[3 / 5, 4 / 5, 3, 6 / 5, 8 / 5, 4, 6 / 5, 8 / 5, 4, 3 / 5, 4 / 5, 3]
        #[3, 5]).run #[0, 0, 0, 0, 0, 0] = .ok () out' ∧
      ∀ k < 3, out'.getD k 0 = -out.getD k 0 ∧ out'.getD (k + 3) 0 = out.getD (k + 3) 0 := by
  have hsizes : SetupSizes 2 2 1 2 1 8 2 6 :=
    ⟨by decide, by decide, by decide, by decide, by decide, by decide⟩
  have hsizes' : SetupSizes 2 3 1 2 1 12 2 6 :=
    ⟨by decide, by decide, by decide, by decide, by decide, by decide⟩
  have hreversing : jacobianAt 1 2 2 #[(1 : ℝ), 3, 2, 4, 2, 4, 1, 3] 0 0 = !![1, 2; 3, 4] := by
    ext i k
    fin_cases i <;> fin_cases k <;> rfl
  have hkeeping : jacobianAt 1 2 2 #[(1 : ℝ), 3, 2, 4, 2, 4, 1, 3] 0 1 = !![2, 1; 4, 3] := by
    ext i k
    fin_cases i <;> fin_cases k <;> rfl
  have hj : ∀ q e, q < 1 ^ 2 → e < 2 → jacobianAt (1 ^ 2) 3 2
      #[3 / 5, 4 / 5, 3, 6 / 5, 8 / 5, 4, 6 / 5, 8 / 5, 4, 3 / 5, 4 / 5, 3] q e =
        tiltedPlane * jacobianAt (1 ^ 2) 2 2 #[(1 : ℝ), 3, 2, 4, 2, 4, 1, 3] q e := by
    intro q e hq he
    obtain rfl : q = 0 := by omega
    ext i k
    rw [Matrix.mul_apply, Fin.sum_univ_two]
    interval_cases e <;> fin_cases i <;> fin_cases k <;>
      norm_num [tiltedPlane, jacobianAt, jacobianMatrix, jacobianEntry]
  obtain ⟨out, out', hrun, -, hrun', -, hentries⟩ := @surface_setup_embedded ℝ _ _ _ _ _ _ {} {} 1
    2 #[2] #[1, 3, 2, 4, 2, 4, 1, 3] #[3 / 5, 4 / 5, 3, 6 / 5, 8 / 5, 4, 6 / 5, 8 / 5, 4, 3 / 5,
      4 / 5, 3] #[3, 5] #[0, 0, 0, 0, 0, 0] #[0, 0, 0, 0, 0, 0] tiltedPlane_orthonormal hsizes
    hsizes' hj
  refine ⟨out, out', hrun, hrun', ?_⟩
  intro k hk
  have hfirst := (hentries 0 k 0 (by decide) hk (by decide)).2
  have hsecond := (hentries 0 k 1 (by decide) hk (by decide)).1
  rw [show 1 ^ 2 = 1 from rfl] at hfirst hsecond
  rw [hreversing, Matrix.det_fin_two_of, Nat.zero_add, Nat.one_mul] at hfirst
  rw [hkeeping, Matrix.det_fin_two_of, Nat.zero_add, Nat.one_mul] at hsecond
  exact ⟨hfirst (by norm_num), hsecond (by norm_num)⟩

end TensorDiffusion
