import Mathlib.Algebra.BigOperators.Fin
import Mathlib.Algebra.Order.BigOperators.Group.Finset
import TensorDiffusion.Proofs.PointForms

/-!
# Symmetry

Testing the operator of an element against a second field gives the energy of the two fields, which
is symmetric because the matrix at every point is (`energy_comm`), and not negative for equal fields
where no matrix at a point is negative (`energy_nonneg`).  The scalar product of two vectors is the
sum over components and elements (`scalarProduct_stiffnessVector`), so the operator on vectors is
symmetric, too.
-/

open scoped Matrix

namespace TensorDiffusion

variable {K : Type}

/-! ### Two fields on an element -/

section

variable [CommRing K] {dim d1d q1d : Nat} {b g op : Array K} {e : Nat}

/-- The energy of two fields with the nodal values `u` and `v` on element `e`: the gradient of `v`
times the flux of `u`, at all points. -/
def energy (dim d1d q1d : Nat) (b g op : Array K) (e : Nat) (u v : Nat → K) : K :=
  ∑ q ∈ Finset.range (q1d ^ dim), ∑ k ∈ Finset.range dim, ∑ l ∈ Finset.range dim,
    fieldGradient dim d1d q1d b g v k q * formEntry dim (q1d ^ dim) op q e k l *
      fieldGradient dim d1d q1d b g u l q

/-- The operator applied to `u` is tested against `v` with the energy of the two. -/
theorem sum_stiffness_mul (u v : Nat → K) :
    ∑ i ∈ Finset.range (d1d ^ dim), stiffness dim d1d q1d b g op e u i * v i =
      energy dim d1d q1d b g op e u v := by
  simp only [stiffness, Finset.sum_mul]
  rw [Finset.sum_comm]
  refine Finset.sum_congr rfl fun q _ => ?_
  rw [Finset.sum_comm]
  refine Finset.sum_congr rfl fun k _ => ?_
  rw [Finset.sum_comm]
  refine Finset.sum_congr rfl fun l _ => ?_
  calc ∑ i ∈ Finset.range (d1d ^ dim), gradientEntry dim d1d q1d b g k q i *
          formEntry dim (q1d ^ dim) op q e k l * fieldGradient dim d1d q1d b g u l q * v i
      = ∑ i ∈ Finset.range (d1d ^ dim), gradientEntry dim d1d q1d b g k q i * v i *
          formEntry dim (q1d ^ dim) op q e k l * fieldGradient dim d1d q1d b g u l q :=
        Finset.sum_congr rfl fun i _ => by ring
    _ = fieldGradient dim d1d q1d b g v k q * formEntry dim (q1d ^ dim) op q e k l *
          fieldGradient dim d1d q1d b g u l q := by
        rw [fieldGradient.eq_1 dim d1d q1d b g v, Finset.sum_mul, Finset.sum_mul]

/-- **The energy is symmetric.** -/
theorem energy_comm (u v : Nat → K) :
    energy dim d1d q1d b g op e u v = energy dim d1d q1d b g op e v u := by
  refine Finset.sum_congr rfl fun q _ => ?_
  rw [Finset.sum_comm]
  refine Finset.sum_congr rfl fun l _ => Finset.sum_congr rfl fun k _ => ?_
  rw [formEntry_comm]
  ring

/-- The energy in matrices: at every point the gradients are tested with the form. -/
theorem energy_eq_dotProduct (u v : Nat → K) :
    energy dim d1d q1d b g op e u v =
      ∑ q ∈ Finset.range (q1d ^ dim), (fun k : Fin dim => fieldGradient dim d1d q1d b g v k q) ⬝ᵥ
        formMatrix dim (q1d ^ dim) op q e *ᵥ fun l => fieldGradient dim d1d q1d b g u l q := by
  refine Finset.sum_congr rfl fun q _ => ?_
  simp only [dotProduct, Matrix.mulVec, formMatrix, Finset.mul_sum, ← mul_assoc, Finset.sum_range]

end

/-! ### Matrices that are not negative -/

section

variable [Field K] [LinearOrder K] [IsStrictOrderedRing K] {m n : Nat}

theorem dotProduct_self_nonneg (a : Fin n → K) : 0 ≤ a ⬝ᵥ a :=
  Finset.sum_nonneg fun i _ => mul_self_nonneg (a i)

/-- The inverse of `Jᵀ J` is not negative: with `a = Jᵀ J v` it takes the value `J v ⬝ J v`. -/
theorem gram_inverse_nonneg (j : FinMatrix m n K) (hdet : (jᵀ * j).det ≠ 0) (a : Fin n → K) :
    0 ≤ a ⬝ᵥ (jᵀ * j)⁻¹ *ᵥ a := by
  obtain ⟨v, hv⟩ : ∃ v, v = (jᵀ * j)⁻¹ *ᵥ a := ⟨_, rfl⟩
  have ha : a = (jᵀ * j) *ᵥ v := by
    rw [hv, Matrix.mulVec_mulVec, Matrix.mul_nonsing_inv _ (isUnit_iff_ne_zero.2 hdet),
      Matrix.one_mulVec]
  calc (0 : K) ≤ j *ᵥ v ⬝ᵥ j *ᵥ v := dotProduct_self_nonneg _
    _ = (jᵀ * j) *ᵥ v ⬝ᵥ v := by
        rw [Matrix.dotProduct_mulVec, Matrix.vecMul_mulVec, ← Matrix.dotProduct_mulVec,
          dotProduct_comm]
    _ = a ⬝ᵥ (jᵀ * j)⁻¹ *ᵥ a := by rw [← hv, ← ha]

variable {dim d1d q1d : Nat} {b g op : Array K} {e : Nat}

/-- **The energy of a field is not negative** where no matrix at a point is. -/
theorem energy_nonneg
    (hform : ∀ q < q1d ^ dim, ∀ a : Fin dim → K, 0 ≤ a ⬝ᵥ formMatrix dim (q1d ^ dim) op q e *ᵥ a)
    (u : Nat → K) : 0 ≤ energy dim d1d q1d b g op e u u := by
  rw [energy_eq_dotProduct]
  exact Finset.sum_nonneg fun q hq => hform q (Finset.mem_range.1 hq) _

end

/-! ### Vectors -/

section

variable [CommRing K] {dim vdim d1d q1d ne : Nat} {b g op x y : Array K}

/-- The scalar product of two vectors. -/
def scalarProduct (x y : Array K) : K :=
  ∑ n ∈ Finset.range x.size, x.getD n 0 * y.getD n 0

theorem scalarProduct_comm (h : x.size = y.size) : scalarProduct x y = scalarProduct y x := by
  rw [scalarProduct, scalarProduct, h]
  exact Finset.sum_congr rfl fun n _ => mul_comm _ _

/-- The operator applied to a vector. -/
def stiffnessVector (dim vdim d1d q1d : Nat) (b g op x : Array K) : Array K :=
  addStiffness dim vdim d1d q1d b g op x (Array.replicate x.size 0)

@[simp]
theorem size_stiffnessVector :
    (stiffnessVector dim vdim d1d q1d b g op x).size = x.size := by
  rw [stiffnessVector, size_addStiffness, Array.size_replicate]

/-- What is added to the output does not depend on it. -/
theorem addStiffness_eq (h : x.size = y.size) :
    addStiffness dim vdim d1d q1d b g op x y =
      Array.zipWith (· + ·) y (stiffnessVector dim vdim d1d q1d b g op x) := by
  refine Array.ext (by simp [h]) fun n _ _ => ?_
  simp [stiffnessVector, addStiffness]

theorem nodal_stiffnessVector {e c i : Nat} (hx : x.size = d1d ^ dim * vdim * ne) (he : e < ne)
    (hc : c < vdim) (hi : i < d1d ^ dim) :
    nodal (d1d ^ dim) vdim (stiffnessVector dim vdim d1d q1d b g op x) e c i =
      stiffness dim d1d q1d b g op e (nodal (d1d ^ dim) vdim x e c) i := by
  have hblank : (Array.replicate x.size (0 : K)).size = d1d ^ dim * vdim * ne := by
    rw [Array.size_replicate, hx]
  have hzero : nodal (d1d ^ dim) vdim (Array.replicate x.size (0 : K)) e c i = 0 := by
    rw [nodal, Array.getD_eq_getD_getElem?, Array.getElem?_replicate]
    split <;> rfl
  rw [stiffnessVector, nodal_addStiffness hblank he hc hi, hzero, zero_add]

/-- The scalar product with the operator applied is the sum of the energies. -/
theorem scalarProduct_stiffnessVector (hx : x.size = d1d ^ dim * vdim * ne) :
    scalarProduct (stiffnessVector dim vdim d1d q1d b g op x) y =
      ∑ e ∈ Finset.range ne, ∑ c ∈ Finset.range vdim,
        energy dim d1d q1d b g op e (nodal (d1d ^ dim) vdim x e c)
          (nodal (d1d ^ dim) vdim y e c) := by
  rw [scalarProduct, size_stiffnessVector, hx, sum_range_triples]
  refine Finset.sum_congr rfl fun e he => Finset.sum_congr rfl fun c hc => ?_
  rw [← sum_stiffness_mul]
  refine Finset.sum_congr rfl fun i hi => ?_
  rw [← nodal_stiffnessVector hx (Finset.mem_range.1 he) (Finset.mem_range.1 hc)
    (Finset.mem_range.1 hi)]
  rfl

/-- **The operator is symmetric.** -/
theorem scalarProduct_stiffnessVector_comm (hx : x.size = d1d ^ dim * vdim * ne) (hy : y.size = x.size) :
    scalarProduct (stiffnessVector dim vdim d1d q1d b g op x) y =
      scalarProduct x (stiffnessVector dim vdim d1d q1d b g op y) := by
  have hsize : x.size = (stiffnessVector dim vdim d1d q1d b g op y).size := by
    rw [size_stiffnessVector, hy]
  rw [scalarProduct_comm hsize, scalarProduct_stiffnessVector hx,
    scalarProduct_stiffnessVector (hy.trans hx)]
  exact Finset.sum_congr rfl fun e _ => Finset.sum_congr rfl fun c _ => energy_comm _ _

end

/-- **The operator is positive semidefinite** where no matrix at a point is negative. -/
theorem scalarProduct_stiffnessVector_nonneg [Field K] [LinearOrder K] [IsStrictOrderedRing K]
    {dim vdim d1d q1d ne : Nat} {b g op x : Array K} (hx : x.size = d1d ^ dim * vdim * ne)
    (hform : ∀ q e, q < q1d ^ dim → e < ne → ∀ a : Fin dim → K,
      0 ≤ a ⬝ᵥ formMatrix dim (q1d ^ dim) op q e *ᵥ a) :
    0 ≤ scalarProduct x (stiffnessVector dim vdim d1d q1d b g op x) := by
  rw [← scalarProduct_stiffnessVector_comm hx rfl, scalarProduct_stiffnessVector hx]
  exact Finset.sum_nonneg fun e he => Finset.sum_nonneg fun c _ =>
    energy_nonneg (fun q hq => hform q e hq (Finset.mem_range.1 he)) _

end TensorDiffusion
