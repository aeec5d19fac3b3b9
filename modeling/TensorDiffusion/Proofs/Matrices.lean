import TensorDiffusion.Matrix
import TensorDiffusion.Proofs.Jacobian

/-!
# Small matrices are matrices

A stored matrix `Holds` a matrix if it has its shape and its entries.  Where there is room for the
result, the operations on stored matrices return, and what they return holds the result of the
operation: transpose, product, multiple, determinant and, for 2 × 2 and 3 × 3 matrices over a field,
the inverse.
-/

open scoped Matrix

namespace TensorDiffusion

/-! ### Sums over a loop -/

/-- A loop whose steps add a term in front. -/
theorem sweep_eq_sum {M : Type} [AddCommMonoid M] {n : Nat} {step : M → Nat → Except Fault M}
    {t : Nat → M} {start : M} (h : ∀ s k, k < n → step s k = .ok (t k + s)) :
    sweep n step start = .ok (start + ∑ k ∈ Finset.range n, t k) := by
  rw [sweep_eq (f := fun s k => s + t k) fun k s hk => by rw [h s k hk, add_comm]]
  exact congrArg _ (foldl_eq_sum (fun _ _ => rfl) start n)

theorem slot_map {β σ : Type} {buf : Array β} {i : Nat} {v : β} (f : β → σ)
    (h : slot buf i = .ok v) : slot (buf.map f) i = .ok (f v) := by
  rw [slot_eq_ok] at h ⊢
  rw [Array.getElem?_map, h, Option.map_some]

namespace Matrix

variable {K : Type} {l m n : Nat}

/-- The stored matrix has the shape and the entries of `A`. -/
structure Holds (a : Matrix K) (A : FinMatrix m n K) : Prop where
  rows : a.rows = m
  cols : a.cols = n
  get : ∀ (i : Fin m) (j : Fin n), a.get i j = .ok (A i j)

theorem Holds.read {a : Matrix K} {A : FinMatrix m n K} (ha : a.Holds A) {i j : Nat} (hi : i < m)
    (hj : j < n) : a.get i j = .ok (A ⟨i, hi⟩ ⟨j, hj⟩) :=
  ha.get ⟨i, hi⟩ ⟨j, hj⟩

/-- A buffer is viewed as a matrix if it has an entry for every place. -/
theorem ofSlice_ok {rows cols : Nat} {entries : Array K} (h : rows * cols ≤ entries.size) :
    ofSlice rows cols entries = .ok ⟨rows, cols, entries⟩ := by
  rw [ofSlice, require_eq_ok.2 h]
  rfl

/-! ### Entries asked for one by one -/

/-- The entry of a matrix at a flat position, column by column. -/
def flatEntry [Zero K] (A : FinMatrix m n K) (k : Nat) : K :=
  if h : k < m * n then A ⟨k % m, mod_lt_left h⟩ ⟨k / m, div_lt_right h⟩ else 0

theorem flatEntry_pair [Zero K] (A : FinMatrix m n K) (i : Fin m) (j : Fin n) :
    flatEntry A (i + m * j) = A i j := by
  rw [flatEntry, dif_pos (pair_lt i.isLt j.isLt)]
  exact congrArg₂ A (Fin.ext (pair_mod _ i.isLt)) (Fin.ext (pair_div _ i.isLt))

/-- The stored form of a matrix. -/
def ofEntries [Zero K] (A : FinMatrix m n K) : Matrix K :=
  ⟨m, n, Array.ofFn fun k : Fin (m * n) => flatEntry A k⟩

theorem ofEntries_holds [Zero K] (A : FinMatrix m n K) : (ofEntries A).Holds A := by
  refine ⟨rfl, rfl, ?_⟩
  intro i j
  rw [ofEntries, Matrix.get, if_pos ⟨i.isLt, j.isLt⟩, slot_ofFn (pair_lt i.isLt j.isLt),
    flatEntry_pair]

theorem build_ok [Zero K] [Stored K] {f : Nat → Nat → Except Fault K} {A : FinMatrix m n K}
    (hroom : Stored.bytes K * (m * n) < Size.bufferBound)
    (h : ∀ (i : Fin m) (j : Fin n), f i j = .ok (A i j)) :
    ∃ a, build m n f = .ok a ∧ a.Holds A := by
  have hcount : m * n < Size.bufferBound := lt_of_bytes hroom
  have hentries : tabulate (m * n) (fun k => f (k % m) (k / m)) =
      .ok (Array.ofFn fun k : Fin (m * n) => flatEntry A k) := by
    refine tabulate_eq fun k hk => ?_
    rw [flatEntry, dif_pos hk]
    exact h ⟨k % m, mod_lt_left hk⟩ ⟨k / m, div_lt_right hk⟩
  refine ⟨ofEntries A, ?_, ofEntries_holds A⟩
  rw [build, Size.mul_ok hcount, ok_bind, Size.reserve_eq_ok.2 hroom, ok_bind, hentries]
  rfl

/-! ### Operations -/

theorem transpose_ok [Zero K] [Stored K] {a : Matrix K} {A : FinMatrix m n K} (ha : a.Holds A)
    (hroom : Stored.bytes K * (n * m) < Size.bufferBound) :
    ∃ b, a.transpose = .ok b ∧ b.Holds Aᵀ := by
  rw [Matrix.transpose, ha.rows, ha.cols]
  exact build_ok hroom fun i j => ha.get j i

/-- A multiple of the entries. -/
theorem scale_holds [CommSemiring K] {a : Matrix K} {A : FinMatrix m n K} (ha : a.Holds A) (s : K) :
    (a.scale s).Holds (s • A) := by
  refine ⟨ha.rows, ha.cols, ?_⟩
  intro i j
  have hget := ha.get i j
  rw [Matrix.get, if_pos ⟨ha.rows ▸ i.isLt, ha.cols ▸ j.isLt⟩] at hget
  rw [Matrix.get, scale, if_pos ⟨ha.rows ▸ i.isLt, ha.cols ▸ j.isLt⟩, slot_map _ hget,
    Matrix.smul_apply, smul_eq_mul, mul_comm]

/-- An entry of a product: the first term, to which the others are added. -/
theorem productEntry_ok [CommSemiring K] {a b : Matrix K} {A : FinMatrix l m K}
    {B : FinMatrix m n K} (ha : a.Holds A) (hb : b.Holds B) (i : Fin l) (j : Fin n) :
    productEntry a b i j = .ok ((A * B) i j) := by
  rw [productEntry, ha.cols, Matrix.mul_apply]
  cases m with
  | zero => rfl
  | succ m =>
    -- The sum starts at the first term, so the loop runs over the others.
    let t (k : Nat) : K := if hk : k < m then A i (Fin.succ ⟨k, hk⟩) * B (Fin.succ ⟨k, hk⟩) j else 0
    have ht : ∀ k : Fin m, t k = A i k.succ * B k.succ j := fun k => dif_pos k.isLt
    have hstep : ∀ (sum : K) (k : Nat), k < m →
        (do return (← a.get i (k + 1)) * (← b.get (k + 1) j) + sum) =
          Except.ok (ε := Fault) (t k + sum) := by
      intro sum k hk
      have h₁ : a.get i (k + 1) = _ := ha.get i (Fin.succ ⟨k, hk⟩)
      have h₂ : b.get (k + 1) j = _ := hb.get (Fin.succ ⟨k, hk⟩) j
      rw [h₁, ok_bind, h₂, ok_bind, ← ht ⟨k, hk⟩]
      rfl
    have h₁ : a.get i 0 = _ := ha.get i 0
    have h₂ : b.get 0 j = _ := hb.get 0 j
    rw [if_neg (Nat.succ_ne_zero m), h₁, ok_bind, h₂, ok_bind]
    dsimp only
    rw [Nat.succ_sub_one, sweep_eq_sum hstep, Finset.sum_range, Fin.sum_univ_succ]
    simp only [ht]

theorem mul_ok [CommSemiring K] [Stored K] {a b : Matrix K} {A : FinMatrix l m K}
    {B : FinMatrix m n K} (ha : a.Holds A) (hb : b.Holds B)
    (hroom : Stored.bytes K * (l * n) < Size.bufferBound) :
    ∃ c, a.mul b = .ok c ∧ c.Holds (A * B) := by
  rw [Matrix.mul, ha.rows, hb.cols]
  exact build_ok hroom fun i j => productEntry_ok ha hb i j

/-! ### Determinants and inverses -/

section

variable [Field K] {a : Matrix K}

theorem determinant_two {A : FinMatrix 2 2 K} (ha : a.Holds A) : a.determinant = .ok A.det := by
  simp (disch := decide) only [determinant, ha.read, ok_bind, ha.rows, if_true, pure_eq_ok]
  rw [Matrix.det_fin_two, mul_comm (A 0 1)]
  rfl

theorem determinant_three {A : FinMatrix 3 3 K} (ha : a.Holds A) : a.determinant = .ok A.det := by
  have hrows : ¬ a.rows = 2 := by rw [ha.rows]; decide
  simp (disch := decide) only [determinant, ha.read, ok_bind, if_neg hrows, pure_eq_ok,
    Fin.zero_eta, Fin.mk_one, Fin.reduceFinMk]
  rw [Matrix.det_fin_three]
  refine congrArg _ ?_
  ring

theorem determinant_ok {dim : Nat} {A : FinMatrix dim dim K} (ha : a.Holds A)
    (hdim : dim = 2 ∨ dim = 3) : a.determinant = .ok A.det := by
  rcases hdim with rfl | rfl
  · exact determinant_two ha
  · exact determinant_three ha

variable [BEq K] [LawfulBEq K]

/-- A matrix whose determinant is zero has no inverse. -/
theorem inverse_singular {dim : Nat} {A : FinMatrix dim dim K} (ha : a.Holds A)
    (hdim : dim = 2 ∨ dim = 3) (hdet : A.det = 0) : a.inverse? = .ok none := by
  rw [inverse?, determinant_ok ha hdim, ok_bind, if_pos (by rw [hdet, beq_self_eq_true])]
  rfl

theorem inverse_two {A : FinMatrix 2 2 K} (ha : a.Holds A) (hdet : A.det ≠ 0) :
    ∃ b, a.inverse? = .ok (some b) ∧ b.Holds A⁻¹ := by
  rw [inverse?, determinant_ok ha (.inl rfl), ok_bind, if_neg (by rwa [beq_iff_eq])]
  simp (disch := decide) only [ha.read, ok_bind, ha.rows, if_true]
  refine ⟨_, rfl, rfl, rfl, ?_⟩
  intro i j
  rw [Matrix.inv_def, Matrix.adjugate_fin_two, Ring.inverse_eq_inv']
  fin_cases i <;> fin_cases j <;>
    simp [Matrix.get, slot, div_eq_inv_mul]

theorem inverse_three {A : FinMatrix 3 3 K} (ha : a.Holds A) (hdet : A.det ≠ 0) :
    ∃ b, a.inverse? = .ok (some b) ∧ b.Holds A⁻¹ := by
  have hrows : ¬ a.rows = 2 := by rw [ha.rows]; decide
  rw [inverse?, determinant_ok ha (.inr rfl), ok_bind, if_neg (by rwa [beq_iff_eq])]
  simp (disch := decide) only [ha.read, ok_bind, if_neg hrows]
  refine ⟨_, rfl, rfl, rfl, ?_⟩
  intro i j
  rw [Matrix.inv_def, Matrix.adjugate_fin_three, Ring.inverse_eq_inv']
  fin_cases i <;> fin_cases j <;>
    simp [Matrix.get, slot, div_eq_inv_mul, -mul_eq_mul_left_iff] <;> ring

/-- A matrix whose determinant is not zero has an inverse. -/
theorem inverse_regular {dim : Nat} {A : FinMatrix dim dim K} (ha : a.Holds A)
    (hdim : dim = 2 ∨ dim = 3) (hdet : A.det ≠ 0) :
    ∃ b, a.inverse? = .ok (some b) ∧ b.Holds A⁻¹ := by
  rcases hdim with rfl | rfl
  · exact inverse_two ha hdet
  · exact inverse_three ha hdet

end

end Matrix

end TensorDiffusion
