import Mathlib.Algebra.Group.Nat.Defs

/-!
# Flat indices

A pair `(a, b)` with `a < m` and `b < n` has the flat index `a + m * b`, below `m * n`; quotient
and remainder by `m` take it apart again.
-/

namespace TensorDiffusion

theorem pair_lt {a b m n : Nat} (ha : a < m) (hb : b < n) : a + m * b < m * n :=
  calc a + m * b < m + m * b := Nat.add_lt_add_right ha _
    _ = m * (b + 1) := by rw [Nat.mul_succ, Nat.add_comm]
    _ ≤ m * n := Nat.mul_le_mul_left m hb

theorem pair_mod {a m : Nat} (b : Nat) (ha : a < m) : (a + m * b) % m = a := by
  rw [Nat.add_mul_mod_self_left, Nat.mod_eq_of_lt ha]

theorem pair_div {a m : Nat} (b : Nat) (ha : a < m) : (a + m * b) / m = b := by
  rw [Nat.add_mul_div_left _ _ (Nat.zero_lt_of_lt ha), Nat.div_eq_of_lt ha, Nat.zero_add]

theorem div_lt_right {k m n : Nat} (h : k < m * n) : k / m < n :=
  Nat.div_lt_of_lt_mul h

theorem mod_lt_left {k m n : Nat} (h : k < m * n) : k % m < m :=
  Nat.mod_lt k (Nat.pos_of_mul_pos_right (Nat.zero_lt_of_lt h))

/-- The positions of a flat index of three axes. -/
theorem triple_positions {l m a b : Nat} (p : Nat) (hl : l < a) (hm : m < b) :
    (l + a * (m + b * p)) % a = l ∧ (l + a * (m + b * p)) / a % b = m ∧
      (l + a * (m + b * p)) / (a * b) = p := by
  refine ⟨pair_mod _ hl, ?_, ?_⟩
  · rw [pair_div _ hl, pair_mod _ hm]
  · rw [← Nat.div_div_eq_div_mul, pair_div _ hl, pair_div _ hm]

/-- A flat index of two axes of three, with the position on the third. -/
theorem mod_add_mul (k a b p : Nat) :
    k % (a * b) + a * b * p = k % a + a * (k / a % b + b * p) := by
  rw [Nat.mod_mul, Nat.mul_add, Nat.mul_assoc, Nat.add_assoc]

/-- Another position on the third axis leaves the positions on the first two. -/
theorem mod_add_mul_positions {a b : Nat} (ha : 0 < a) (hb : 0 < b) (k p : Nat) :
    (k % (a * b) + a * b * p) % a = k % a ∧ (k % (a * b) + a * b * p) / a % b = k / a % b := by
  rw [mod_add_mul]
  have hk : k % a < a := Nat.mod_lt k ha
  exact ⟨pair_mod _ hk, by rw [pair_div _ hk, pair_mod _ (Nat.mod_lt _ hb)]⟩

/-- A position on one of `n` axes is that of the flat index over these axes. -/
theorem digit_mod {d axis n : Nat} (k : Nat) (h : axis < n) :
    k % d ^ n / d ^ axis % d = k / d ^ axis % d := by
  obtain ⟨m, rfl⟩ := Nat.exists_eq_add_of_lt h
  have hpow : d ^ (axis + m + 1) = d ^ axis * (d * d ^ m) := by
    rw [Nat.add_assoc, Nat.pow_add, Nat.pow_succ']
  rw [hpow, Nat.mod_mul_right_div_self, Nat.mod_mul_right_mod]

/-! ### Products below a bound -/

/-- A rectangle is below a bound that both squares are below. -/
theorem mul_lt_of_squares {m n bound : Nat} (hm : m * m < bound) (hn : n * n < bound) :
    m * n < bound := by
  rcases Nat.le_total m n with h | h
  · exact Nat.lt_of_le_of_lt (Nat.mul_le_mul_right n h) hn
  · exact Nat.lt_of_le_of_lt (Nat.mul_le_mul_left m h) hm

theorem lt_of_cube {n b : Nat} (h : n * n * n < b * b * b) : n < b :=
  Nat.lt_of_not_le fun hle =>
    absurd h (Nat.not_lt.2 (Nat.mul_le_mul (Nat.mul_le_mul hle hle) hle))

end TensorDiffusion
