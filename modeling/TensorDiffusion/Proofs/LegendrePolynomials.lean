import Mathlib.LinearAlgebra.Lagrange
import Mathlib.Algebra.Order.Field.Basic
import Mathlib.Tactic.FieldSimp
import Mathlib.Tactic.LinearCombination
import Mathlib.Tactic.Positivity
import TensorDiffusion.Quadrature.Legendre

/-!
# The Legendre polynomials

The polynomials whose values the recurrence computes, over a field of characteristic zero
(`Legendre.registers_evaluate`, `Legendre.derivative_evaluate`), and what makes the points of Gauss
rules of their roots.

* `Legendre.derivative_identities`: two identities for the derivatives, proved together, from which
  the formula for the first derivative and the integrals follow.
* `Legendre.integral`: the integral over `[-1, 1]` of a polynomial, term by term.
* `Legendre.integral_mul_of_degree_lt`: a Legendre polynomial is orthogonal to all polynomials of
  lower degree.
* `Legendre.sub_mul_kernel`: the sum of Christoffel and Darboux in closed form.
* `Legendre.sum_of_cardinals`: a polynomial of lower degree than there are points is integrated by
  its values.
* `Legendre.sum_of_orthogonal`: so are polynomials of a higher degree, if the points are the roots of
  a polynomial that is orthogonal to the quotients.
-/

namespace TensorDiffusion

open Polynomial

namespace Legendre

variable (K : Type) [Field K]

/-- The Legendre polynomials, by their recurrence. -/
noncomputable def polynomial : Nat → K[X]
  | 0     => 1
  | 1     => X
  | m + 2 => C ((m + 2 : Nat) : K)⁻¹ *
      (((2 * m + 3 : Nat) : K[X]) * X * polynomial (m + 1) - ((m + 1 : Nat) : K[X]) * polynomial m)

variable {K} (n : Nat) (x : K)

theorem natDegree_polynomial_le : (polynomial K n).natDegree ≤ n := by
  induction n using Nat.twoStepInduction with
  | zero => simp [polynomial]
  | one => simp [polynomial]
  | more n ih ih' =>
    have hconst (k : Nat) : (k : K[X]).natDegree ≤ 0 := (natDegree_natCast k).le
    refine (natDegree_C_mul_le _ _).trans ((natDegree_sub_le _ _).trans (max_le ?_ ?_))
    · have hX := natDegree_mul_le_of_le (hconst (2 * n + 3)) natDegree_X_le
      exact (natDegree_mul_le_of_le hX ih').trans (by omega)
    · exact (natDegree_mul_le_of_le (hconst _) ih).trans (by omega)

/-- The integral over `[-1, 1]`, term by term. -/
noncomputable def integral : K[X] →ₗ[K] K :=
  lsum fun k => ((1 + (-1) ^ k) / ((k : K) + 1)) • LinearMap.id

theorem integral_monomial (k : Nat) (a : K) :
    integral (monomial k a) = (1 + (-1) ^ k) / ((k : K) + 1) * a := by
  simp [integral]

theorem integral_X_pow (k : Nat) :
    integral (X ^ k : K[X]) = (1 + (-1) ^ k) / ((k : K) + 1) := by
  rw [X_pow_eq_monomial, integral_monomial, mul_one]

theorem integral_C_mul (c : K) (p : K[X]) : integral (C c * p) = c * integral p := by
  rw [C_mul', map_smul, smul_eq_mul]

/-- The sum of Christoffel and Darboux below the degree `n`. -/
noncomputable def kernel (n : Nat) (y : K) : K[X] :=
  ∑ k ∈ Finset.range n, C ((2 * k + 1 : Nat) * (polynomial K k).eval y) * polynomial K k

theorem eval_kernel_self (y : K) : (kernel n y).eval y =
    ∑ k ∈ Finset.range n, (2 * k + 1 : Nat) * (polynomial K k).eval y ^ 2 := by
  rw [kernel, eval_finsetSum]
  refine Finset.sum_congr rfl fun k _ => ?_
  rw [eval_mul, eval_C]
  ring

/-! ### Values -/

/-- One more degree is one more step. -/
theorem evaluate_succ :
    evaluate (n + 1) x = ⟨n + 1, x,
      (((2 : Nat) * (n + 1 : Nat) - 1) * x * (evaluate n x).value -
        ((n + 1 : Nat) - 1) * (evaluate n x).below) / (n + 1 : Nat), (evaluate n x).value⟩ := by
  simp only [evaluate, List.range'_concat, List.foldl_append, List.foldl_cons, List.foldl_nil, step,
    Nat.one_mul, Nat.add_comm 1 n]

section

variable (K) [CharZero K]

/-- **The recurrence**, with nothing below degree zero. -/
theorem recurrence (m : Nat) :
    ((m : K[X]) + 1) * polynomial K (m + 1) =
      (2 * (m : K[X]) + 1) * X * polynomial K m - (m : K[X]) * polynomial K (m - 1) := by
  cases m with
  | zero => simp [polynomial]
  | succ m =>
    have hne : ((m + 2 : Nat) : K) ≠ 0 := Nat.cast_ne_zero.2 (Nat.succ_ne_zero (m + 1))
    have hinv : ((m + 2 : Nat) : K[X]) * C ((m + 2 : Nat) : K)⁻¹ = 1 := by
      rw [← C_eq_natCast, ← C_mul, mul_inv_cancel₀ hne, C_1]
    rw [polynomial, Nat.add_sub_cancel]
    push_cast at hinv ⊢
    linear_combination ((2 * (m : K[X]) + 3) * X * polynomial K (m + 1) -
      ((m : K[X]) + 1) * polynomial K m) * hinv

theorem eval_recurrence (m : Nat) (x : K) :
    ((m : K) + 1) * (polynomial K (m + 1)).eval x =
      (2 * (m : K) + 1) * x * (polynomial K m).eval x -
        (m : K) * (polynomial K (m - 1)).eval x := by
  simpa using congrArg (eval x) (recurrence K m)

end

variable [CharZero K]

/-- The registers of the loop hold the polynomial of this degree and, if there is one, the
polynomial one degree below. -/
theorem registers_evaluate :
    (evaluate n x).value = (polynomial K n).eval x ∧
      (n : K) * (evaluate n x).below = n * (polynomial K (n - 1)).eval x := by
  induction n with
  | zero => simp [evaluate, polynomial]
  | succ n ih =>
    obtain ⟨hvalue, hbelow⟩ := ih
    have hne : (n : K) + 1 ≠ 0 := Nat.cast_add_one_ne_zero n
    rw [evaluate_succ]
    refine ⟨?_, by rw [hvalue, Nat.add_sub_cancel]⟩
    rw [hvalue]
    push_cast
    rw [div_eq_iff hne]
    linear_combination -eval_recurrence K n x - hbelow

/-! ### Derivatives -/

section

variable (K)

/-- Both identities for the derivatives, each from both for the degree below. -/
theorem derivative_identities (n : Nat) :
    (polynomial K (n + 1)).derivative =
        X * (polynomial K n).derivative + ((n : K[X]) + 1) * polynomial K n ∧
      X * (polynomial K (n + 1)).derivative - (polynomial K n).derivative =
        ((n : K[X]) + 1) * polynomial K (n + 1) := by
  induction n with
  | zero => simp [polynomial]
  | succ n ih =>
    obtain ⟨hup, hdown⟩ := ih
    have hne : (n : K[X]) + 1 + 1 ≠ 0 := by exact_mod_cast Nat.succ_ne_zero (n + 1)
    have hrec := recurrence K (n + 1)
    have hderiv := congrArg Polynomial.derivative hrec
    simp only [Nat.add_sub_cancel, derivative_mul, derivative_sub, derivative_add,
      derivative_natCast, derivative_one, derivative_X, derivative_ofNat, Nat.cast_succ]
      at hrec hderiv
    -- From the recurrence, differentiated; `hdown` removes the derivative of the lower degree.
    have hsucc : (polynomial K (n + 1 + 1)).derivative =
        X * (polynomial K (n + 1)).derivative + ((n : K[X]) + 1 + 1) * polynomial K (n + 1) := by
      refine mul_left_cancel₀ hne ?_
      linear_combination hderiv + ((n : K[X]) + 1) * hdown
    refine ⟨by exact_mod_cast hsucc, ?_⟩
    push_cast
    linear_combination X * hsucc - hrec + X * hdown - hup

/-- The formula for the first derivative. -/
theorem sq_sub_one_mul_derivative (n : Nat) :
    (X ^ 2 - 1) * (polynomial K n).derivative =
      (n : K[X]) * (X * polynomial K n - polynomial K (n - 1)) := by
  cases n with
  | zero => simp [polynomial]
  | succ n =>
    obtain ⟨hup, hdown⟩ := derivative_identities K n
    rw [Nat.add_sub_cancel]
    push_cast
    linear_combination X * hdown - hup

end

/-- **The first derivative** is computed away from the ends. -/
theorem derivative_evaluate (hx : x ^ 2 ≠ 1) :
    (evaluate n x).derivative = (polynomial K n).derivative.eval x := by
  obtain ⟨hvalue, hbelow⟩ := registers_evaluate n x
  have hne : x * x - 1 ≠ 0 := fun h => hx (by linear_combination h)
  have hformula := congrArg (eval x) (sq_sub_one_mul_derivative K n)
  simp only [eval_mul, eval_sub, eval_pow, eval_X, eval_one, eval_natCast] at hformula
  change (n : K) * (x * (evaluate n x).value - (evaluate n x).below) / (x * x - 1) = _
  rw [div_eq_iff hne, hvalue]
  linear_combination -hformula - hbelow

/-! ### Ends, parity and degree -/

section

variable (K)

theorem eval_polynomial_one (n : Nat) : (polynomial K n).eval 1 = 1 := by
  induction n using Nat.twoStepInduction with
  | zero => simp [polynomial]
  | one => simp [polynomial]
  | more n ih ih' =>
    refine mul_left_cancel₀ (Nat.cast_add_one_ne_zero (n + 1)) ?_
    rw [eval_recurrence, Nat.add_sub_cancel, ih, ih']
    push_cast
    ring

end

/-- Even polynomials in even degrees, odd ones in odd degrees. -/
theorem eval_polynomial_neg : (polynomial K n).eval (-x) = (-1) ^ n * (polynomial K n).eval x := by
  induction n using Nat.twoStepInduction with
  | zero => simp [polynomial]
  | one => simp [polynomial]
  | more n ih ih' =>
    refine mul_left_cancel₀ (Nat.cast_add_one_ne_zero (n + 1)) ?_
    rw [eval_recurrence, mul_left_comm, eval_recurrence, Nat.add_sub_cancel, ih, ih']
    push_cast
    ring

/-- The leading coefficients do not vanish. -/
theorem coeff_polynomial_ne_zero : (polynomial K n).coeff n ≠ 0 := by
  induction n with
  | zero => simp [polynomial]
  | succ n ih =>
    intro hzero
    have hlow : (polynomial K (n - 1)).coeff (n + 1) = 0 :=
      coeff_eq_zero_of_natDegree_lt ((natDegree_polynomial_le (n - 1)).trans_lt (by omega))
    have hscale (k : Nat) (p : K[X]) : ((k : K[X]) * p).coeff (n + 1) = k * p.coeff (n + 1) := by
      rw [← C_eq_natCast, coeff_C_mul]
    have hrec : ((n + 1 : Nat) : K[X]) * polynomial K (n + 1) =
        ((2 * n + 1 : Nat) : K[X]) * (X * polynomial K n) - (n : K[X]) * polynomial K (n - 1) := by
      push_cast
      linear_combination recurrence K n
    have hlead := congrArg (coeff · (n + 1)) hrec
    simp only [coeff_sub, hscale, coeff_X_mul, hlow, hzero, mul_zero, sub_zero] at hlead
    exact mul_ne_zero (by exact_mod_cast Nat.succ_ne_zero (2 * n)) ih hlead.symm

theorem degree_polynomial : (polynomial K n).degree = n :=
  degree_eq_of_le_of_coeff_ne_zero (degree_le_of_natDegree_le (natDegree_polynomial_le n))
    (coeff_polynomial_ne_zero n)

/-! ### Integrals -/

/-- The integral of a derivative. -/
theorem integral_derivative (p : K[X]) : integral p.derivative = p.eval 1 - p.eval (-1) := by
  induction p using Polynomial.induction_on' with
  | add p q hp hq =>
    rw [derivative_add, map_add, hp, hq, eval_add, eval_add]
    ring
  | monomial k a =>
    cases k with
    | zero => simp
    | succ k =>
      have hne : (k : K) + 1 ≠ 0 := Nat.cast_add_one_ne_zero k
      rw [derivative_monomial, Nat.add_sub_cancel, integral_monomial, eval_monomial, eval_monomial]
      push_cast
      field_simp
      ring

/-- Legendre polynomials that are not constant have the integral zero. -/
theorem integral_polynomial_succ : integral (polynomial K (n + 1)) = 0 := by
  obtain ⟨hup, -⟩ := derivative_identities K (n + 1)
  obtain ⟨-, hdown⟩ := derivative_identities K n
  have hne : 2 * ((n : K) + 1) + 1 ≠ 0 := by exact_mod_cast Nat.succ_ne_zero (2 * (n + 1))
  have hprimitive : C (2 * ((n : K) + 1) + 1) * polynomial K (n + 1) =
      (polynomial K (n + 2) - polynomial K n).derivative := by
    simp only [C_add, C_mul, C_ofNat, C_1, C_eq_natCast, derivative_sub]
    push_cast at hup
    linear_combination -hup - hdown
  refine mul_left_cancel₀ hne ?_
  rw [← integral_C_mul, hprimitive, integral_derivative]
  simp only [eval_sub, eval_polynomial_one, eval_polynomial_neg, pow_add]
  ring

theorem integral_X_pow_mul {j : Nat} (h : j < n) : integral (X ^ j * polynomial K n) = 0 := by
  -- By the recurrence one power of `X` goes over to the two neighbours of the degree `n`.
  induction j generalizing n with
  | zero =>
    obtain ⟨m, rfl⟩ := Nat.exists_eq_add_one_of_ne_zero h.ne'
    rw [pow_zero, one_mul, integral_polynomial_succ]
  | succ j ih =>
    obtain ⟨m, rfl⟩ := Nat.exists_eq_add_one_of_ne_zero (Nat.ne_zero_of_lt h)
    have hne : 2 * ((m : K) + 1) + 1 ≠ 0 := by exact_mod_cast Nat.succ_ne_zero (2 * (m + 1))
    have hrec : C (2 * ((m : K) + 1) + 1) * (X ^ (j + 1) * polynomial K (m + 1)) =
        C ((m : K) + 2) * (X ^ j * polynomial K (m + 2)) +
          C ((m : K) + 1) * (X ^ j * polynomial K m) := by
      have hstep := recurrence K (m + 1)
      rw [Nat.add_sub_cancel] at hstep
      push_cast at hstep
      simp only [C_add, C_mul, C_ofNat, C_1, C_eq_natCast]
      linear_combination -X ^ j * hstep
    refine mul_left_cancel₀ hne ?_
    rw [← integral_C_mul, hrec, map_add, integral_C_mul, integral_C_mul,
      ih (m + 2) (by omega), ih m (by omega)]
    ring

/-- **Orthogonality**. -/
theorem integral_mul_of_degree_lt {q : K[X]} (hq : q.degree < n) :
    integral (q * polynomial K n) = 0 := by
  rw [q.as_sum_support_C_mul_X_pow, Finset.sum_mul, map_sum]
  refine Finset.sum_eq_zero fun j hj => ?_
  have hlt : j < n := by
    by_contra hge
    exact mem_support_iff.1 hj ((degree_lt_iff_coeff_zero q n).1 hq j (not_lt.1 hge))
  rw [mul_assoc, integral_C_mul, integral_X_pow_mul n hlt, mul_zero]

/-! ### The sum of Christoffel and Darboux -/

/-- **Christoffel and Darboux**: the sum in closed form. -/
theorem sub_mul_kernel (y : K) :
    (X - C y) * kernel n y = (n : K[X]) * (C ((polynomial K (n - 1)).eval y) * polynomial K n -
      C ((polynomial K n).eval y) * polynomial K (n - 1)) := by
  induction n with
  | zero => simp [kernel]
  | succ n ih =>
    have hX := recurrence K n
    have hy := congrArg C (eval_recurrence K n y)
    simp only [C_mul, C_sub, C_add, C_ofNat, C_1, C_eq_natCast] at hy
    rw [kernel, Finset.sum_range_succ, mul_add, ← kernel, ih, Nat.add_sub_cancel, C_mul,
      C_eq_natCast]
    push_cast
    linear_combination polynomial K n * hy - C ((polynomial K n).eval y) * hX

omit [CharZero K] in
theorem degree_sum_C_mul_lt {ι : Type} {s : Finset ι} (c : ι → K) {S : ι → K[X]}
    (hS : ∀ i ∈ s, (S i).degree < n) : (∑ i ∈ s, C (c i) * S i).degree < n := by
  refine mem_degreeLT.1 (Submodule.sum_mem _ fun i hi => ?_)
  rw [C_mul']
  exact Submodule.smul_mem _ _ (mem_degreeLT.2 (hS i hi))

theorem degree_kernel_lt (y : K) : (kernel n y).degree < n := by
  refine degree_sum_C_mul_lt n _ fun k hk => ?_
  rw [degree_polynomial]
  exact_mod_cast Finset.mem_range.1 hk

/-- Only the constant term of the sum has an integral. -/
theorem integral_kernel (y : K) : integral (kernel (n + 1) y) = 2 := by
  have hone : integral (1 : K[X]) = 2 := by
    rw [← pow_zero X, integral_X_pow]
    norm_num
  have hrest : ∀ k ∈ Finset.range n, integral (C ((2 * (k + 1) + 1 : Nat) *
      (polynomial K (k + 1)).eval y) * polynomial K (k + 1)) = 0 := fun k _ => by
    rw [integral_C_mul, integral_polynomial_succ, mul_zero]
  rw [kernel, Finset.sum_range_succ', map_add, map_sum, Finset.sum_eq_zero hrest, integral_C_mul]
  simp [polynomial, hone]

omit [CharZero K] in
theorem eval_kernel_self_pos [LinearOrder K] [IsStrictOrderedRing K] (y : K) :
    0 < (kernel (n + 1) y).eval y := by
  rw [eval_kernel_self]
  refine Finset.sum_pos' (fun k _ => by positivity) ⟨0, Finset.mem_range.2 n.succ_pos, ?_⟩
  simp [polynomial]

/-- **Interpolation**: a polynomial of lower degree than there are points is integrated by its
values, if each point `y` has a polynomial with the integral two that vanishes at the others; the
weight is two over its value at `y`. -/
theorem sum_of_cardinals {s : Finset K} {S : K → K[X]}
    (hdegree : ∀ y ∈ s, (S y).degree < s.card) (hintegral : ∀ y ∈ s, integral (S y) = 2)
    (hself : ∀ y ∈ s, (S y).eval y ≠ 0)
    (hother : ∀ y ∈ s, ∀ z ∈ s, z ≠ y → (S y).eval z = 0) {r : K[X]} (hr : r.degree < s.card) :
    ∑ y ∈ s, 2 / (S y).eval y * r.eval y = integral r := by
  have hsum : r = ∑ y ∈ s, C (r.eval y / (S y).eval y) * S y := by
    refine eq_of_degrees_lt_of_eval_finset_eq s hr (degree_sum_C_mul_lt _ _ hdegree) fun z hz => ?_
    have hvanish : ∀ y ∈ s, y ≠ z → (C (r.eval y / (S y).eval y) * S y).eval z = 0 :=
      fun y hy hne => by rw [eval_mul, hother y hy z hz hne.symm, mul_zero]
    rw [eval_finsetSum, Finset.sum_eq_single_of_mem z hz hvanish, eval_mul, eval_C,
      div_mul_cancel₀ _ (hself z hz)]
  conv_rhs => rw [hsum, map_sum]
  refine Finset.sum_congr rfl fun y hy => ?_
  rw [integral_C_mul, hintegral y hy]
  ring

omit [CharZero K] in
/-- **Division**: if the points are the roots of a polynomial `N` with as many roots as its degree,
and `N` is orthogonal to all polynomials of degree below `d`, then weights that integrate what has a
lower degree than `N` integrate `d` degrees more. -/
theorem sum_of_orthogonal {s : Finset K} {N : K[X]} {d : Nat} {w : K → K}
    (hdegree : N.degree = s.card) (hroots : ∀ y ∈ s, N.eval y = 0)
    (horthogonal : ∀ q : K[X], q.degree < d → integral (q * N) = 0)
    (hexact : ∀ r : K[X], r.degree < s.card → ∑ y ∈ s, w y * r.eval y = integral r) {p : K[X]}
    (hp : p.degree < (s.card + d : Nat)) :
    ∑ y ∈ s, w y * p.eval y = integral p := by
  have hne : N ≠ 0 := fun h => by
    rw [h, degree_zero] at hdegree
    exact nomatch hdegree
  have hsplit := EuclideanDomain.div_add_mod p N
  have hremainder : (p % N).degree < s.card := (degree_mod_lt p hne).trans_eq hdegree
  have hquotient : (p / N).degree < d := by
    rcases lt_or_ge p.degree N.degree with hlt | hge
    · rw [(Polynomial.div_eq_zero_iff hne).2 hlt, degree_zero]
      exact WithBot.bot_lt_coe _
    · rw [← degree_add_div hne hge, hdegree, Nat.cast_add] at hp
      exact lt_of_add_lt_add_left hp
  have hvalue : ∀ y ∈ s, p.eval y = (p % N).eval y := fun y hy => by
    conv_lhs => rw [← hsplit, eval_add, eval_mul, hroots y hy, zero_mul, zero_add]
  have hintegral : integral p = integral (p % N) := by
    conv_lhs => rw [← hsplit, map_add, mul_comm, horthogonal _ hquotient, zero_add]
  rw [hintegral, ← hexact _ hremainder]
  exact Finset.sum_congr rfl fun y hy => by rw [hvalue y hy]

end Legendre

end TensorDiffusion
