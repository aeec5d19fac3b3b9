import TensorDiffusion.Proofs.LobattoRules

/-!
# The recurrence computes the Legendre polynomials

Away from the ends the recurrence gives the value of a Legendre polynomial and of its first two
derivatives, over every field of characteristic zero, and leaves the polynomial one degree below in
its second register (`Legendre.evaluate_computes`).  The polynomials are those of any sequence with
the usual first two members and three terms; there is only one.

* `Legendre.Sequence`: what determines the Legendre polynomials.
* `Legendre.differential_equation`: the equation behind the formula for the second derivative.
-/

namespace TensorDiffusion

open Polynomial

namespace Legendre

variable {K : Type} [Field K] {P : Nat → K[X]} {x : K}

/-- The sequences that start with `1` and `X` and go on by the three-term recurrence. -/
structure Sequence (P : Nat → K[X]) : Prop where
  zero : P 0 = 1
  one : P 1 = X
  succ (m : Nat) (h : 1 ≤ m) : ((m : K[X]) + 1) * P (m + 1) =
    (2 * (m : K[X]) + 1) * X * P m - (m : K[X]) * P (m - 1)

variable [CharZero K]

theorem sequence_polynomial : Sequence (polynomial K) where
  zero := by rw [polynomial]
  one := by rw [polynomial]
  succ m _ := recurrence K m

/-- There is only one such sequence. -/
theorem Sequence.eq_polynomial (hP : Sequence P) (n : Nat) : P n = polynomial K n := by
  induction n using Nat.twoStepInduction with
  | zero => rw [hP.zero, polynomial]
  | one => rw [hP.one, polynomial]
  | more n ih ih' =>
    have hne : ((n + 1 : Nat) : K[X]) + 1 ≠ 0 := Nat.cast_add_one_ne_zero (n + 1)
    refine mul_left_cancel₀ hne ?_
    rw [hP.succ (n + 1) n.succ_pos, recurrence, Nat.add_sub_cancel, ih, ih']

/-- The second register holds the polynomial one degree below, if there is one. -/
theorem below_evaluate {n : Nat} (hn : 1 ≤ n) (x : K) :
    (evaluate n x).below = (polynomial K (n - 1)).eval x :=
  mul_left_cancel₀ (Nat.cast_ne_zero.2 (Nat.one_le_iff_ne_zero.1 hn)) (registers_evaluate n x).2

variable (K) in
/-- **Legendre's equation**. -/
theorem differential_equation (n : Nat) :
    (1 - X ^ 2) * (polynomial K n).derivative.derivative =
      2 * X * (polynomial K n).derivative - (n : K[X]) * ((n : K[X]) + 1) * polynomial K n := by
  cases n with
  | zero => simp [polynomial]
  | succ n =>
    -- The equation for the first derivative, differentiated once more.
    have hderiv := congrArg Polynomial.derivative (mul_withEnds K n)
    simp only [derivative_mul, derivative_natCast, derivative_withEnds, derivative_sub,
      derivative_X_pow, derivative_one, C_eq_natCast, zero_mul, zero_add, sub_zero] at hderiv
    push_cast at hderiv ⊢
    linear_combination hderiv

/-- **The second derivative** is computed away from the ends. -/
theorem secondDerivative_evaluate (n : Nat) (hx : x ^ 2 ≠ 1) :
    (evaluate n x).secondDerivative = (polynomial K n).derivative.derivative.eval x := by
  have hne : 1 - x * x ≠ 0 := fun h => hx (by linear_combination -h)
  have hequation := congrArg (eval x) (differential_equation K n)
  simp only [eval_mul, eval_sub, eval_add, eval_pow, eval_X, eval_one, eval_natCast, eval_ofNat]
    at hequation
  change (((2 : Nat) : K) * x * (evaluate n x).derivative -
    (n : K) * ((n : K) + 1) * (evaluate n x).value) / (1 - x * x) = _
  rw [div_eq_iff hne, derivative_evaluate n x hx, (registers_evaluate n x).1]
  push_cast
  linear_combination -hequation

/-- **The recurrence computes the Legendre polynomials.**  For every degree and every point the two
registers hold the polynomial and, if there is one, the polynomial one degree below; at a point that
is no end of the interval the closed forms are the first two derivatives. -/
theorem evaluate_computes (hP : Sequence P) (n : Nat) (x : K) :
    (evaluate n x).value = (P n).eval x ∧
    (1 ≤ n → (evaluate n x).below = (P (n - 1)).eval x) ∧
    (x ^ 2 ≠ 1 → (evaluate n x).derivative = (P n).derivative.eval x ∧
      (evaluate n x).secondDerivative = (P n).derivative.derivative.eval x) := by
  rw [hP.eq_polynomial n, hP.eq_polynomial (n - 1)]
  exact ⟨(registers_evaluate n x).1, fun hn => below_evaluate hn x,
    fun hx => ⟨derivative_evaluate n x hx, secondDerivative_evaluate n hx⟩⟩

/-- The polynomial of degree three, its two derivatives and the polynomial of degree two, in the
middle of the upper half. -/
theorem evaluate_computes_cubic :
    Sequence (polynomial ℚ) ∧ (1 / 2 : ℚ) ^ 2 ≠ 1 ∧
      (polynomial ℚ 3).eval (1 / 2) = -7 / 16 ∧ (polynomial ℚ 2).eval (1 / 2) = -1 / 8 ∧
      (polynomial ℚ 3).derivative.eval (1 / 2) = 3 / 8 ∧
      (polynomial ℚ 3).derivative.derivative.eval (1 / 2) = 15 / 2 := by
  have hend : (1 / 2 : ℚ) ^ 2 ≠ 1 := by norm_num
  obtain ⟨hvalue, hbelow, hinside⟩ := evaluate_computes (sequence_polynomial (K := ℚ)) 3 (1 / 2)
  obtain ⟨hfirst, hsecond⟩ := hinside hend
  refine ⟨sequence_polynomial, hend, hvalue.symm.trans ?_, (hbelow (by decide)).symm.trans ?_,
    hfirst.symm.trans ?_, hsecond.symm.trans ?_⟩
  all_goals norm_num [evaluate, derivative, secondDerivative, List.range', step]

end Legendre

end TensorDiffusion
