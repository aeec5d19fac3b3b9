import TensorDiffusion.Proofs.Exact
import TensorDiffusion.Proofs.IteratedSums
import TensorDiffusion.Proofs.LegendrePolynomials
import TensorDiffusion.Proofs.Rules

/-!
# Gauss rules are exact

A Gauss rule over an ordered field is exact for all polynomials of degree up to `2n - 1`, whenever
the search has found roots of the Legendre polynomial and these are distinct
(`Rule.requestGauss_exact`).

* `Legendre.eval_kernel_of_root`: at a root, the sum of Christoffel and Darboux is what the weight
  is two over; it vanishes at the other roots.
* `Legendre.sum_roots`: the exact formula for `n` distinct roots.
* `Rule.integrate_mirrored_polynomial`: the rule as it is made, with half of the roots mirrored, is
  this sum.
-/

namespace TensorDiffusion

open Polynomial

namespace Legendre

variable {K : Type} [Field K] {n : Nat} {x : K}

section

variable [CharZero K] (hx : (polynomial K n).eval x = 0)

include hx

/-- No root is at an end. -/
theorem sq_ne_one_of_root : x ^ 2 ≠ 1 := by
  intro h
  rcases sq_eq_one_iff.1 h with rfl | rfl
  · rw [eval_polynomial_one] at hx
    exact one_ne_zero hx
  · rw [eval_polynomial_neg, eval_polynomial_one, mul_one] at hx
    exact pow_ne_zero n (neg_ne_zero.2 one_ne_zero) hx

theorem eval_neg_of_root : (polynomial K n).eval (-x) = 0 := by
  rw [eval_polynomial_neg, hx, mul_zero]

/-- At a root the sum of Christoffel and Darboux is what the weight is two over. -/
theorem eval_kernel_of_root :
    (kernel n x).eval x = (1 - x * x) * (evaluate n x).derivative * (evaluate n x).derivative := by
  have hsum := congrArg (fun p => p.derivative.eval x) (sub_mul_kernel n x)
  have hformula := congrArg (eval x) (sq_sub_one_mul_derivative K n)
  simp only [derivative_mul, derivative_sub, derivative_X, derivative_C, derivative_natCast, hx,
    eval_add, eval_sub, eval_mul, eval_pow, eval_X, eval_C, eval_natCast, eval_zero, eval_one]
    at hsum hformula
  rw [derivative_evaluate n x (sq_ne_one_of_root hx)]
  linear_combination hsum + (polynomial K n).derivative.eval x * hformula

theorem eval_kernel_of_other_root {z : K} (hz : (polynomial K n).eval z = 0) (hne : z ≠ x) :
    (kernel n x).eval z = 0 := by
  have hsum := congrArg (eval z) (sub_mul_kernel n x)
  simp only [eval_mul, eval_sub, eval_X, eval_C, hx, hz, mul_zero, zero_mul, sub_zero] at hsum
  exact (mul_eq_zero.1 hsum).resolve_left (sub_ne_zero.2 hne)

end

variable [LinearOrder K] [IsStrictOrderedRing K]

/-- **The Gauss formula**: `n` distinct roots integrate all polynomials of degree below `2n`. -/
theorem sum_roots {s : Finset K} (hcard : s.card = n)
    (hroots : ∀ y ∈ s, (polynomial K n).eval y = 0) (hn : n ≠ 0) {p : K[X]}
    (hp : p.degree < (n + n : Nat)) :
    ∑ y ∈ s, 2 / (kernel n y).eval y * p.eval y = integral p := by
  obtain ⟨m, rfl⟩ := Nat.exists_eq_add_one_of_ne_zero hn
  refine sum_of_orthogonal (N := polynomial K (m + 1)) (d := m + 1) ?_ hroots
    (fun q hq => integral_mul_of_degree_lt _ hq) (fun r hr => ?_) (hcard.symm ▸ hp)
  · rw [degree_polynomial, hcard]
  · exact sum_of_cardinals (fun y _ => hcard ▸ degree_kernel_lt _ y)
      (fun y _ => integral_kernel m y) (fun y _ => (eval_kernel_self_pos m y).ne')
      (fun y hy z hz => eval_kernel_of_other_root (hroots y hy) (hroots z hz)) hr

end Legendre

namespace Rule

variable {K : Type} [Field K] {n : Nat} {x : K}

/-- A rule on different points, each with the weight that it determines. -/
theorem integrate_weighted [DecidableEq K] {w : K → K} {points : List K} (hdistinct : points.Nodup)
    (f : Vector K 1 → K) :
    (⟨points.map w, points.map fun x => #v[x]⟩ : Rule K 1).integrate f =
      ∑ x ∈ points.toFinset, w x * f #v[x] := by
  rw [integrate_eq_sum, pairs, List.zip_map', List.map_map, List.sum_toFinset _ hdistinct]
  rfl

theorem gaussWeight_of_root [CharZero K] (hx : (Legendre.polynomial K n).eval x = 0) :
    gaussWeight n x = 2 / (Legendre.kernel n x).eval x := by
  rw [gaussWeight, Legendre.eval_kernel_of_root hx, Nat.cast_ofNat]

/-- Mirrored roots have one weight. -/
theorem gaussWeight_neg_of_root [CharZero K] (hx : (Legendre.polynomial K n).eval x = 0) :
    gaussWeight n (-x) = gaussWeight n x := by
  rw [gaussWeight_of_root hx, gaussWeight_of_root (Legendre.eval_neg_of_root hx),
    Legendre.eval_kernel_self, Legendre.eval_kernel_self]
  refine congrArg (2 / ·) (Finset.sum_congr rfl fun k _ => ?_)
  rw [Legendre.eval_polynomial_neg, mul_pow, ← pow_mul, mul_comm k 2, pow_mul, neg_one_sq, one_pow,
    one_mul]

/-- The roots that are searched for, the largest first. -/
def gaussRoots (search : RootSearch K) (n : Nat) : List K :=
  (List.range ((n + 1) / 2)).map (gaussRoot search n)

/-- The points of the Gauss rule, as numbers. -/
def gaussPoints (search : RootSearch K) (n : Nat) : List K :=
  let roots := gaussRoots search n
  (roots ++ (roots.take (n - (n + 1) / 2)).reverse.map fun x => -x).reverse

theorem points_mirrored [Stored K] (search : RootSearch K) (n : Nat) :
    (mirrored search n).points = (gaussPoints search n).map fun x => #v[x] := rfl

theorem length_gaussPoints (search : RootSearch K) (n : Nat) :
    (gaussPoints search n).length = n :=
  length_reflect (by rw [gaussRoots, List.length_map, List.length_range])

section

variable [CharZero K] {search : RootSearch K}
  (hroots : ∀ i < (n + 1) / 2, (Legendre.polynomial K n).eval (gaussRoot search n i) = 0)

include hroots

omit [CharZero K] in
theorem root_of_mem_gaussRoots (hx : x ∈ gaussRoots search n) :
    (Legendre.polynomial K n).eval x = 0 := by
  obtain ⟨i, hi, rfl⟩ := List.mem_map.1 hx
  exact hroots i (List.mem_range.1 hi)

theorem root_of_mem_gaussPoints (hx : x ∈ gaussPoints search n) :
    (Legendre.polynomial K n).eval x = 0 := by
  rcases List.mem_append.1 (List.mem_reverse.1 hx) with hx | hx
  · exact root_of_mem_gaussRoots hroots hx
  · obtain ⟨y, hy, rfl⟩ := List.mem_map.1 hx
    have hy := List.mem_of_mem_take (List.mem_reverse.1 hy)
    exact Legendre.eval_neg_of_root (root_of_mem_gaussRoots hroots hy)

/-- Every point has the weight of its own, the mirrored ones too. -/
theorem weights_mirrored [Stored K] :
    (mirrored search n).weights = (gaussPoints search n).map (gaussWeight n) := by
  have hmirrored : ((gaussRoots search n).take (n - (n + 1) / 2)).reverse.map
      (gaussWeight n ∘ fun x => -x) =
        ((gaussRoots search n).take (n - (n + 1) / 2)).reverse.map (gaussWeight n) :=
    List.map_congr_left fun y hy => gaussWeight_neg_of_root
      (root_of_mem_gaussRoots hroots (List.mem_of_mem_take (List.mem_reverse.1 hy)))
  rw [gaussPoints, List.map_reverse, List.map_append, List.map_map, hmirrored, List.map_reverse,
    List.map_take]
  rfl

variable [LinearOrder K] [IsStrictOrderedRing K] [Stored K]

omit [CharZero K] in
theorem weights_mirrored_pos (hn : n ≠ 0) {w : K} (hw : w ∈ (mirrored search n).weights) :
    0 < w := by
  obtain ⟨m, rfl⟩ := Nat.exists_eq_add_one_of_ne_zero hn
  rw [weights_mirrored hroots] at hw
  obtain ⟨y, hy, rfl⟩ := List.mem_map.1 hw
  rw [gaussWeight_of_root (root_of_mem_gaussPoints hroots hy)]
  exact div_pos two_pos (Legendre.eval_kernel_self_pos m y)

omit [CharZero K] in
/-- **A Gauss rule** integrates all polynomials of degree below `2n`. -/
theorem integrate_mirrored_polynomial (hn : n ≠ 0) (hdistinct : (mirrored search n).points.Nodup)
    {p : K[X]} (hp : p.degree < (n + n : Nat)) :
    (mirrored search n).integrate (fun v => p.eval (v.get 0)) = Legendre.integral p := by
  have hroot : ∀ y ∈ (gaussPoints search n).toFinset, (Legendre.polynomial K n).eval y = 0 :=
    fun y hy => root_of_mem_gaussPoints hroots (List.mem_toFinset.1 hy)
  have hnodup : (gaussPoints search n).Nodup := List.Nodup.of_map _ hdistinct
  have hcard : (gaussPoints search n).toFinset.card = n := by
    rw [List.toFinset_card_of_nodup hnodup, length_gaussPoints]
  have hrule : mirrored search n =
      ⟨(gaussPoints search n).map (gaussWeight n), (gaussPoints search n).map fun x => #v[x]⟩ := by
    rw [← weights_mirrored hroots, ← points_mirrored]
  rw [hrule, integrate_weighted hnodup, ← Legendre.sum_roots hcard hroot hn hp]
  refine Finset.sum_congr rfl fun y hy => ?_
  rw [gaussWeight_of_root (hroot y hy)]
  rfl

end

/-- **Gauss rules are exact.**  Over an ordered field, with any first guesses and any way to stop: a
rule without points is refused, and a rule with `n` points is made exactly where there is room for
it.  If what each search ends in is a root of the Legendre polynomial and the points are distinct,
then there are `n` points and weights, all weights are positive, and the rule gives the integral
`(1 + (-1) ^ k) / (k + 1)` for all powers up to `2n - 1`. -/
theorem requestGauss_exact [LinearOrder K] [IsStrictOrderedRing K] [Stored K]
    (search : RootSearch K) :
    requestGauss search 0 = .error (.refused .noRule) ∧ ∀ n, 1 ≤ n →
      ((∃ rule, requestGauss search n = .ok rule) ↔ Stored.bytes K * n < Size.bufferBound) ∧
      ∀ rule, requestGauss search n = .ok rule →
        (∀ i < (n + 1) / 2, (Legendre.polynomial K n).eval (gaussRoot search n i) = 0) →
        rule.points.Nodup →
        rule.weights.length = n ∧ rule.points.length = n ∧ (∀ w ∈ rule.weights, 0 < w) ∧
        ∀ k ≤ 2 * n - 1,
          rule.integrate (fun p => p.get 0 ^ k) = (1 + (-1) ^ k) / ((k : K) + 1) := by
  refine ⟨rfl, fun n hn => ⟨⟨?_, fun hroom => ?_⟩, fun rule hrule hroots hdistinct => ?_⟩⟩
  · rintro ⟨rule, hrule⟩
    exact (requestGauss_eq_ok.1 hrule).2.1
  · exact ⟨_, requestGauss_eq_ok.2 ⟨Nat.ne_of_gt hn, hroom, rfl⟩⟩
  · obtain ⟨hne, -, rfl⟩ := requestGauss_eq_ok.1 hrule
    refine ⟨?_, ?_, fun w => weights_mirrored_pos hroots hne, fun k hk => ?_⟩
    · rw [weights_mirrored hroots, List.length_map, length_gaussPoints]
    · rw [points_mirrored, List.length_map, length_gaussPoints]
    · have hdegree : (X ^ k : K[X]).degree < (n + n : Nat) := by
        rw [degree_X_pow]
        exact_mod_cast (by omega : k < n + n)
      rw [← Legendre.integral_X_pow, ← integrate_mirrored_polynomial hroots hne hdistinct hdegree]
      simp only [eval_pow, eval_X]

/-- A search that has nothing to correct stays where it starts. -/
theorem newton_of_correction_eq_zero {isSmall : K → Bool} {correction : K → K}
    (h : correction x = 0) (fuel : Nat) : newton isSmall correction fuel x = x := by
  induction fuel with
  | zero => rfl
  | succ fuel ih => simpa [newton, h] using fun _ => ih

/-- A search that starts at a root stays there. -/
theorem gaussRoot_of_root [CharZero K] {search : RootSearch K} {i : Nat}
    (h : (Legendre.polynomial K n).eval (gaussGuess search n i) = 0) :
    gaussRoot search n i = gaussGuess search n i := by
  refine newton_of_correction_eq_zero ?_ search.maxSteps
  dsimp only
  rw [(Legendre.registers_evaluate n _).1, h, neg_zero, zero_div]

/-- First guesses at the roots of the Legendre polynomial of degree three, by a function in the
place of the cosine. -/
noncomputable def threeRoots : RootSearch ℝ where
  pi := 1
  cos t := if (3 : Nat) * t < 1 then √((3 : Nat) / (5 : Nat)) else 0
  isSmall dx := decide (|dx| ≤ 1e-15)

theorem gaussGuess_threeRoots :
    gaussGuess threeRoots 3 0 = √(3 / 5) ∧ gaussGuess threeRoots 3 1 = 0 := by
  norm_num [gaussGuess, threeRoots, half]

theorem root_gaussGuess_threeRoots {i : Nat} (hi : i < 2) :
    (Legendre.polynomial ℝ 3).eval (gaussGuess threeRoots 3 i) = 0 := by
  have hvalue (x : ℝ) : (Legendre.polynomial ℝ 3).eval x = x * (5 * x ^ 2 - 3) / 2 := by
    simp [Legendre.polynomial]
    ring
  obtain rfl | rfl : i = 0 ∨ i = 1 := by omega
  · rw [hvalue, gaussGuess_threeRoots.1, Real.sq_sqrt (by norm_num)]
    ring
  · rw [hvalue, gaussGuess_threeRoots.2]
    ring

/-- Three points integrate the fourth power. -/
theorem requestGauss_exact_three_points :
    requestGauss threeRoots 0 = .error (.refused .noRule) ∧
      ∃ rule, requestGauss threeRoots 3 = .ok rule ∧ rule.weights.length = 3 ∧
        (∀ w ∈ rule.weights, 0 < w) ∧ rule.integrate (fun p => p.get 0 ^ 4) = 2 / 5 := by
  obtain ⟨hnone, hrules⟩ := requestGauss_exact threeRoots
  obtain ⟨hmade, hexact⟩ := hrules 3 (by decide)
  obtain ⟨rule, hrule⟩ := hmade.2 (by decide)
  have hroot : ∀ i < 2, gaussRoot threeRoots 3 i = gaussGuess threeRoots 3 i := fun i hi =>
    gaussRoot_of_root (root_gaussGuess_threeRoots hi)
  have hdistinct : rule.points.Nodup := by
    obtain ⟨-, -, rfl⟩ := requestGauss_eq_ok.1 hrule
    have hpos : 0 < √(3 / 5 : ℝ) := Real.sqrt_pos.2 (by norm_num)
    have hpoints : gaussPoints threeRoots 3 = [-√(3 / 5), 0, √(3 / 5)] := by
      simp [gaussPoints, gaussRoots, List.range_succ, hroot, gaussGuess_threeRoots]
    rw [points_mirrored, hpoints]
    generalize √(3 / 5 : ℝ) = r at hpos
    simp [hpos.ne, hpos.ne', (neg_lt_self hpos).ne]
  obtain ⟨hweights, -, hpositive, hpowers⟩ := hexact rule hrule
    (fun i hi => (hroot i hi).symm ▸ root_gaussGuess_threeRoots hi) hdistinct
  refine ⟨hnone, rule, hrule, hweights, hpositive, ?_⟩
  rw [hpowers 4 (by decide)]
  norm_num

end Rule

end TensorDiffusion
