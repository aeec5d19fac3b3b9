import TensorDiffusion.Proofs.GaussRules

/-!
# Gauss-Lobatto rules are exact

A Gauss-Lobatto rule over an ordered field is exact for all polynomials of degree up to `2n - 3`,
whenever the search has found roots of the derivative of the Legendre polynomial and these are
distinct (`Rule.requestLobatto_exact`).

* `Legendre.withEnds`: the polynomial whose roots are the ends and the roots of the derivative.
* `Legendre.integral_mul_withEnds`: it is orthogonal to the quotients that the rule has to lose.
* `Legendre.endKernel`: at a root, what the weight is two over; it vanishes at the other roots.
* `Legendre.sum_roots_withEnds`: the exact formula for the roots.
-/

namespace TensorDiffusion

open Polynomial

namespace Legendre

section

variable (K : Type) [Field K] (n : Nat)

/-- The polynomial whose roots are the ends and the roots of `P_{n+1}'`: up to a factor it is
`(X ^ 2 - 1) P_{n+1}'`. -/
noncomputable def withEnds : K[X] :=
  X * polynomial K (n + 1) - polynomial K n

variable [CharZero K]

theorem mul_withEnds :
    ((n + 1 : Nat) : K[X]) * withEnds K n = (X ^ 2 - 1) * (polynomial K (n + 1)).derivative := by
  rw [sq_sub_one_mul_derivative, Nat.add_sub_cancel, withEnds]

/-- The derivative is a Legendre polynomial: this is their differential equation. -/
theorem derivative_withEnds :
    (withEnds K n).derivative = ((n + 2 : Nat) : K[X]) * polynomial K (n + 1) := by
  obtain ⟨-, hdown⟩ := derivative_identities K n
  rw [withEnds, derivative_sub, derivative_mul, derivative_X]
  push_cast
  linear_combination hdown

theorem degree_withEnds : (withEnds K n).degree = ((n + 2 : Nat) : WithBot Nat) := by
  have hhigh : (X * polynomial K (n + 1)).degree = ((n + 2 : Nat) : WithBot Nat) := by
    rw [degree_mul, degree_X, degree_polynomial, ← Nat.cast_one, ← Nat.cast_add, Nat.add_comm]
  have hlow : (polynomial K n).degree < (X * polynomial K (n + 1)).degree := by
    rw [hhigh, degree_polynomial]
    exact_mod_cast (by omega : n < n + 2)
  rw [withEnds, degree_sub_eq_left_of_degree_lt hlow, hhigh]

end

variable {K : Type} [Field K] {n : Nat} {x : K}

theorem eval_withEnds_one [CharZero K] : (withEnds K n).eval 1 = 0 := by
  simp [withEnds, eval_polynomial_one]

theorem eval_withEnds_neg_one [CharZero K] : (withEnds K n).eval (-1) = 0 := by
  rw [withEnds, eval_sub, eval_mul, eval_X, eval_polynomial_neg, eval_polynomial_neg,
    eval_polynomial_one, eval_polynomial_one]
  ring

section

variable [CharZero K] (hx : (polynomial K (n + 1)).derivative.eval x = 0)

include hx

theorem eval_withEnds_of_root : (withEnds K n).eval x = 0 := by
  have hscaled := congrArg (eval x) (mul_withEnds K n)
  rw [eval_mul, eval_mul, hx, mul_zero, eval_natCast] at hscaled
  exact (mul_eq_zero.1 hscaled).resolve_left (Nat.cast_ne_zero.2 n.succ_ne_zero)

/-- No root of the derivative is at an end. -/
theorem sq_ne_one_of_derivative_root : x ^ 2 ≠ 1 := by
  intro h
  -- A root of both factors of `(X ^ 2 - 1) P'` is one of its derivative, a multiple of `P`.
  have hscaled := congrArg (fun p => p.derivative.eval x) (mul_withEnds K n)
  simp only [derivative_mul, derivative_natCast, derivative_withEnds, derivative_sub,
    derivative_X_pow, derivative_one, eval_add, eval_mul, eval_sub, eval_pow, eval_X, eval_one,
    eval_natCast, zero_mul, zero_add, hx, h, sub_self, mul_zero, add_zero] at hscaled
  have hvalue : (polynomial K (n + 1)).eval x = 0 :=
    (mul_eq_zero.1 ((mul_eq_zero.1 hscaled).resolve_left
      (Nat.cast_ne_zero.2 n.succ_ne_zero))).resolve_left (Nat.cast_ne_zero.2 (n + 1).succ_ne_zero)
  exact sq_ne_one_of_root hvalue h

end

/-! ### Orthogonality -/

/-- **Orthogonality**, one degree less on either side than for the Legendre polynomial itself. -/
theorem integral_mul_withEnds [CharZero K] {q : K[X]} (hq : q.degree < n) :
    integral (q * withEnds K n) = 0 := by
  have hshift : (q * X).degree < ((n + 1 : Nat) : WithBot Nat) := by
    rcases eq_or_ne q 0 with rfl | hne
    · rw [zero_mul, degree_zero]
      exact WithBot.bot_lt_coe _
    · rw [degree_eq_natDegree hne] at hq
      have hlt : q.natDegree + 1 < n + 1 := Nat.succ_lt_succ (by exact_mod_cast hq)
      rw [degree_mul, degree_X, degree_eq_natDegree hne]
      exact_mod_cast hlt
  rw [withEnds, mul_sub, ← mul_assoc, map_sub, integral_mul_of_degree_lt _ hshift,
    integral_mul_of_degree_lt _ hq, sub_zero]

/-! ### Cardinal polynomials -/

/-- The sum of Christoffel and Darboux with a share of the next term. -/
noncomputable def endKernel (n : Nat) (y : K) : K[X] :=
  kernel (n + 1) y + C ((n + 1 : Nat) * (polynomial K (n + 1)).eval y) * polynomial K (n + 1)

section

variable [CharZero K]

/-- The sum in closed form. -/
theorem sub_mul_endKernel (y : K) :
    (X - C y) * endKernel n y = ((n + 1 : Nat) : K[X]) *
      (C ((polynomial K (n + 1)).eval y) * withEnds K n -
        C ((withEnds K n).eval y) * polynomial K (n + 1)) := by
  have hsum := sub_mul_kernel (n + 1) y
  rw [Nat.add_sub_cancel] at hsum
  rw [endKernel, withEnds, eval_sub, eval_mul, eval_X, C_mul, C_sub, C_mul, C_eq_natCast]
  linear_combination hsum

theorem degree_endKernel_lt (y : K) : (endKernel n y).degree < (n + 2 : Nat) := by
  have hkernel := degree_kernel_lt (n + 1) y
  have hlast : (C (((n + 1 : Nat) : K) * (polynomial K (n + 1)).eval y) *
      polynomial K (n + 1)).degree < (n + 2 : Nat) := by
    rw [C_mul']
    refine (degree_smul_le _ _).trans_lt ?_
    rw [degree_polynomial]
    exact_mod_cast Nat.lt_succ_self (n + 1)
  exact (degree_add_le _ _).trans_lt
    (max_lt (hkernel.trans (by exact_mod_cast Nat.lt_succ_self (n + 1))) hlast)

theorem integral_endKernel (y : K) : integral (endKernel n y) = 2 := by
  rw [endKernel, map_add, integral_kernel, integral_C_mul, integral_polynomial_succ, mul_zero,
    add_zero]

theorem eval_endKernel_of_other_root {y z : K} (hy : (withEnds K n).eval y = 0)
    (hz : (withEnds K n).eval z = 0) (hne : z ≠ y) : (endKernel n y).eval z = 0 := by
  have hsum := congrArg (eval z) (sub_mul_endKernel (n := n) y)
  simp only [eval_mul, eval_sub, eval_X, eval_C, hy, hz, mul_zero, zero_mul, sub_zero] at hsum
  exact (mul_eq_zero.1 hsum).resolve_left (sub_ne_zero.2 hne)

/-- At a root the sum is what the weight is two over. -/
theorem eval_endKernel_of_root {y : K} (hy : (withEnds K n).eval y = 0) :
    (endKernel n y).eval y =
      ((n + 1 : Nat) : K) * ((n + 2 : Nat) : K) * (polynomial K (n + 1)).eval y ^ 2 := by
  have hsum := congrArg (fun p => p.derivative.eval y) (sub_mul_endKernel (n := n) y)
  simp only [derivative_mul, derivative_sub, derivative_X, derivative_C, derivative_natCast,
    derivative_withEnds, hy, eval_add, eval_mul, eval_sub, eval_X, eval_C, eval_natCast, eval_zero,
    eval_one] at hsum
  linear_combination hsum

end

section

variable [LinearOrder K] [IsStrictOrderedRing K]

theorem eval_endKernel_self_pos (y : K) : 0 < (endKernel n y).eval y := by
  have hkernel := eval_kernel_self_pos n y
  have hlast : 0 ≤ ((n + 1 : Nat) : K) * (polynomial K (n + 1)).eval y *
      (polynomial K (n + 1)).eval y := by
    rw [mul_assoc]
    exact mul_nonneg (Nat.cast_nonneg _) (mul_self_nonneg _)
  rw [endKernel, eval_add, eval_mul, eval_C]
  exact add_pos_of_pos_of_nonneg hkernel hlast

/-- **The Gauss-Lobatto formula**: the ends and `n` distinct roots between them integrate all
polynomials of degree below `2n + 2`. -/
theorem sum_roots_withEnds {s : Finset K} (hcard : s.card = n + 2)
    (hroots : ∀ y ∈ s, (withEnds K n).eval y = 0) {p : K[X]} (hp : p.degree < (n + 2 + n : Nat)) :
    ∑ y ∈ s, 2 / (endKernel n y).eval y * p.eval y = integral p := by
  refine sum_of_orthogonal (N := withEnds K n) (d := n) ?_ hroots
    (fun q hq => integral_mul_withEnds hq) (fun r hr => ?_) (hcard.symm ▸ hp)
  · rw [degree_withEnds, hcard]
  · exact sum_of_cardinals (fun y _ => hcard ▸ degree_endKernel_lt y)
      (fun y _ => integral_endKernel y) (fun y _ => (eval_endKernel_self_pos y).ne')
      (fun y hy z hz => eval_endKernel_of_other_root (hroots y hy) (hroots z hz)) hr

end

end Legendre

namespace Rule

variable {K : Type} [Field K] {n : Nat} {x : K} {search : RootSearch K}

/-- The weight of the point `x` of the Gauss-Lobatto rule on a Legendre polynomial of the given
degree, at an end and inside. -/
def lobattoWeight (degree : Nat) (x : K) : K :=
  ((2 : Nat) : K) / ((degree : K) * ((degree : K) + 1)) /
    ((Legendre.evaluate degree x).value * (Legendre.evaluate degree x).value)

/-- The points of the Gauss-Lobatto rule with `n + 2` points, as numbers. -/
def lobattoPoints (search : RootSearch K) (n : Nat) : List K :=
  -1 :: (List.range' 1 n).map (lobattoRoot search (n + 1)) ++ [1]

theorem length_lobattoPoints (search : RootSearch K) (n : Nat) :
    (lobattoPoints search n).length = n + 2 := by
  simp [lobattoPoints]

section

variable [CharZero K]

theorem lobattoWeight_of_root (hx : (Legendre.withEnds K n).eval x = 0) :
    lobattoWeight (n + 1) x = 2 / (Legendre.endKernel n x).eval x := by
  rw [lobattoWeight, Legendre.eval_endKernel_of_root hx, (Legendre.registers_evaluate _ x).1,
    div_div, Nat.cast_ofNat]
  push_cast
  ring_nf

/-- At the ends the Legendre polynomials are one up to the sign. -/
theorem lobattoWeight_of_sq_eq_one (degree : Nat) (hx : x = 1 ∨ x = -1) :
    lobattoWeight degree x = ((2 : Nat) : K) / ((degree : K) * ((degree : K) + 1)) := by
  have hsquare : (Legendre.polynomial K degree).eval x * (Legendre.polynomial K degree).eval x = 1 := by
    rcases hx with rfl | rfl
    · rw [Legendre.eval_polynomial_one, mul_one]
    · rw [Legendre.eval_polynomial_neg, Legendre.eval_polynomial_one, mul_one, ← mul_pow,
        neg_one_mul, neg_neg, one_pow]
  rw [lobattoWeight, (Legendre.registers_evaluate _ x).1, hsquare, div_one]

variable [Stored K]

/-- A Gauss-Lobatto rule is made where there is room for it, and every point has the weight of its
own. -/
theorem requestLobatto_eq_ok {rule : Rule K 1} :
    requestLobatto search (n + 2) = .ok rule ↔
      Stored.bytes K * (n + 2) < Size.bufferBound ∧
        rule = ⟨(lobattoPoints search n).map (lobattoWeight (n + 1)),
          (lobattoPoints search n).map fun x => #v[x]⟩ := by
  have htwo : insist (2 ≤ n + 2) .noRule = .ok () := insist_eq_ok.2 (Nat.le_add_left 2 n)
  have hweights : (lobattoPoints search n).map (lobattoWeight (n + 1)) =
      ((2 : Nat) : K) / (((n + 1 : Nat) : K) * (((n + 1 : Nat) : K) + 1)) ::
        ((List.range' 1 n).map (lobattoRoot search (n + 1))).map (lobattoWeight (n + 1)) ++
          [((2 : Nat) : K) / (((n + 1 : Nat) : K) * (((n + 1 : Nat) : K) + 1))] := by
    rw [lobattoPoints, List.cons_append, List.map_cons, List.map_append, List.map_singleton,
      lobattoWeight_of_sq_eq_one _ (.inl rfl), lobattoWeight_of_sq_eq_one _ (.inr rfl)]
    rfl
  rw [requestLobatto, htwo, hweights]
  exact checked_eq_ok.trans (and_congr Size.reserve_eq_ok Iff.rfl)

end

section

variable [CharZero K]
  (hroots : ∀ i ∈ Set.Ioo 0 (n + 1),
    (Legendre.polynomial K (n + 1)).derivative.eval (lobattoRoot search (n + 1) i) = 0)

include hroots

theorem root_of_mem_lobattoPoints (hx : x ∈ lobattoPoints search n) :
    (Legendre.withEnds K n).eval x = 0 := by
  rcases List.mem_cons.1 hx with rfl | hx
  · exact Legendre.eval_withEnds_neg_one
  · rcases List.mem_append.1 hx with hx | hx
    · obtain ⟨i, hi, rfl⟩ := List.mem_map.1 hx
      obtain ⟨hpos, hlt⟩ := List.mem_range'_1.1 hi
      exact Legendre.eval_withEnds_of_root (hroots i ⟨hpos, by omega⟩)
    · obtain rfl := List.mem_singleton.1 hx
      exact Legendre.eval_withEnds_one

/-- Different roots are different points: none is at an end. -/
theorem nodup_lobattoPoints (hdistinct : Set.InjOn (lobattoRoot search (n + 1)) (Set.Ioo 0 (n + 1))) :
    (lobattoPoints search n).Nodup := by
  have hmem : ∀ i ∈ List.range' 1 n, i ∈ Set.Ioo 0 (n + 1) := fun i hi => by
    obtain ⟨hpos, hlt⟩ := List.mem_range'_1.1 hi
    exact ⟨hpos, by omega⟩
  have hinside : ∀ x ∈ (List.range' 1 n).map (lobattoRoot search (n + 1)), x ^ 2 ≠ 1 := by
    intro x hx
    obtain ⟨i, hi, rfl⟩ := List.mem_map.1 hx
    exact Legendre.sq_ne_one_of_derivative_root (hroots i (hmem i hi))
  have hroots : ((List.range' 1 n).map (lobattoRoot search (n + 1))).Nodup :=
    List.Nodup.map_on (fun i hi j hj h => hdistinct (hmem i hi) (hmem j hj) h)
      (List.nodup_range' 1)
  have hends : (-1 : K) ≠ 1 := fun h => by
    have htwo : (2 : K) = 0 := by linear_combination -h
    exact two_ne_zero htwo
  refine List.nodup_cons.2 ⟨fun h => ?_, hroots.append (List.nodup_singleton 1) ?_⟩
  · rcases List.mem_append.1 h with h | h
    · exact hinside _ h (by norm_num)
    · exact hends (List.mem_singleton.1 h)
  · intro x hx hone
    exact hinside x hx (by rw [List.mem_singleton.1 hone, one_pow])

end

section

variable [LinearOrder K] [IsStrictOrderedRing K]
  (hroots : ∀ i ∈ Set.Ioo 0 (n + 1),
    (Legendre.polynomial K (n + 1)).derivative.eval (lobattoRoot search (n + 1) i) = 0)

include hroots

theorem lobattoWeight_pos (hx : x ∈ lobattoPoints search n) : 0 < lobattoWeight (n + 1) x := by
  rw [lobattoWeight_of_root (root_of_mem_lobattoPoints hroots hx)]
  exact div_pos two_pos (Legendre.eval_endKernel_self_pos x)

/-- **A Gauss-Lobatto rule** integrates all polynomials of degree below `2n + 2`. -/
theorem integrate_lobatto_polynomial
    (hdistinct : Set.InjOn (lobattoRoot search (n + 1)) (Set.Ioo 0 (n + 1))) {p : K[X]}
    (hp : p.degree < (n + 2 + n : Nat)) :
    (⟨(lobattoPoints search n).map (lobattoWeight (n + 1)),
      (lobattoPoints search n).map fun x => #v[x]⟩ : Rule K 1).integrate
        (fun v => p.eval (v.get 0)) = Legendre.integral p := by
  have hnodup := nodup_lobattoPoints hroots hdistinct
  have hroot : ∀ x ∈ (lobattoPoints search n).toFinset, (Legendre.withEnds K n).eval x = 0 :=
    fun x hx => root_of_mem_lobattoPoints hroots (List.mem_toFinset.1 hx)
  have hcard : (lobattoPoints search n).toFinset.card = n + 2 := by
    rw [List.toFinset_card_of_nodup hnodup, length_lobattoPoints]
  rw [integrate_weighted hnodup, ← Legendre.sum_roots_withEnds hcard hroot hp]
  refine Finset.sum_congr rfl fun x hx => ?_
  rw [lobattoWeight_of_root (hroot x hx)]
  rfl

end

/-- **Gauss-Lobatto rules are exact.**  Over an ordered field, with any first guesses and any way to
stop: a rule with fewer than two points is refused, and a rule with `n` points is made exactly where
there is room for it.  If what each search ends in is a root of the derivative of the Legendre
polynomial of degree `n - 1` and these roots are distinct, then there are `n` points and weights,
the first point is `-1` and the last one is `1`, all weights are positive, and the rule gives the
integral `(1 + (-1) ^ k) / (k + 1)` for all powers up to `2n - 3`. -/
theorem requestLobatto_exact [LinearOrder K] [IsStrictOrderedRing K] [Stored K]
    (search : RootSearch K) :
    (∀ n < 2, requestLobatto search n = .error (.refused .noRule)) ∧ ∀ n, 2 ≤ n →
      ((∃ rule, requestLobatto search n = .ok rule) ↔ Stored.bytes K * n < Size.bufferBound) ∧
      ∀ rule, requestLobatto search n = .ok rule →
        (∀ i ∈ Set.Ioo 0 (n - 1),
          (Legendre.polynomial K (n - 1)).derivative.eval (lobattoRoot search (n - 1) i) = 0) →
        Set.InjOn (lobattoRoot search (n - 1)) (Set.Ioo 0 (n - 1)) →
        rule.weights.length = n ∧ rule.points.length = n ∧
        rule.points.head? = some #v[-1] ∧ rule.points.getLast? = some #v[1] ∧
        (∀ w ∈ rule.weights, 0 < w) ∧
        ∀ k ≤ 2 * n - 3,
          rule.integrate (fun p => p.get 0 ^ k) = (1 + (-1) ^ k) / ((k : K) + 1) := by
  refine ⟨fun n hn => ?_, fun n hn => ?_⟩
  · rw [requestLobatto, insist_eq_error.2 ⟨Nat.not_le.2 hn, rfl⟩]
    rfl
  obtain ⟨n, rfl⟩ := Nat.exists_eq_add_of_le' hn
  refine ⟨⟨?_, fun hroom => ⟨_, requestLobatto_eq_ok.2 ⟨hroom, rfl⟩⟩⟩, ?_⟩
  · rintro ⟨rule, hrule⟩
    exact (requestLobatto_eq_ok.1 hrule).1
  · intro rule hrule hroots hdistinct
    obtain ⟨-, rfl⟩ := requestLobatto_eq_ok.1 hrule
    refine ⟨?_, ?_, rfl, ?_, fun w hw => ?_, fun k hk => ?_⟩
    · rw [List.length_map, length_lobattoPoints]
    · rw [List.length_map, length_lobattoPoints]
    · rw [List.getLast?_map, lobattoPoints, List.getLast?_append]
      rfl
    · obtain ⟨x, hx, rfl⟩ := List.mem_map.1 hw
      exact lobattoWeight_pos hroots hx
    · have hdegree : (X ^ k : K[X]).degree < (n + 2 + n : Nat) := by
        rw [degree_X_pow]
        exact_mod_cast (by omega : k < n + 2 + n)
      rw [← Legendre.integral_X_pow, ← integrate_lobatto_polynomial hroots hdistinct hdegree]
      simp only [eval_pow, eval_X]

/-- A search that starts at a root of the derivative stays there. -/
theorem lobattoRoot_of_root [CharZero K] {i : Nat}
    (h : (Legendre.polynomial K (n + 1)).derivative.eval (lobattoGuess search (n + 1) i) = 0) :
    lobattoRoot search (n + 1) i = lobattoGuess search (n + 1) i := by
  refine newton_of_correction_eq_zero ?_ search.maxSteps
  dsimp only
  rw [Legendre.derivative_evaluate _ _ (Legendre.sq_ne_one_of_derivative_root h), h, neg_zero,
    zero_div]

/-- First guesses at the roots of the derivative of the Legendre polynomial of degree three, by a
function in the place of the cosine. -/
noncomputable def innerRoots : RootSearch ℝ where
  pi := 1
  cos t := if (2 : Nat) * t < 1 then √(1 / (5 : Nat)) else -√(1 / (5 : Nat))
  isSmall dx := decide (|dx| ≤ 1e-15)

theorem lobattoGuess_innerRoots :
    lobattoGuess innerRoots 3 1 = -√(1 / 5) ∧ lobattoGuess innerRoots 3 2 = √(1 / 5) := by
  norm_num [lobattoGuess, innerRoots]

theorem root_lobattoGuess_innerRoots {i : Nat} (hi : i ∈ Set.Ioo 0 3) :
    (Legendre.polynomial ℝ 3).derivative.eval (lobattoGuess innerRoots 3 i) = 0 := by
  have hvalue (x : ℝ) : (Legendre.polynomial ℝ 3).derivative.eval x = (15 * x ^ 2 - 3) / 2 := by
    simp [Legendre.polynomial]
    ring
  have hsquare : √(1 / 5 : ℝ) ^ 2 = 1 / 5 := Real.sq_sqrt (by norm_num)
  obtain ⟨hpos, hlt⟩ := hi
  obtain rfl | rfl : i = 1 ∨ i = 2 := by omega
  · rw [hvalue, lobattoGuess_innerRoots.1, neg_sq, hsquare]
    norm_num
  · rw [hvalue, lobattoGuess_innerRoots.2, hsquare]
    norm_num

/-- Four points integrate the fourth power. -/
theorem requestLobatto_exact_four_points :
    requestLobatto innerRoots 1 = .error (.refused .noRule) ∧
      ∃ rule, requestLobatto innerRoots 4 = .ok rule ∧ rule.weights.length = 4 ∧
        rule.points.head? = some #v[-1] ∧ rule.points.getLast? = some #v[1] ∧
        (∀ w ∈ rule.weights, 0 < w) ∧ rule.integrate (fun p => p.get 0 ^ 4) = 2 / 5 := by
  obtain ⟨hfew, hrules⟩ := requestLobatto_exact innerRoots
  obtain ⟨hmade, hexact⟩ := hrules 4 (by decide)
  obtain ⟨rule, hrule⟩ := hmade.2 (by decide)
  have hroot : ∀ i ∈ Set.Ioo 0 3, lobattoRoot innerRoots 3 i = lobattoGuess innerRoots 3 i :=
    fun i hi => lobattoRoot_of_root (root_lobattoGuess_innerRoots hi)
  have hdistinct : Set.InjOn (lobattoRoot innerRoots 3) (Set.Ioo 0 3) := by
    have hpos : 0 < √(1 / 5 : ℝ) := Real.sqrt_pos.2 (by norm_num)
    have hne : lobattoRoot innerRoots 3 1 ≠ lobattoRoot innerRoots 3 2 := by
      rw [hroot 1 (by decide), hroot 2 (by decide), lobattoGuess_innerRoots.1,
        lobattoGuess_innerRoots.2]
      exact (neg_lt_self hpos).ne
    rintro i ⟨hi, hi'⟩ j ⟨hj, hj'⟩ hij
    obtain rfl | rfl : i = 1 ∨ i = 2 := by omega
    · obtain rfl | rfl : j = 1 ∨ j = 2 := by omega
      · rfl
      · exact absurd hij hne
    · obtain rfl | rfl : j = 1 ∨ j = 2 := by omega
      · exact absurd hij.symm hne
      · rfl
  obtain ⟨hweights, -, hfirst, hlast, hpositive, hpowers⟩ := hexact rule hrule
    (fun i hi => (hroot i hi).symm ▸ root_lobattoGuess_innerRoots hi) hdistinct
  refine ⟨hfew 1 (by decide), rule, hrule, hweights, hfirst, hlast, hpositive, ?_⟩
  rw [hpowers 4 (by decide)]
  norm_num

end Rule

end TensorDiffusion
