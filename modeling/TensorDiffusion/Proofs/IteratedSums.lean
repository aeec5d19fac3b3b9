import Mathlib.Algebra.BigOperators.Fin
import Mathlib.Tactic.IntervalCases
import Mathlib.Tactic.NormNum
import TensorDiffusion.Proofs.Exact
import TensorDiffusion.Proofs.Rules

/-!
# Tensor rules are iterated interval rules

Over a commutative semiring a rule on the square or on the cube applies its interval rule to one
variable at a time, in whichever order (`Rule.product_integrals`).  What the interval rule gives for
the powers of its variable, the products give for the monomials, with the same bound on each
exponent.

* `Rule.iterated`: an interval rule applied to `d` variables in turn.
* `Rule.iterated_eq_sum`: the sum over all choices of a point for each variable, from which the
  order of the variables is gone.
* `Rule.integrate_square`, `Rule.integrate_cube`: the flattened sums, taken apart again.
-/

namespace TensorDiffusion

theorem zip_flatMap {β γ δ : Type} {f : β → List γ} {g : β → List δ}
    (h : ∀ b, (f b).length = (g b).length) (xs : List β) :
    (xs.flatMap f).zip (xs.flatMap g) = xs.flatMap fun b => (f b).zip (g b) := by
  induction xs with
  | nil => rfl
  | cons b xs ih =>
    rw [List.flatMap_cons, List.flatMap_cons, List.flatMap_cons, List.zip_append (h b), ih]

theorem get_eq_getElem {β : Type} {d : Nat} (v : Vector β d) (i : Fin d) :
    v.get i = getElem v i.val i.isLt := rfl

namespace Rule

variable {R : Type} [CommSemiring R] {d : Nat}

/-- Adding from left to right is adding in any way. -/
theorem integrate_eq_sum (rule : Rule R d) (f : Vector R d → R) :
    rule.integrate f = (rule.pairs.map fun p => p.1 * f p.2).sum := by
  rw [integrate, List.sum_eq_foldl, List.foldl_map]

theorem integrate_eq_sum_fin (rule : Rule R d) (f : Vector R d → R) :
    rule.integrate f = ∑ q : Fin rule.pairs.length, rule.pairs[q].1 * f rule.pairs[q].2 :=
  (integrate_eq_sum rule f).trans (Fin.sum_univ_fun_getElem rule.pairs fun p => p.1 * f p.2).symm

variable (rule : Rule R 1)

/-! ### Variables in turn -/

/-- The rule applied to `d` variables, one after the other; the last variable is outermost. -/
def iterated : (d : Nat) → (Vector R d → R) → R
  | 0,     f => f #v[]
  | d + 1, f => rule.integrate fun p => iterated d fun v => f (v.push (p.get 0))

/-- **Variables in turn** are all choices of a point for each variable. -/
theorem iterated_eq_sum (f : Vector R d → R) :
    rule.iterated d f = ∑ q : Fin d → Fin rule.pairs.length,
      (∏ i, rule.pairs[q i].1) * f (Vector.ofFn fun i => rule.pairs[q i].2.get 0) := by
  induction d with
  | zero =>
    rw [Fintype.sum_unique, Fin.prod_univ_zero, one_mul, iterated]
    exact congrArg f (Vector.ext fun _ h => absurd h (Nat.not_lt_zero _))
  | succ d ih =>
    rw [iterated, integrate_eq_sum_fin, ← (Fin.snocEquiv fun _ => Fin rule.pairs.length).sum_comp,
      Fintype.sum_prod_type]
    refine Finset.sum_congr rfl fun last _ => ?_
    rw [ih, Finset.mul_sum]
    refine Finset.sum_congr rfl fun q _ => ?_
    have hlast : (Fin.snoc q last : Fin (d + 1) → Fin rule.pairs.length) ⟨d, d.lt_succ_self⟩ =
        last := Fin.snoc_last _ _
    rw [Fin.prod_univ_castSucc, Vector.ofFn_succ]
    simp only [Fin.snocEquiv_apply, Fin.snoc_castSucc, Fin.snoc_last, hlast]
    ring

/-- The coordinates of a point in another order. -/
def permuted (σ : Equiv.Perm (Fin d)) (v : Vector R d) : Vector R d :=
  Vector.ofFn fun i => v.get (σ i)

/-- **The order of the variables** does not matter. -/
theorem iterated_permuted (f : Vector R d → R) (σ : Equiv.Perm (Fin d)) :
    (rule.iterated d fun v => f (permuted σ v)) = rule.iterated d f := by
  -- Both sums run over all choices of points; `σ` renames the variables of a choice.
  rw [iterated_eq_sum, iterated_eq_sum,
    ← (σ.arrowCongr (Equiv.refl (Fin rule.pairs.length))).sum_comp]
  refine Finset.sum_congr rfl fun q _ => ?_
  have hweight : ∏ i, rule.pairs[q (σ.symm i)].1 = ∏ i, rule.pairs[q i].1 :=
    Equiv.prod_comp σ.symm fun i => rule.pairs[q i].1
  simp only [Equiv.arrowCongr_apply, Equiv.coe_refl, Function.comp_apply, id]
  rw [hweight]
  simp [permuted, get_eq_getElem]

/-- A product of functions of one variable each is taken apart. -/
theorem iterated_prod (f : Fin d → R → R) :
    (rule.iterated d fun v => ∏ i, f i (v.get i)) = ∏ i, rule.integrate fun p => f i (p.get 0) := by
  simp only [iterated_eq_sum, integrate_eq_sum_fin, Finset.prod_univ_sum, Fintype.piFinset_univ,
    Finset.prod_mul_distrib]
  simp [get_eq_getElem]

/-! ### The square and the cube -/

/-- A sum over lists that are put one after the other. -/
theorem sum_flatMap {β γ : Type} (f : β → List γ) (g : γ → R) (xs : List β) :
    ((xs.flatMap f).map g).sum = (xs.map fun b => ((f b).map g).sum).sum := by
  induction xs with
  | nil => rfl
  | cons b xs ih =>
    rw [List.flatMap_cons, List.map_append, List.sum_append, ih, List.map_cons, List.sum_cons]

/-- **A rule on the square** is the interval rule in `x`, within that in `y`. -/
theorem integrate_square (f : Vector R 2 → R) :
    rule.square.integrate f = rule.integrate fun y => rule.integrate fun x =>
      f #v[x.get 0, y.get 0] := by
  have hpairs : rule.square.pairs = rule.pairs.flatMap fun py => rule.pairs.map fun px =>
      (px.1 * py.1, #v[px.2.get 0, py.2.get 0]) := by
    simp [pairs, square, zip_flatMap, List.zip_map', get_eq_getElem]
  simp only [integrate_eq_sum, hpairs, sum_flatMap, List.map_map, ← List.sum_map_mul_left]
  refine congrArg List.sum (List.map_congr_left fun py _ => ?_)
  refine congrArg List.sum (List.map_congr_left fun px _ => ?_)
  simp only [Function.comp_apply]
  ring

/-- **A rule on the cube** is the interval rule in `x`, within that in `y`, within that in `z`. -/
theorem integrate_cube (f : Vector R 3 → R) :
    rule.cube.integrate f = rule.integrate fun z => rule.integrate fun y => rule.integrate fun x =>
      f #v[x.get 0, y.get 0, z.get 0] := by
  have hpairs : rule.cube.pairs = rule.pairs.flatMap fun pz => rule.pairs.flatMap fun py =>
      rule.pairs.map fun px => (px.1 * py.1 * pz.1, #v[px.2.get 0, py.2.get 0, pz.2.get 0]) := by
    simp [pairs, cube, zip_flatMap, List.zip_map', get_eq_getElem]
  simp only [integrate_eq_sum, hpairs, sum_flatMap, List.map_map, ← List.sum_map_mul_left]
  refine congrArg List.sum (List.map_congr_left fun pz _ => ?_)
  refine congrArg List.sum (List.map_congr_left fun py _ => ?_)
  refine congrArg List.sum (List.map_congr_left fun px _ => ?_)
  simp only [Function.comp_apply]
  ring

theorem onSquare_eq_ok [Stored R] {product : Rule R 2} :
    rule.onSquare = .ok product ↔
      2 * Stored.bytes R * rule.weights.length ^ 2 < Size.bufferBound ∧ product = rule.square := by
  rw [← TensorRule.reserveProduct_eq_ok Nat.two_pos]
  exact checked_eq_ok

theorem onCube_eq_ok [Stored R] {product : Rule R 3} :
    rule.onCube = .ok product ↔
      3 * Stored.bytes R * rule.weights.length ^ 3 < Size.bufferBound ∧ product = rule.cube := by
  rw [← TensorRule.reserveProduct_eq_ok (Nat.succ_pos 2)]
  exact checked_eq_ok

/-- **Tensor rules are iterated interval rules.**  The product of an interval rule on the square or
on the cube is made exactly where there is room for it, and applies the interval rule to one
variable at a time, in any order `σ` of the variables.  So if the interval rule gives `m k` for the
powers `x ^ k` with `k ≤ N`, its products give the products of these for all monomials whose
exponents are at most `N`. -/
theorem product_integrals [Stored R] :
    (∀ product, rule.onSquare = .ok product ↔
      2 * Stored.bytes R * rule.weights.length ^ 2 < Size.bufferBound ∧ product = rule.square) ∧
    (∀ product, rule.onCube = .ok product ↔
      3 * Stored.bytes R * rule.weights.length ^ 3 < Size.bufferBound ∧ product = rule.cube) ∧
    (∀ f : Vector R 2 → R,
      rule.square.integrate f =
        (rule.integrate fun y => rule.integrate fun x => f #v[x.get 0, y.get 0]) ∧
      ∀ σ, rule.square.integrate f =
        rule.integrate fun p => rule.integrate fun q => f (permuted σ #v[q.get 0, p.get 0])) ∧
    (∀ f : Vector R 3 → R,
      rule.cube.integrate f = (rule.integrate fun z => rule.integrate fun y =>
        rule.integrate fun x => f #v[x.get 0, y.get 0, z.get 0]) ∧
      ∀ σ, rule.cube.integrate f = rule.integrate fun p => rule.integrate fun q =>
        rule.integrate fun r => f (permuted σ #v[r.get 0, q.get 0, p.get 0])) ∧
    ∀ (N : Nat) (m : Nat → R), (∀ k ≤ N, rule.integrate (fun p => p.get 0 ^ k) = m k) →
      (∀ a ≤ N, ∀ b ≤ N,
        rule.square.integrate (fun p => p.get 0 ^ a * p.get 1 ^ b) = m a * m b) ∧
      ∀ a ≤ N, ∀ b ≤ N, ∀ c ≤ N,
        rule.cube.integrate (fun p => p.get 0 ^ a * p.get 1 ^ b * p.get 2 ^ c) =
          m a * m b * m c := by
  have hsquare (f : Vector R 2 → R) : rule.square.integrate f = rule.iterated 2 f :=
    rule.integrate_square f
  have hcube (f : Vector R 3 → R) : rule.cube.integrate f = rule.iterated 3 f :=
    rule.integrate_cube f
  refine ⟨fun _ => rule.onSquare_eq_ok, fun _ => rule.onCube_eq_ok, fun f => ⟨hsquare f, ?_⟩,
    fun f => ⟨hcube f, ?_⟩, fun N m hm => ⟨?_, ?_⟩⟩
  · exact fun σ => (hsquare f).trans (rule.iterated_permuted f σ).symm
  · exact fun σ => (hcube f).trans (rule.iterated_permuted f σ).symm
  · intro a ha b hb
    have hprod := rule.iterated_prod fun (i : Fin 2) t => t ^ ![a, b] i
    simp only [Fin.prod_univ_two] at hprod
    rw [hsquare, ← hm a ha, ← hm b hb]
    exact hprod
  · intro a ha b hb c hc
    have hprod := rule.iterated_prod fun (i : Fin 3) t => t ^ ![a, b, c] i
    simp only [Fin.prod_univ_three] at hprod
    rw [hcube, ← hm a ha, ← hm b hb, ← hm c hc]
    exact hprod

/-- Simpson's rule, exact to degree 3. -/
noncomputable def simpson : Rule ℝ 1 :=
  ⟨[1 / (3 : Nat), (4 : Nat) / (3 : Nat), 1 / (3 : Nat)], [#v[-1], #v[0], #v[1]]⟩

/-- Simpson's rule gives the square of every variable of the cube its integral. -/
theorem product_integrals_simpson :
    (∀ k ≤ (3 : Nat), simpson.integrate (fun p => p.get 0 ^ k) = (1 + (-1) ^ k) / (k + 1)) ∧
      simpson.cube.integrate (fun p => p.get 0 ^ 2 * p.get 1 ^ 2 * p.get 2 ^ 2) = 8 / 27 := by
  have hmoments : ∀ k ≤ (3 : Nat),
      simpson.integrate (fun p => p.get 0 ^ k) = (1 + (-1) ^ k) / ((k : ℝ) + 1) := by
    intro k hk
    interval_cases k <;> norm_num [integrate, pairs, simpson, get_eq_getElem]
  obtain ⟨-, -, -, -, hmonomials⟩ := product_integrals simpson
  refine ⟨hmoments, ?_⟩
  rw [(hmonomials 3 _ hmoments).2 2 (by decide) 2 (by decide) 2 (by decide)]
  norm_num

end Rule

end TensorDiffusion
