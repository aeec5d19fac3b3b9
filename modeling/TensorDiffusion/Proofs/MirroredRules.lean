import TensorDiffusion.Proofs.GaussRules

/-!
# Gauss rules are symmetric

A Gauss rule is its own mirror image, whatever numbers the search ends in: all that is asked of the
scalars is that a negation undoes a negation (`Rule.requestGauss_symmetric`).  Half of the rule is
computed and the rest follows by a mirror index, so this is a matter of places in a list and not of
roots.

* `getElem?_reflect`, `getElem?_reflect_image`: where the given entries of a reflected list and where
  their images stand.
* `reflect_symmetric`: entries in opposite places are images of each other, the middle one apart.
-/

namespace TensorDiffusion

/-! ### Reflected lists -/

section

variable {β : Type} {f : β → β} {n i : Nat} {half : List β}

/-- The given entries stand at the end, the first of them last. -/
theorem getElem?_reflect (hhalf : half.length = (n + 1) / 2) (hi : i < (n + 1) / 2) :
    (reflect f n half)[n - 1 - i]? = half[i]? := by
  have hlength := length_reflect (f := f) hhalf
  rw [reflect, List.length_reverse] at hlength
  rw [reflect, List.getElem?_reverse (by omega), hlength,
    List.getElem?_append_left (by omega)]
  exact congrArg (half[·]?) (by omega)

/-- Their images stand at the start, in the order of the given entries. -/
theorem getElem?_reflect_image (hhalf : half.length = (n + 1) / 2) (hi : i < n - (n + 1) / 2) :
    (reflect f n half)[i]? = half[i]?.map f := by
  have hlength := length_reflect (f := f) hhalf
  rw [reflect, List.length_reverse] at hlength
  have htake : (half.take (n - (n + 1) / 2)).length = n - (n + 1) / 2 := by
    rw [List.length_take]
    omega
  -- The two reversals undo each other, up to where the given entries end.
  have hplace : n - (n + 1) / 2 - 1 - (n - 1 - i - (n + 1) / 2) = i := by omega
  rw [reflect, List.getElem?_reverse (by omega), hlength, List.getElem?_append_right (by omega),
    List.getElem?_map, List.getElem?_reverse (by omega), htake, hhalf, hplace,
    List.getElem?_take_of_lt hi]

/-- Entries in opposite places are images of each other, the middle one apart. -/
theorem reflect_symmetric (hf : ∀ a, f (f a) = a) (hhalf : half.length = (n + 1) / 2) (hi : i < n)
    (hmiddle : 2 * i + 1 ≠ n) :
    ∃ a, (reflect f n half)[n - 1 - i]? = some a ∧ (reflect f n half)[i]? = some (f a) := by
  by_cases hlow : i < n - (n + 1) / 2
  · have hentry : half[i]? = some half[i] := List.getElem?_eq_getElem _
    refine ⟨half[i], ?_, ?_⟩
    · rw [getElem?_reflect hhalf (by omega), hentry]
    · rw [getElem?_reflect_image hhalf hlow, hentry, Option.map_some]
  · -- The place is in the larger half, and the opposite one holds the image.
    obtain ⟨j, rfl, hj⟩ : ∃ j, i = n - 1 - j ∧ j < n - (n + 1) / 2 :=
      ⟨n - 1 - i, by omega, by omega⟩
    have hentry : half[j]? = some half[j] := List.getElem?_eq_getElem _
    have hopposite : n - 1 - (n - 1 - j) = j := by omega
    refine ⟨f half[j], ?_, ?_⟩
    · rw [hopposite, getElem?_reflect_image hhalf hj, hentry, Option.map_some]
    · rw [getElem?_reflect hhalf (by omega), hentry, hf]

end

namespace Rule

variable {α : Type} [NatCast α] [Zero α] [One α] [Add α] [Sub α] [Mul α] [Div α] [Neg α] {n i : Nat}

/-- **Gauss rules are symmetric**, whatever the search ends in.  Where a negation undoes a negation,
a rule with `n` points is made exactly where there is room for it, and has `n` points and weights.
Weights in opposite places are equal; points in opposite places are negatives of each other, the
middle one apart; and the result of the search from the `i`-th guess is the `i`-th point from the
end, with its own weight. -/
theorem requestGauss_symmetric [Stored α] (hneg : ∀ a : α, - -a = a) (search : RootSearch α)
    (hn : 1 ≤ n) :
    ((∃ rule, requestGauss search n = .ok rule) ↔ Stored.bytes α * n < Size.bufferBound) ∧
    ∀ rule, requestGauss search n = .ok rule →
      rule.weights.length = n ∧ rule.points.length = n ∧
      (∀ i < n, rule.weights[i]? = rule.weights[n - 1 - i]?) ∧
      (∀ i < n, 2 * i + 1 ≠ n →
        ∃ x, rule.points[n - 1 - i]? = some #v[x] ∧ rule.points[i]? = some #v[-x]) ∧
      ∀ i < (n + 1) / 2, rule.points[n - 1 - i]? = some #v[gaussRoot search n i] ∧
        rule.weights[n - 1 - i]? = some (gaussWeight n (gaussRoot search n i)) := by
  refine ⟨exists_requestGauss (Nat.ne_of_gt hn), fun rule hrule => ?_⟩
  obtain ⟨-, -, rfl⟩ := requestGauss_eq_ok.1 hrule
  rw [mirrored_eq_reflect]
  generalize hroots : (List.range ((n + 1) / 2)).map (gaussRoot search n) = roots
  have hlength : roots.length = (n + 1) / 2 := by
    rw [← hroots, List.length_map, List.length_range]
  have hfound : ∀ i < (n + 1) / 2, roots[i]? = some (gaussRoot search n i) := fun i hi => by
    rw [← hroots, List.getElem?_map, List.getElem?_range hi, Option.map_some]
  have hweights : (roots.map (gaussWeight n)).length = (n + 1) / 2 := by
    rw [List.length_map, hlength]
  refine ⟨length_reflect hweights, ?_, fun i hi => ?_, fun i hi hmiddle => ?_, fun i hi => ⟨?_, ?_⟩⟩
  · rw [List.length_map, length_reflect hlength]
  · by_cases hmiddle : 2 * i + 1 = n
    · exact congrArg (_[·]?) (by omega)
    · obtain ⟨w, hw, hw'⟩ := reflect_symmetric (f := id) (fun _ => rfl) hweights hi hmiddle
      exact hw'.trans hw.symm
  · obtain ⟨x, hx, hx'⟩ := reflect_symmetric hneg hlength hi hmiddle
    refine ⟨x, ?_, ?_⟩
    · rw [List.getElem?_map, hx]
      rfl
    · rw [List.getElem?_map, hx']
      rfl
  · rw [List.getElem?_map, getElem?_reflect hlength hi, hfound i hi]
    rfl
  · rw [getElem?_reflect hweights hi, List.getElem?_map, hfound i hi, Option.map_some]

/-- Three points: the outer ones are negatives of each other, and the middle one is there once. -/
theorem requestGauss_symmetric_three_points :
    (∀ a : ℝ, - -a = a) ∧ ∃ rule, requestGauss threeRoots 3 = .ok rule ∧
      rule.points.length = 3 ∧ rule.weights[0]? = rule.weights[2]? ∧
      rule.points[0]? = some #v[-√(3 / 5)] ∧ rule.points[1]? = some #v[0] ∧
      rule.points[2]? = some #v[√(3 / 5)] := by
  obtain ⟨hmade, hsymmetric⟩ := requestGauss_symmetric neg_neg threeRoots (n := 3) (by decide)
  obtain ⟨rule, hrule⟩ := hmade.2 (by decide)
  obtain ⟨-, hpoints, hweights, hopposite, hfound⟩ := hsymmetric rule hrule
  have hroot : ∀ i < 2, gaussRoot threeRoots 3 i = gaussGuess threeRoots 3 i := fun i hi =>
    gaussRoot_of_root (root_gaussGuess_threeRoots hi)
  have hlast : rule.points[2]? = some #v[√(3 / 5)] := by
    rw [(hfound 0 (by decide)).1, hroot 0 (by decide), gaussGuess_threeRoots.1]
  have hmiddle : rule.points[1]? = some #v[0] := by
    rw [(hfound 1 (by decide)).1, hroot 1 (by decide), gaussGuess_threeRoots.2]
  obtain ⟨x, hx, hfirst⟩ := hopposite 0 (by decide) (by decide)
  obtain rfl : √(3 / 5) = x := by simpa using hlast.symm.trans hx
  exact ⟨neg_neg, rule, hrule, hpoints, hweights 0 (by decide), hfirst, hmiddle, hlast⟩

end Rule

end TensorDiffusion
