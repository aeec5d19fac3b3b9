import Mathlib.Algebra.Free
import Mathlib.Data.List.OfFn
import TensorDiffusion.Proofs.Rules

/-!
# The points of tensor rules

The weights of a tensor rule are made in two ways: as those of the square or the cube of an interval
rule, by loops within loops, and from the weights of the interval rule, by a loop over flat indices
that are taken apart.  The ways agree, entry by entry (`TensorRule.tensorizations_agree`): the point
with the positions `qx`, `qy`, `qz` stands at `qx + n * (qy + n * qz)`, its weight is
`(w qx * w qy) * w qz`, and so a tensor Gauss rule in double precision is the tensor rule of the
interval Gauss rule.

No law of multiplication is used.
-/

namespace TensorDiffusion

/-- The position of an entry in lists of one length that are put one after the other. -/
theorem getElem?_flatMap_of_length {β γ : Type} {f : β → List γ} {n i : Nat}
    (hf : ∀ b, (f b).length = n) (hi : i < n) (xs : List β) (j : Nat) :
    (xs.flatMap f)[i + n * j]? = xs[j]?.bind fun b => (f b)[i]? := by
  induction xs generalizing j with
  | nil => rfl
  | cons b xs ih =>
    rw [List.flatMap_cons]
    cases j with
    | zero =>
      rw [Nat.mul_zero, Nat.add_zero, List.getElem?_append_left (by rwa [hf])]
      rfl
    | succ j =>
      have hindex : i + n * (j + 1) = (f b).length + (i + n * j) := by
        rw [hf, Nat.mul_succ]
        omega
      rw [hindex, List.getElem?_append_right (Nat.le_add_right _ _), Nat.add_sub_cancel_left, ih]
      rfl

namespace Rule

variable {α : Type} {n : Nat}

/-- The interval rule with the points `x` and the weights `w`. -/
def ofFn (x w : Fin n → α) : Rule α 1 :=
  ⟨List.ofFn w, List.ofFn fun q => #v[x q]⟩

/-- Every interval rule with as many points as weights is of this form. -/
theorem eq_ofFn {rule : Rule α 1} (hw : rule.weights.length = n) (hp : rule.points.length = n) :
    ∃ x w : Fin n → α, rule = ofFn x w := by
  obtain ⟨weights, points⟩ := rule
  subst hw
  let x (q : Fin weights.length) : α := (points.get (q.cast hp.symm))[0]
  have hpoints : points = List.ofFn fun q => #v[x q] := by
    refine List.ext_get (hp.trans List.length_ofFn.symm) fun i hi _ => ?_
    rw [List.get_ofFn]
    refine Vector.ext fun k hk => ?_
    obtain rfl := Nat.lt_one_iff.1 hk
    rfl
  exact ⟨x, weights.get, by rw [ofFn, List.ofFn_get, ← hpoints]⟩

variable (x w : Fin n → α)

theorem abscissas_ofFn : (ofFn x w).abscissas = List.ofFn x := by
  rw [abscissas, ofFn, List.map_ofFn]
  rfl

theorem length_pairs_ofFn : (ofFn x w).pairs.length = n :=
  length_pairs List.length_ofFn List.length_ofFn

theorem getElem?_pairs_ofFn (q : Fin n) : (ofFn x w).pairs[q.val]? = some (w q, #v[x q]) := by
  simp [pairs, ofFn]

variable [Mul α]

/-- The weights of the tensor points, for the dimensions of tensor rules. -/
def tensorWeights (rule : Rule α 1) : Nat → List α
  | 1 => rule.weights
  | 2 => rule.square.weights
  | _ => rule.cube.weights

theorem length_tensorWeights {rule : Rule α 1} {dim : Nat} (hw : rule.weights.length = n)
    (hp : rule.points.length = n) (hdim : 1 ≤ dim ∧ dim ≤ 3) :
    (rule.tensorWeights dim).length = n ^ dim := by
  obtain rfl | rfl | rfl : dim = 1 ∨ dim = 2 ∨ dim = 3 := by omega
  · exact hw.trans (Nat.pow_one n).symm
  · exact length_square (length_pairs hw hp)
  · exact length_cube (length_pairs hw hp)

theorem length_points {rule : Rule α 1} (h : rule.pairs.length = n) :
    rule.square.points.length = n ^ 2 ∧ rule.cube.points.length = n ^ 3 := by
  constructor
  · simp [square, h, Nat.pow_two, List.map_const']
  · simp [cube, h, Nat.pow_succ, Nat.mul_assoc, List.map_const']

omit [Mul α] in
/-- The entry of a pair of positions. -/
theorem getElem?_over_pairs {β : Type} {rule : Rule α 1} (hlen : rule.pairs.length = n)
    (f : α × Vector α 1 → α × Vector α 1 → β) {qx : Nat} (hqx : qx < n) (qy : Nat) :
    (rule.pairs.flatMap fun py => rule.pairs.map fun px => f px py)[qx + n * qy]? =
      rule.pairs[qy]?.bind fun py => rule.pairs[qx]?.map fun px => f px py := by
  rw [getElem?_flatMap_of_length (fun _ => by rw [List.length_map, hlen]) hqx]
  simp only [List.getElem?_map]

omit [Mul α] in
/-- The entry of a triple of positions. -/
theorem getElem?_over_triples {β : Type} {rule : Rule α 1} (hlen : rule.pairs.length = n)
    (f : α × Vector α 1 → α × Vector α 1 → α × Vector α 1 → β) {qx qy : Nat} (hqx : qx < n)
    (hqy : qy < n) (qz : Nat) :
    (rule.pairs.flatMap fun pz => rule.pairs.flatMap fun py => rule.pairs.map fun px =>
        f px py pz)[qx + n * (qy + n * qz)]? =
      rule.pairs[qz]?.bind fun pz => rule.pairs[qy]?.bind fun py =>
        rule.pairs[qx]?.map fun px => f px py pz := by
  have hplane : ∀ pz, (rule.pairs.flatMap fun py => rule.pairs.map fun px =>
      f px py pz).length = n * n := fun pz => by simp [hlen, List.map_const']
  rw [Nat.mul_add, ← Nat.add_assoc, ← Nat.mul_assoc,
    getElem?_flatMap_of_length hplane (pair_lt hqx hqy)]
  simp only [getElem?_over_pairs hlen _ hqx]

/-- **A point of the square** and its weight. -/
theorem square_at (qx qy : Fin n) :
    (ofFn x w).square.weights[qx + n * qy]? = some (w qx * w qy) ∧
      (ofFn x w).square.points[qx + n * qy]? = some #v[x qx, x qy] := by
  have hlen := length_pairs_ofFn x w
  constructor
  · refine (getElem?_over_pairs hlen (fun px py => px.1 * py.1) qx.isLt qy).trans ?_
    rw [getElem?_pairs_ofFn, getElem?_pairs_ofFn]
    rfl
  · refine (getElem?_over_pairs hlen (fun px py => #v[px.2[0], py.2[0]]) qx.isLt qy).trans ?_
    rw [getElem?_pairs_ofFn, getElem?_pairs_ofFn]
    rfl

/-- **A point of the cube** and its weight. -/
theorem cube_at (qx qy qz : Fin n) :
    (ofFn x w).cube.weights[qx + n * (qy + n * qz)]? = some (w qx * w qy * w qz) ∧
      (ofFn x w).cube.points[qx + n * (qy + n * qz)]? = some #v[x qx, x qy, x qz] := by
  have hlen := length_pairs_ofFn x w
  constructor
  · refine (getElem?_over_triples hlen (fun px py pz => px.1 * py.1 * pz.1) qx.isLt qy.isLt
      qz).trans ?_
    rw [getElem?_pairs_ofFn, getElem?_pairs_ofFn, getElem?_pairs_ofFn]
    rfl
  · refine (getElem?_over_triples hlen (fun px py pz => #v[px.2[0], py.2[0], pz.2[0]]) qx.isLt
      qy.isLt qz).trans ?_
    rw [getElem?_pairs_ofFn, getElem?_pairs_ofFn, getElem?_pairs_ofFn]
    rfl

end Rule

namespace TensorRule

variable {α : Type} [Mul α] {n dim : Nat}

/-- **The weight of a tensor point** is the same by both ways. -/
theorem weightAt_ofFn (x w : Fin n → α) (hdim : 1 ≤ dim ∧ dim ≤ 3) {k : Nat} (hk : k < n ^ dim) :
    ∃ v, weightAt dim (Array.ofFn w) k = .ok v ∧
      ((Rule.ofFn x w).tensorWeights dim)[k]? = some v := by
  have hslot : ∀ {q : Nat} (hq : q < n), slot (Array.ofFn w) q = .ok (w ⟨q, hq⟩) := fun hq => by
    rw [slot_eq (Array.size_ofFn.symm ▸ hq), Array.getElem_ofFn]
  obtain rfl | rfl | rfl : dim = 1 ∨ dim = 2 ∨ dim = 3 := by omega
  · rw [Nat.pow_one] at hk
    refine ⟨w ⟨k, hk⟩, ?_, by simp [Rule.tensorWeights, Rule.ofFn, hk]⟩
    simp [weightAt, Nat.mod_eq_of_lt hk, hslot hk]
  · rw [Nat.pow_two] at hk
    have hx : k % n < n := mod_lt_left hk
    have hy : k / n < n := div_lt_right hk
    have hpoint := (Rule.square_at x w ⟨k % n, hx⟩ ⟨k / n, hy⟩).1
    rw [Nat.mod_add_div] at hpoint
    refine ⟨_, ?_, hpoint⟩
    simp [weightAt, Nat.mod_eq_of_lt hy, hslot hx, hslot hy]
  · rw [pow_three'] at hk
    have hy : k / n < n * n := div_lt_right (by rwa [← Nat.mul_assoc])
    have hx : k % n < n := mod_lt_left (by rwa [Nat.mul_assoc] at hk)
    have hz : k / (n * n) < n := div_lt_right hk
    have hplace : k % n + n * (k / n % n + n * (k / (n * n))) = k := by
      rw [← Nat.div_div_eq_div_mul, Nat.mod_add_div, Nat.mod_add_div]
    have hpoint := (Rule.cube_at x w ⟨k % n, hx⟩ ⟨k / n % n, mod_lt_left hy⟩ ⟨k / (n * n), hz⟩).1
    rw [hplace] at hpoint
    refine ⟨_, ?_, hpoint⟩
    simp [weightAt, hslot hx, hslot (mod_lt_left hy), hslot hz]

/-- The weights that are made from flat indices are those of the product of the interval rule. -/
theorem tabulate_weightAt [Stored α] {rule : Rule α 1} (hw : rule.weights.length = n)
    (hp : rule.points.length = n) (hdim : 1 ≤ dim ∧ dim ≤ 3) :
    tabulate (n ^ dim) (weightAt dim rule.weights.toArray) =
      .ok (rule.tensorWeights dim).toArray := by
  obtain ⟨x, w, rfl⟩ := Rule.eq_ofFn hw hp
  have harray : (Rule.ofFn x w).weights.toArray = Array.ofFn w := by simp [Rule.ofFn]
  rw [harray]
  obtain ⟨buf, hrun, hslot⟩ := tabulate_forall
    (P := fun k v => ((Rule.ofFn x w).tensorWeights dim)[k]? = some v)
    fun k hk => weightAt_ofFn x w hdim hk
  have hsize : buf.size = n ^ dim := size_of_tabulate hrun
  refine hrun.trans (congrArg Except.ok (Array.ext ?_ fun k hk _ => ?_))
  · rw [hsize, List.size_toArray, Rule.length_tensorWeights hw hp hdim]
  · obtain ⟨v, hv, hentry⟩ := hslot k (hsize ▸ hk)
    rw [slot_eq hk] at hv
    rw [Except.ok.inj hv, List.getElem_toArray]
    exact ((List.getElem_eq_iff _).2 hentry).symm

/-- **The tensor rule of an interval rule** has the weights of the product, where there is room for
them. -/
theorem ofInterval_eq_ok [Stored α] {rule : Rule α 1} (hw : rule.weights.length = n)
    (hp : rule.points.length = n) {t : TensorRule α} :
    ofInterval dim rule.abscissas.toArray rule.weights.toArray = .ok t ↔
      (1 ≤ dim ∧ dim ≤ 3) ∧ Stored.bytes α * n ^ dim < Size.bufferBound ∧
        t = ⟨dim, rule.abscissas.toArray, rule.weights.toArray,
          (rule.tensorWeights dim).toArray⟩ := by
  have hpaired : rule.abscissas.toArray.size = rule.weights.toArray.size := by
    simp [Rule.abscissas, hw, hp]
  have hsize : rule.weights.toArray.size = n := by rw [List.size_toArray, hw]
  constructor
  · intro h
    obtain ⟨_, hdim, h⟩ := bind_eq_ok.1 h
    obtain ⟨_, -, h⟩ := bind_eq_ok.1 h
    obtain ⟨count, hcount, h⟩ := bind_eq_ok.1 h
    obtain ⟨_, hroom, h⟩ := bind_eq_ok.1 h
    obtain ⟨weights, hweights, h⟩ := bind_eq_ok.1 h
    have hdim := require_eq_ok.1 hdim
    rw [hsize] at hcount
    obtain ⟨-, rfl⟩ := Size.pow_eq_ok.1 hcount
    rw [tabulate_weightAt hw hp hdim] at hweights
    obtain rfl := Except.ok.inj hweights
    exact ⟨hdim, Size.reserve_eq_ok.1 hroom, (Except.ok.inj h).symm⟩
  · rintro ⟨hdim, hroom, rfl⟩
    have hcount : Size.pow rule.weights.toArray.size dim = .ok (n ^ dim) :=
      Size.pow_eq_ok.2 ⟨hsize ▸ Size.lt_bound (lt_of_bytes hroom), by rw [hsize]⟩
    exact bind_eq_ok.2 ⟨(), require_eq_ok.2 hdim, bind_eq_ok.2 ⟨(), require_eq_ok.2 hpaired,
      bind_eq_ok.2 ⟨_, hcount, bind_eq_ok.2 ⟨(), Size.reserve_eq_ok.2 hroom,
        bind_eq_ok.2 ⟨_, tabulate_weightAt hw hp hdim, rfl⟩⟩⟩⟩⟩

/-! ### Gauss rules -/

omit [Mul α] in
theorem convert_eq (xs : List Float) : (convert xs : Array Float) = xs.toArray :=
  congrArg List.toArray (List.map_id xs)

omit [Mul α] in
theorem productWeights_eq (rule : Rule Float 1) (hdim : 2 ≤ dim ∧ dim ≤ 3) :
    productWeights dim rule =
      (Rule.reserveProduct Float dim rule.weights.length >>= fun _ =>
        .ok (rule.tensorWeights dim)) := by
  obtain rfl | rfl : dim = 2 ∨ dim = 3 := by omega
  · simp only [productWeights, Rule.onSquare, bind_assoc, pure_bind]
    rfl
  · simp only [productWeights, Rule.onCube, bind_assoc, pure_bind]
    rfl

omit [Mul α] in
/-- The weights of a tensor Gauss rule are made where there is room for the points. -/
theorem productWeights_eq_ok {rule : Rule Float 1} {weights : List Float}
    (hw : rule.weights.length = n) :
    productWeights dim rule = .ok weights ↔
      (1 ≤ dim ∧ dim ≤ 3) ∧ (dim = 1 ∨ dim * Stored.bytes Float * n ^ dim < Size.bufferBound) ∧
        weights = rule.tensorWeights dim := by
  by_cases hdim : 2 ≤ dim ∧ dim ≤ 3
  · have hreserve := reserveProduct_eq_ok (α := Float) (n := n) (Nat.zero_lt_of_lt hdim.1)
    rw [productWeights_eq rule hdim, hw, checked_eq_ok, hreserve]
    constructor
    · rintro ⟨hroom, h⟩
      exact ⟨⟨Nat.le_of_lt hdim.1, hdim.2⟩, .inr hroom, h⟩
    · rintro ⟨-, hroom, h⟩
      exact ⟨hroom.resolve_left (Nat.ne_of_gt hdim.1), h⟩
  · match dim with
    | 0 => exact ⟨fun h => (nomatch h), fun h => absurd h.1.1 (by decide)⟩
    | 1 =>
      refine ⟨fun h => ⟨by decide, .inl rfl, (Except.ok.inj h).symm⟩, ?_⟩
      rintro ⟨-, -, rfl⟩
      rfl
    | 2 | 3 => exact absurd (by decide) hdim
    | _ + 4 => exact ⟨fun h => (nomatch h), fun h => absurd h.1.2 (by omega)⟩

omit [Mul α] in
/-- **A tensor Gauss rule in double precision** is the tensor rule of the interval Gauss rule, where
there is room for its points. -/
theorem gauss_eq_ok {t : TensorRule Float} :
    gauss dim n = .ok t ↔
      (1 ≤ dim ∧ dim ≤ 3) ∧ 0 < n ∧ dim * Stored.bytes Float * n ^ dim < Size.bufferBound ∧
        ∃ rule, Rule.gauss RootSearch.double n = .ok rule ∧
          ofInterval dim rule.abscissas.toArray rule.weights.toArray = .ok t := by
  rw [gauss_eq]
  constructor
  · intro h
    obtain ⟨_, hn, h⟩ := bind_eq_ok.1 h
    obtain ⟨rule, hrule, h⟩ := bind_eq_ok.1 h
    obtain ⟨weights, hweights, h⟩ := bind_eq_ok.1 h
    obtain rfl := Except.ok.inj h
    have hn : 0 < n := require_eq_ok.1 hn
    obtain ⟨hw, hp⟩ := Rule.length_gauss hrule
    obtain ⟨hdim, hroom, rfl⟩ := (productWeights_eq_ok hw).1 hweights
    have hpoints : dim * Stored.bytes Float * n ^ dim < Size.bufferBound := by
      rcases hroom with rfl | hroom
      · rw [Nat.one_mul, Nat.pow_one]
        exact (Rule.gauss_eq_ok.1 hrule).2.1
      · exact hroom
    refine ⟨hdim, hn, hpoints, rule, hrule, (ofInterval_eq_ok hw hp).2 ⟨hdim, ?_, ?_⟩⟩
    · exact Nat.lt_of_le_of_lt (Nat.mul_le_mul_right _ (Nat.le_mul_of_pos_left _ hdim.1)) hpoints
    · simp only [convert_eq]
  · rintro ⟨hdim, hn, hroom, rule, hrule, ht⟩
    obtain ⟨hw, hp⟩ := Rule.length_gauss hrule
    obtain ⟨-, -, rfl⟩ := (ofInterval_eq_ok hw hp).1 ht
    refine bind_eq_ok.2 ⟨(), require_eq_ok.2 hn, bind_eq_ok.2 ⟨rule, hrule, bind_eq_ok.2 ⟨_,
      (productWeights_eq_ok hw).2 ⟨hdim, .inr hroom, rfl⟩, ?_⟩⟩⟩
    simp only [convert_eq]
    rfl

omit [Mul α] in
/-- **All ways to make the points of a tensor rule agree**, in order and bit for bit.  Take an
interval rule with the points `x` and the weights `w`, `n` of each.  Its tensor rule has, where
there is room for them, the weights of the interval rule, of its square or of its cube.  There are
`n ^ dim` of them; the one at `qx + n * (qy + n * qz)` is `(w qx * w qy) * w qz`, the product over
the axes that there are, and belongs to the point `(x qx, x qy, x qz)`.  Hence a tensor Gauss rule
in double precision is the tensor rule of the interval Gauss rule with as many points. -/
theorem tensorizations_agree :
    (∀ (α : Type) [Mul α] [Stored α] (rule : Rule α 1) (n : Nat), rule.weights.length = n →
      rule.points.length = n →
      (∀ dim t, ofInterval dim rule.abscissas.toArray rule.weights.toArray = .ok t ↔
        (1 ≤ dim ∧ dim ≤ 3) ∧ Stored.bytes α * n ^ dim < Size.bufferBound ∧
          t = ⟨dim, rule.abscissas.toArray, rule.weights.toArray,
            (rule.tensorWeights dim).toArray⟩) ∧
      (∀ dim, 1 ≤ dim ∧ dim ≤ 3 → (rule.tensorWeights dim).length = n ^ dim) ∧
      rule.square.points.length = n ^ 2 ∧ rule.cube.points.length = n ^ 3 ∧
      ∃ x w : Fin n → α, rule = Rule.ofFn x w ∧ ∀ qx qy qz : Fin n,
        (rule.tensorWeights 1)[qx.val]? = some (w qx) ∧
        (rule.tensorWeights 2)[qx + n * qy]? = some (w qx * w qy) ∧
        (rule.tensorWeights 3)[qx + n * (qy + n * qz)]? = some (w qx * w qy * w qz) ∧
        rule.points[qx.val]? = some #v[x qx] ∧
        rule.square.points[qx + n * qy]? = some #v[x qx, x qy] ∧
        rule.cube.points[qx + n * (qy + n * qz)]? = some #v[x qx, x qy, x qz]) ∧
    ∀ dim n (t : TensorRule Float), gauss dim n = .ok t ↔
      (1 ≤ dim ∧ dim ≤ 3) ∧ 0 < n ∧ dim * Stored.bytes Float * n ^ dim < Size.bufferBound ∧
        ∃ rule, Rule.gauss RootSearch.double n = .ok rule ∧
          ofInterval dim rule.abscissas.toArray rule.weights.toArray = .ok t := by
  refine ⟨?_, fun dim n t => gauss_eq_ok⟩
  intro α _ _ rule n hw hp
  obtain ⟨hsquare, hcube⟩ := Rule.length_points (Rule.length_pairs hw hp)
  refine ⟨fun dim t => ofInterval_eq_ok hw hp, fun dim => Rule.length_tensorWeights hw hp, hsquare,
    hcube, ?_⟩
  obtain ⟨x, w, rfl⟩ := Rule.eq_ofFn hw hp
  refine ⟨x, w, rfl, fun qx qy qz => ?_⟩
  have hweight : (List.ofFn w)[qx.val]? = some (w qx) := by simp
  have hpoint : (List.ofFn fun q => #v[x q])[qx.val]? = some #v[x qx] := by simp
  obtain ⟨hweight₂, hpoint₂⟩ := Rule.square_at x w qx qy
  obtain ⟨hweight₃, hpoint₃⟩ := Rule.cube_at x w qx qy qz
  exact ⟨hweight, hweight₂, hweight₃, hpoint, hpoint₂, hpoint₃⟩

/-- Room for a product is counted as for a double. -/
instance : Stored (FreeMagma Nat) := ⟨Stored.bytes Float, Stored.bytes_pos, Stored.bytes_le⟩

/-- Two points and two weights that are multiplied without any law. -/
def lawless : Rule (FreeMagma Nat) 1 :=
  ⟨[.of 0, .of 1], [#v[.of 2], #v[.of 3]]⟩

/-- The cube of two points without any law has eight weights.  The order of the factors tells the
axes apart: x comes first, and is the one that varies fastest. -/
theorem tensorizations_agree_lawless :
    ∃ t, ofInterval 3 lawless.abscissas.toArray lawless.weights.toArray = .ok t ∧
      t.weights.size = 8 ∧ t.weights[1]? = some (.of 1 * .of 0 * .of 0) ∧
      lawless.cube.points[1]? = some #v[.of 3, .of 2, .of 2] := by
  obtain ⟨hrule, -⟩ := tensorizations_agree
  obtain ⟨hmade, hcount, -, -, x, w, hlawless, hentries⟩ :=
    hrule (FreeMagma Nat) lawless 2 rfl rfl
  have hw : lawless.weights = List.ofFn w := congrArg Rule.weights hlawless
  have hx : lawless.abscissas = List.ofFn x := by rw [hlawless, Rule.abscissas_ofFn]
  obtain ⟨hw₀, hw₁⟩ : .of 0 = w 0 ∧ .of 1 = w 1 := by simpa [lawless] using hw
  obtain ⟨hx₀, hx₁⟩ : .of 2 = x 0 ∧ .of 3 = x 1 := by simpa [lawless, Rule.abscissas] using hx
  obtain ⟨-, -, hweight, -, -, hpoint⟩ := hentries 1 0 0
  rw [← hw₀, ← hw₁] at hweight
  rw [← hx₀, ← hx₁] at hpoint
  refine ⟨_, (hmade 3 _).2 ⟨by decide, by decide, rfl⟩, ?_, ?_, hpoint⟩
  · rw [List.size_toArray, hcount 3 (by decide)]
    rfl
  · rw [List.getElem?_toArray]
    exact hweight

end TensorRule

end TensorDiffusion
