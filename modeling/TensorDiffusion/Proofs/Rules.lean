import TensorDiffusion.Proofs.Views
import TensorDiffusion.Quadrature.TensorRule

/-!
# Tensor rules

A tensor rule that was made by one of its constructors has a weight for every tensor point
(`TensorRule.Built.size_weights`).  The default rule is made wherever its points can be counted
(`TensorRule.forDiffusion_ok`), and is never refused (`TensorRule.forDiffusion_neverRefuses`).
-/

namespace TensorDiffusion

variable {α : Type}

/-- A buffer that was tabulated has an entry for every index, the one that was made for it. -/
theorem slot_of_tabulate {β : Type} {n : Nat} {f : Nat → Except Fault β} {buf : Array β}
    (h : tabulate n f = .ok buf) : buf.size = n ∧ ∀ k < n, slot buf k = f k := by
  rw [tabulate, sweep_eq_foldlM] at h
  induction n generalizing buf with
  | zero =>
    obtain rfl := Except.ok.inj h
    exact ⟨rfl, fun k hk => absurd hk (Nat.not_lt_zero k)⟩
  | succ n ih =>
    rw [List.range_succ, List.foldlM_append, bind_eq_ok] at h
    obtain ⟨first, hfirst, hlast⟩ := h
    rw [List.foldlM_cons, bind_eq_ok] at hlast
    obtain ⟨_, hpush, hlast⟩ := hlast
    obtain ⟨v, hv, hpush⟩ := bind_eq_ok.1 hpush
    obtain rfl := Except.ok.inj hpush
    obtain rfl := Except.ok.inj hlast
    obtain ⟨hsize, hslot⟩ := ih hfirst
    refine ⟨by rw [Array.size_push, hsize], fun k hk => ?_⟩
    have hpushed : k < (first.push v).size := by rwa [Array.size_push, hsize]
    rw [slot_eq hpushed]
    rcases Nat.lt_succ_iff_lt_or_eq.1 hk with hlt | rfl
    · rw [Array.getElem_push_lt (hsize ▸ hlt), ← hslot k hlt, slot_eq]
    · rw [hv]
      subst hsize
      rw [Array.getElem_push_eq]

theorem size_of_tabulate {β : Type} {n : Nat} {f : Nat → Except Fault β} {buf : Array β}
    (h : tabulate n f = .ok buf) : buf.size = n :=
  (slot_of_tabulate h).1

/-! ### Computations that never refuse -/

/-- A computation that returns or reports a broken precondition. -/
def NeverRefuses {β : Type} (m : Except Fault β) : Prop :=
  ∀ cause, m ≠ .error (.refused cause)

namespace NeverRefuses

variable {β γ : Type}

theorem ok (a : β) : NeverRefuses (.ok a) :=
  fun _ h => nomatch h

theorem violate (cause : Violation) : NeverRefuses (violate cause : Except Fault β) :=
  fun _ h => nomatch h

theorem bind {m : Except Fault β} {f : β → Except Fault γ} (hm : NeverRefuses m)
    (hf : ∀ a, m = .ok a → NeverRefuses (f a)) : NeverRefuses (m >>= f) := by
  intro cause h
  cases hrun : m with
  | ok a =>
    rw [hrun] at h
    exact hf a hrun cause h
  | error fault =>
    rw [hrun] at h
    cases h
    exact hm cause hrun

theorem require {p : Prop} [Decidable p] (cause : Violation) : NeverRefuses (require p cause) := by
  unfold TensorDiffusion.require
  split
  · exact .ok ()
  · exact .violate cause

theorem reserve (width count : Nat) : NeverRefuses (Size.reserve width count) :=
  .require _

theorem fit (n : Nat) (cause : Violation) : NeverRefuses (Size.fit n cause) := by
  unfold Size.fit
  split
  · exact .ok n
  · exact .violate cause

theorem sub (a b : Nat) : NeverRefuses (Size.sub a b) := by
  unfold Size.sub
  split
  · exact .ok _
  · exact .violate _

theorem foldlM_mul (sizes : List Nat) (a : Nat) : NeverRefuses (sizes.foldlM Size.mul a) := by
  induction sizes generalizing a with
  | nil => exact .ok a
  | cons n sizes ih =>
    rw [List.foldlM_cons]
    exact .bind (.fit _ _) fun b _ => ih b

/-- A fault that is no refusal is a violation. -/
theorem error_eq {m : Except Fault β} {fault : Fault} (hm : NeverRefuses m)
    (h : m = .error fault) : ∃ cause, fault = .violated cause := by
  cases fault with
  | refused cause => exact absurd h (hm cause)
  | violated cause => exact ⟨cause, rfl⟩

end NeverRefuses

/-- What is returned after a check is returned where the check passes. -/
theorem checked_eq_ok {β : Type} {check : Except Fault Unit} {a b : β} :
    (check >>= fun _ => Except.ok a) = .ok b ↔ check = .ok () ∧ b = a := by
  constructor
  · intro h
    obtain ⟨_, hcheck, h⟩ := bind_eq_ok.1 h
    exact ⟨hcheck, (Except.ok.inj h).symm⟩
  · rintro ⟨hcheck, rfl⟩
    exact bind_eq_ok.2 ⟨(), hcheck, rfl⟩

/-! ### Interval rules and their products -/

section

variable {β : Type} {f : β → β} {n : Nat} {half : List β}

/-- The list of `n` entries that ends in the reverse of `half` and starts with the images of these
entries, without that of the middle one. -/
def reflect (f : β → β) (n : Nat) (half : List β) : List β :=
  (half ++ (half.take (n - (n + 1) / 2)).reverse.map f).reverse

theorem length_reflect (hhalf : half.length = (n + 1) / 2) : (reflect f n half).length = n := by
  simp only [reflect, List.length_reverse, List.length_append, List.length_map, List.length_take,
    hhalf]
  omega

end

namespace Rule

theorem length_pairs {d : Nat} {rule : Rule α d} {n : Nat} (hw : rule.weights.length = n)
    (hp : rule.points.length = n) : rule.pairs.length = n := by
  rw [pairs, List.length_zip, hw, hp, Nat.min_self]

section

variable [Mul α] {rule : Rule α 1} {n : Nat}

theorem length_square (h : rule.pairs.length = n) : rule.square.weights.length = n ^ 2 := by
  simp [square, h, Nat.pow_two, List.map_const']

theorem length_cube (h : rule.pairs.length = n) : rule.cube.weights.length = n ^ 3 := by
  simp [cube, h, Nat.pow_succ, Nat.mul_assoc, List.map_const']

end

variable [NatCast α] [Zero α] [One α] [Add α] [Sub α] [Mul α] [Div α] [Neg α] [Stored α]

/-- The Gauss rule with `n` points, whatever room it needs: the larger roots, and the smaller ones
as their negatives. -/
def mirrored (search : RootSearch α) (n : Nat) : Rule α 1 :=
  let roots := (List.range ((n + 1) / 2)).map (gaussRoot search n)
  let weights := roots.map (gaussWeight n)
  let points := roots ++ ((roots.take (n - (n + 1) / 2)).reverse.map fun x => -x)
  ⟨(weights ++ (weights.take (n - (n + 1) / 2)).reverse).reverse,
    points.reverse.map Vector.singleton⟩

omit [Stored α] in
theorem mirrored_eq_reflect (search : RootSearch α) (n : Nat) :
    let roots := (List.range ((n + 1) / 2)).map (gaussRoot search n)
    mirrored search n = ⟨reflect id n (roots.map (gaussWeight n)),
      (reflect (fun x => -x) n roots).map Vector.singleton⟩ := by
  intro roots
  rw [reflect, reflect, List.map_id]
  rfl

/-- A Gauss rule is made where there is room for it. -/
theorem requestGauss_eq_ok {search : RootSearch α} {n : Nat} {rule : Rule α 1} :
    requestGauss search n = .ok rule ↔
      n ≠ 0 ∧ Stored.bytes α * n < Size.bufferBound ∧ rule = mirrored search n := by
  constructor
  · intro h
    obtain ⟨_, hn, h⟩ := bind_eq_ok.1 h
    obtain ⟨m, hm, h⟩ := bind_eq_ok.1 h
    obtain ⟨-, rfl⟩ := Size.add_eq_ok.1 hm
    obtain ⟨_, hroom, h⟩ := bind_eq_ok.1 h
    exact ⟨insist_eq_ok.1 hn, Size.reserve_eq_ok.1 hroom, (Except.ok.inj h).symm⟩
  · rintro ⟨hn, hroom, rfl⟩
    have hsum : n + 1 < Size.bound := by
      have hlt := lt_of_bytes hroom
      have hbound : Size.bufferBound < Size.bound := by decide
      omega
    exact bind_eq_ok.2 ⟨(), insist_eq_ok.2 hn, bind_eq_ok.2 ⟨_, Size.add_eq_ok.2 ⟨hsum, rfl⟩,
      bind_eq_ok.2 ⟨(), Size.reserve_eq_ok.2 hroom, rfl⟩⟩⟩

theorem exists_requestGauss {search : RootSearch α} {n : Nat} (hn : n ≠ 0) :
    (∃ rule, requestGauss search n = .ok rule) ↔ Stored.bytes α * n < Size.bufferBound := by
  constructor
  · rintro ⟨rule, hrule⟩
    exact (requestGauss_eq_ok.1 hrule).2.1
  · intro hroom
    exact ⟨_, requestGauss_eq_ok.2 ⟨hn, hroom, rfl⟩⟩

theorem gauss_eq_ok {search : RootSearch α} {n : Nat} {rule : Rule α 1} :
    gauss search n = .ok rule ↔
      n ≠ 0 ∧ Stored.bytes α * n < Size.bufferBound ∧ rule = mirrored search n := by
  constructor
  · intro h
    obtain ⟨_, -, h⟩ := bind_eq_ok.1 h
    exact requestGauss_eq_ok.1 h
  · intro h
    exact bind_eq_ok.2 ⟨(), require_eq_ok.2 h.1, requestGauss_eq_ok.2 h⟩

/-- A Gauss rule has as many points and weights as were asked for. -/
theorem length_gauss {search : RootSearch α} {n : Nat} {rule : Rule α 1}
    (h : gauss search n = .ok rule) : rule.weights.length = n ∧ rule.points.length = n := by
  obtain ⟨-, -, rfl⟩ := gauss_eq_ok.1 h
  rw [mirrored_eq_reflect]
  refine ⟨length_reflect ?_, ?_⟩
  · rw [List.length_map, List.length_map, List.length_range]
  · rw [List.length_map, length_reflect (by rw [List.length_map, List.length_range])]

theorem gauss_ok (search : RootSearch α) {n : Nat} (hn : 0 < n)
    (hroom : Stored.bytes α * n < Size.bufferBound) : ∃ rule, gauss search n = .ok rule :=
  ⟨_, gauss_eq_ok.2 ⟨Nat.ne_of_gt hn, hroom, rfl⟩⟩

end Rule

/-! ### Tensor rules -/

namespace TensorRule

/-- Rules that are made by one of the constructors. -/
inductive Built [Mul α] [Stored α] [OfDouble α] (rule : TensorRule α) : Prop where
  | ofInterval {dim : Nat} {points1d weights1d : Array α}
      (h : ofInterval dim points1d weights1d = .ok rule)
  | gauss {dim n : Nat} (h : gauss dim n = .ok rule)
  | lobatto {dim n : Nat} (h : requestLobatto dim n = .ok rule)

/-- A rule from an interval rule has a weight for every tensor point. -/
theorem size_of_ofInterval [Mul α] [Stored α] {dim : Nat} {points1d weights1d : Array α}
    {rule : TensorRule α} (h : ofInterval dim points1d weights1d = .ok rule) :
    rule.weights.size = rule.numPoints1d ^ rule.dim := by
  obtain ⟨_, -, h⟩ := bind_eq_ok.1 h
  obtain ⟨_, hpaired, h⟩ := bind_eq_ok.1 h
  obtain ⟨count, hcount, h⟩ := bind_eq_ok.1 h
  obtain ⟨_, -, h⟩ := bind_eq_ok.1 h
  obtain ⟨weights, hweights, h⟩ := bind_eq_ok.1 h
  obtain rfl := Except.ok.inj h
  rw [size_of_tabulate hweights, ← (Size.pow_eq_ok.1 hcount).2, numPoints1d,
    require_eq_ok.1 hpaired]

section

variable [OfDouble α] {dim n : Nat} {rule : TensorRule α}

theorem size_convert (xs : List Float) : (convert xs : Array α).size = xs.length := by
  rw [convert, List.size_toArray, List.length_map]

/-- The weights of the tensor points, for the dimensions of tensor rules. -/
def productWeights (dim : Nat) (rule : Rule Float 1) : Except Fault (List Float) :=
  match dim with
  | 1 => .ok rule.weights
  | 2 => return (← rule.onSquare).weights
  | 3 => return (← rule.onCube).weights
  | _ => violate (.gaussDimension dim)

theorem gauss_eq (dim n : Nat) : (gauss dim n : Except Fault (TensorRule α)) = (do
    require (0 < n) .noPoints
    let rule ← Rule.gauss RootSearch.double n
    let weights ← productWeights dim rule
    return ⟨dim, convert rule.abscissas, convert rule.weights, convert weights⟩) := by
  match dim with
  | 0 | 1 | _ + 4 => rfl
  | 2 => simp only [gauss, productWeights, bind_assoc, pure_bind]
  | 3 => simp only [gauss, productWeights, bind_assoc, pure_bind]

theorem length_productWeights {interval : Rule Float 1} {weights : List Float}
    (hw : interval.weights.length = n) (hp : interval.points.length = n)
    (h : productWeights dim interval = .ok weights) : weights.length = n ^ dim := by
  have hpairs := Rule.length_pairs hw hp
  match dim with
  | 1 =>
    obtain rfl := Except.ok.inj h
    rw [hw, Nat.pow_one]
  | 2 =>
    obtain ⟨_, hsquare, h⟩ := bind_eq_ok.1 h
    obtain ⟨_, -, hsquare⟩ := bind_eq_ok.1 hsquare
    obtain rfl := Except.ok.inj hsquare
    obtain rfl := Except.ok.inj h
    exact Rule.length_square hpairs
  | 3 =>
    obtain ⟨_, hcube, h⟩ := bind_eq_ok.1 h
    obtain ⟨_, -, hcube⟩ := bind_eq_ok.1 hcube
    obtain rfl := Except.ok.inj hcube
    obtain rfl := Except.ok.inj h
    exact Rule.length_cube hpairs
  | 0 | _ + 4 => exact nomatch h

/-- A Gauss rule is of the dimension and has the points that were asked for, and a weight for every
tensor point. -/
theorem sizes_of_gauss (h : gauss dim n = .ok rule) :
    rule.dim = dim ∧ rule.numPoints1d = n ∧ rule.weights.size = n ^ dim := by
  rw [gauss_eq] at h
  obtain ⟨_, -, h⟩ := bind_eq_ok.1 h
  obtain ⟨interval, hinterval, h⟩ := bind_eq_ok.1 h
  obtain ⟨weights, hweights, h⟩ := bind_eq_ok.1 h
  obtain rfl := Except.ok.inj h
  obtain ⟨hw, hp⟩ := Rule.length_gauss hinterval
  refine ⟨rfl, ?_, ?_⟩
  · rw [numPoints1d, size_convert, Rule.abscissas, List.length_map, hp]
  · rw [size_convert, length_productWeights hw hp hweights]

/-! ### The default rule -/

omit [OfDouble α] in
/-- Room for a product is room for its points. -/
theorem reserveProduct_eq_ok [Stored α] (hdim : 0 < dim) :
    Rule.reserveProduct α dim n = .ok () ↔
      dim * Stored.bytes α * n ^ dim < Size.bufferBound := by
  constructor
  · intro h
    obtain ⟨count, hcount, h⟩ := bind_eq_ok.1 h
    obtain ⟨_, -, hpoints⟩ := bind_eq_ok.1 h
    obtain rfl := Size.product_eq hcount
    rw [volume_replicate] at hpoints
    exact Size.reserve_eq_ok.1 hpoints
  · intro hroom
    have hweights : Stored.bytes α * n ^ dim < Size.bufferBound :=
      Nat.lt_of_le_of_lt (Nat.mul_le_mul_right _ (Nat.le_mul_of_pos_left _ hdim)) hroom
    have hvolume : nonemptyVolume (List.replicate dim n) < Size.bound := by
      rw [nonemptyVolume_replicate]
      rcases Nat.eq_zero_or_pos n with rfl | hn
      · rw [Nat.max_zero, Nat.one_pow]
        decide
      · rw [Nat.max_eq_right hn]
        exact Size.lt_bound (lt_of_bytes hweights)
    have hcount : Size.product (List.replicate dim n) = .ok (n ^ dim) := by
      rw [Size.product_ok hvolume, volume_replicate]
    exact bind_eq_ok.2 ⟨_, hcount, bind_eq_ok.2 ⟨(), Size.reserve_eq_ok.2 hweights,
      Size.reserve_eq_ok.2 hroom⟩⟩

theorem reserveProduct_ok (hdim : 1 ≤ dim ∧ dim ≤ 3) (hfits : n ^ dim < 2 ^ 56) :
    Rule.reserveProduct Float dim n = .ok () := by
  have hwide : dim * Stored.bytes Float ≤ 24 := Nat.mul_le_mul_right 8 hdim.2
  exact (reserveProduct_eq_ok hdim.1).2
    (Size.bytes_mul_lt (Nat.le_trans hwide (by decide)) hfits)

/-- A Gauss rule is made where its points can be counted. -/
theorem gauss_ok (hn : 0 < n) (hdim : 1 ≤ dim ∧ dim ≤ 3) (hfits : n ^ dim < 2 ^ 56) :
    ∃ rule : TensorRule α, gauss dim n = .ok rule := by
  have hle : n ≤ n ^ dim := Nat.le_self_pow (by omega) n
  have hroom : Stored.bytes Float * n < Size.bufferBound :=
    Size.bytes_mul_lt (by decide) (Nat.lt_of_le_of_lt hle hfits)
  obtain ⟨interval, hinterval⟩ := Rule.gauss_ok RootSearch.double hn hroom
  have hreserve := reserveProduct_ok hdim hfits
  rw [← (Rule.length_gauss hinterval).1] at hreserve
  have hweights : ∃ weights, productWeights dim interval = .ok weights := by
    obtain rfl | rfl | rfl : dim = 1 ∨ dim = 2 ∨ dim = 3 := by omega
    · exact ⟨_, rfl⟩
    · exact ⟨_, bind_eq_ok.2 ⟨_, bind_eq_ok.2 ⟨(), hreserve, rfl⟩, rfl⟩⟩
    · exact ⟨_, bind_eq_ok.2 ⟨_, bind_eq_ok.2 ⟨(), hreserve, rfl⟩, rfl⟩⟩
  obtain ⟨weights, hweights⟩ := hweights
  rw [gauss_eq]
  exact ⟨_, bind_eq_ok.2 ⟨(), require_eq_ok.2 hn, bind_eq_ok.2 ⟨_, hinterval,
    bind_eq_ok.2 ⟨_, hweights, rfl⟩⟩⟩⟩

theorem productWeights_neverRefuses (interval : Rule Float 1) :
    NeverRefuses (productWeights dim interval) := by
  have hreserve (k : Nat) : NeverRefuses (Rule.reserveProduct Float k interval.weights.length) :=
    .bind (.foldlM_mul _ _) fun _ _ => .bind (.reserve _ _) fun _ _ => .reserve _ _
  match dim with
  | 1 => exact .ok _
  | 2 => exact .bind (.bind (hreserve 2) fun _ _ => .ok _) fun _ _ => .ok _
  | 3 => exact .bind (.bind (hreserve 3) fun _ _ => .ok _) fun _ _ => .ok _
  | 0 | _ + 4 => exact .violate _

/-- A Gauss rule is never refused: that there is a point is checked before. -/
theorem gauss_neverRefuses : NeverRefuses (gauss dim n : Except Fault (TensorRule α)) := by
  rw [gauss_eq]
  refine .bind (.require _) fun _ hn => .bind (.bind (.require _) fun _ _ => ?_) fun interval _ =>
    .bind (productWeights_neverRefuses interval) fun _ _ => .ok _
  have hn : n ≠ 0 := Nat.ne_of_gt (require_eq_ok.1 hn)
  rw [Rule.requestGauss, insist_eq_ok.2 hn]
  exact .bind (.ok ()) fun _ _ => .bind (.fit _ _) fun _ _ => .bind (.reserve _ _) fun _ _ => .ok _

theorem diffusionPoints1d_neverRefuses (dim order : Nat) :
    NeverRefuses (diffusionPoints1d dim order) :=
  .bind (.fit _ _) fun _ _ => .bind (.fit _ _) fun _ _ => .bind (.sub _ _) fun _ _ => .ok _

theorem forDiffusion_neverRefuses (dim order : Nat) :
    NeverRefuses (forDiffusion dim order : Except Fault (TensorRule α)) :=
  .bind (diffusionPoints1d_neverRefuses dim order) fun _ _ => gauss_neverRefuses

/-- The points per axis of the default rule. -/
def defaultPoints (dim order : Nat) : Nat :=
  (2 * order + dim - 1) / 2 + 1

theorem diffusionPoints1d_ok {order : Nat} (hdim : 1 ≤ dim) (hfits : 2 * order + dim < Size.bound) :
    diffusionPoints1d dim order = .ok (defaultPoints dim order) := by
  have hmul : Size.mul 2 order = .ok (2 * order) := Size.mul_eq_ok.2 ⟨by omega, rfl⟩
  have hadd : Size.add (2 * order) dim = .ok (2 * order + dim) := Size.add_eq_ok.2 ⟨hfits, rfl⟩
  have hsub : Size.sub (2 * order + dim) 1 = .ok (2 * order + dim - 1) :=
    Size.sub_eq_ok.2 ⟨by omega, rfl⟩
  rw [diffusionPoints1d, hmul, ok_bind, hadd, ok_bind, hsub]
  rfl

/-- **The default rule** is made where its points can be counted. -/
theorem forDiffusion_ok {order : Nat} (hdim : 1 ≤ dim ∧ dim ≤ 3)
    (hsum : 2 * order + dim < Size.bound) (hfits : defaultPoints dim order ^ dim < 2 ^ 56) :
    ∃ rule : TensorRule α, forDiffusion dim order = .ok rule := by
  obtain ⟨rule, hrule⟩ := gauss_ok (α := α) (Nat.succ_pos _) hdim hfits
  exact ⟨rule, bind_eq_ok.2 ⟨_, diffusionPoints1d_ok hdim.1 hsum, hrule⟩⟩

end

/-- **A rule as it is made** has a weight for every tensor point. -/
theorem Built.size_weights [Mul α] [Stored α] [OfDouble α] {rule : TensorRule α}
    (h : rule.Built) : rule.weights.size = rule.numPoints1d ^ rule.dim := by
  cases h with
  | ofInterval h => exact size_of_ofInterval h
  | gauss h =>
    obtain ⟨hdim, hpoints, hweights⟩ := sizes_of_gauss h
    rw [hdim, hpoints, hweights]
  | lobatto h =>
    obtain ⟨interval, -, h⟩ := bind_eq_ok.1 h
    exact size_of_ofInterval h

end TensorRule

end TensorDiffusion
