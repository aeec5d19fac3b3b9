import TensorDiffusion.Geometry.Interpolation
import TensorDiffusion.Proofs.Bilinear
import TensorDiffusion.Proofs.Elements
import TensorDiffusion.Proofs.InPlace

/-!
# Interpolation, in closed form

The interpolation of an element fills every entry of its chunk with a value that depends on the
nodes of the element and on the tables only (`interpolateFace_ok`, `interpolateCell_ok`).  Every loop
fills its buffers from the first entry on, so what a buffer holds is known up to some position, and
what the scratch buffer held before is of no account.  No law of arithmetic is used.
-/

namespace TensorDiffusion

variable {α β : Type}

/-! ### Buffers that are filled -/

/-- The first `k` entries of a buffer of `n` are those of `f`. -/
structure FilledTo (k n : Nat) (f : Nat → β) (buf : Array β) : Prop where
  size_eq : buf.size = n
  slot_eq : ∀ i < k, slot buf i = .ok (f i)

theorem filledTo_zero {buf : Array β} {n : Nat} (f : Nat → β) (h : buf.size = n) :
    FilledTo 0 n f buf :=
  ⟨h, fun i hi => absurd hi (Nat.not_lt_zero i)⟩

theorem FilledTo.put {k n : Nat} {f : Nat → β} {buf : Array β} (h : FilledTo k n f buf)
    (hk : k < n) : ∃ buf', put buf k (f k) = .ok buf' ∧ FilledTo (k + 1) n f buf' := by
  have hlt : k < buf.size := h.size_eq ▸ hk
  refine ⟨buf.set k (f k), dif_pos hlt, by rw [Array.size_set, h.size_eq], fun i hi => ?_⟩
  have hi' : i < (buf.set k (f k)).size := by rw [Array.size_set]; omega
  rw [TensorDiffusion.slot_eq hi', Array.getElem_set]
  split
  · next heq => rw [heq]
  · next hne =>
    have hilt : i < k := by omega
    have hentry := h.slot_eq i hilt
    rwa [TensorDiffusion.slot_eq (by omega)] at hentry

/-! ### Contractions -/

namespace Interpolation

variable [Zero α] [Add α] [Mul α]

/-- The sum over an axis of a row of a table, each entry times a term. -/
def rowSum (n : Nat) (table : View α) (row : Nat) (t : Nat → α) : α :=
  leftSum 0 n fun k => table.entry [row, k] * t k

/-- A field on the nodes contracted along x: its value at the point `k % q1d` of the line
`k / q1d`. -/
def alongX (d1d q1d : Nat) (table : View α) (x : Nat → α) (k : Nat) : α :=
  rowSum d1d table (k % q1d) fun dx => x (dx + d1d * (k / q1d))

/-- What is left contracted along y. -/
def alongY (d1d q1d : Nat) (table : View α) (u : Nat → α) (k : Nat) : α :=
  rowSum d1d table (k / q1d % q1d) fun dy =>
    u (k % q1d + q1d * (dy + d1d * (k / (q1d * q1d))))

/-- What is left contracted along z. -/
def alongZ (d1d q1d : Nat) (table : View α) (u : Nat → α) (q : Nat) : α :=
  rowSum d1d table (q / (q1d * q1d)) fun dz => u (q % (q1d * q1d) + q1d * q1d * dz)

/-- A field contracted along all axes, each with a table of its own. -/
def contracted (dim d1d q1d : Nat) (tables : Nat → View α) (x : Nat → α) : Nat → α :=
  if dim = 2 then alongY d1d q1d (tables 1) (alongX d1d q1d (tables 0) x)
  else alongZ d1d q1d (tables 2) (alongY d1d q1d (tables 1) (alongX d1d q1d (tables 0) x))

/-- The value at point `q` of the field with nodal values `x`. -/
def value (dim d1d q1d : Nat) (b : View α) (x : Nat → α) (q : Nat) : α :=
  contracted dim d1d q1d (fun _ => b) x q

/-- The derivative at point `q` along axis `k` of the field with nodal values `x`. -/
def derivative (dim d1d q1d : Nat) (b g : View α) (x : Nat → α) (q k : Nat) : α :=
  contracted dim d1d q1d (fun axis => if axis = k then g else b) x q

section

variable (d1d q1d : Nat) (b g : View α) (x : Nat → α) (q : Nat)

theorem value_two : value 2 d1d q1d b x q = alongY d1d q1d b (alongX d1d q1d b x) q := rfl

theorem derivatives_two : (List.range 2).map (derivative 2 d1d q1d b g x q) =
    [alongY d1d q1d b (alongX d1d q1d g x) q, alongY d1d q1d g (alongX d1d q1d b x) q] := rfl

theorem value_three : value 3 d1d q1d b x q =
    alongZ d1d q1d b (alongY d1d q1d b (alongX d1d q1d b x)) q := rfl

theorem derivatives_three : (List.range 3).map (derivative 3 d1d q1d b g x q) =
    [alongZ d1d q1d b (alongY d1d q1d b (alongX d1d q1d g x)) q,
      alongZ d1d q1d b (alongY d1d q1d g (alongX d1d q1d b x)) q,
      alongZ d1d q1d g (alongY d1d q1d b (alongX d1d q1d b x)) q] := rfl

end

theorem contract_eq {table : View α} {m n row : Nat} {term : Nat → Except Fault α} {t : Nat → α}
    (hs : table.shape = [m, n]) (hrow : row < m) (h : ∀ k < n, term k = .ok (t k)) :
    contract n table row term = .ok (rowSum n table row t) :=
  total_eq fun k hk => by
    rw [View.get_matrix hs hrow hk, ok_bind, h k hk]
    rfl

theorem rowSum_congr {n row : Nat} {table : View α} {t t' : Nat → α} (h : ∀ k < n, t k = t' k) :
    rowSum n table row t = rowSum n table row t' :=
  leftSum_congr 0 fun k hk => by rw [h k hk]

end Interpolation

open Interpolation

/-! ### Chunks -/

/-- The number of entries of a chunk. -/
def ChunkLayout.len (layout : ChunkLayout) : Nat :=
  layout.jacobiansLen + layout.coordinatesLen

section

variable [Zero α] [Add α] [Mul α] {dim d1d q1d : Nat} {b g : View α} {layout : ChunkLayout}
  {x : Nat → Nat → α}

/-- An entry of the coordinates, where coordinate `s` has the nodal values `x s`. -/
def chunkCoordinate (dim d1d q1d : Nat) (b : View α) (layout : ChunkLayout) (x : Nat → Nat → α)
    (p : Nat) : α :=
  value dim d1d q1d b (x (p / layout.nq)) (p % layout.nq)

/-- An entry of the Jacobians. -/
def chunkJacobian (dim d1d q1d : Nat) (b g : View α) (layout : ChunkLayout) (x : Nat → Nat → α)
    (p : Nat) : α :=
  derivative dim d1d q1d b g (x (p / layout.nq % layout.sdim)) (p % layout.nq)
    (p / (layout.nq * layout.sdim))

/-- An entry of a chunk. -/
def interpolated (dim d1d q1d : Nat) (b g : View α) (layout : ChunkLayout) (x : Nat → Nat → α)
    (n : Nat) : α :=
  if n < layout.jacobiansLen then chunkJacobian dim d1d q1d b g layout x n
  else chunkCoordinate dim d1d q1d b layout x (n - layout.jacobiansLen)

end

namespace Targets

open View (Holds Exact)

variable {targets : Targets α} {layout : ChunkLayout} {t q s : Nat} {V D : Nat → α}

/-- A part of a chunk is viewed if it is wanted, and then holds what `P` says. -/
def Part (wanted : Bool) (P : View α → Prop) : Option (View α) → Prop
  | some v => wanted = true ∧ P v
  | none   => wanted = false

/-- The positions with `done` hold the entries of `F`. -/
def HoldsWhere (shape : List Nat) (done : Nat → Prop) (F : Nat → α) (v : View α) : Prop :=
  ∃ f, v.Holds shape f ∧ ∀ p < volume shape, done p → f p = F p

/-- What is stored before step `t`; step `q + nq * s` stores coordinate `s` of the point `q` and its
derivatives along all axes. -/
structure Done (targets : Targets α) (layout : ChunkLayout) (V D : Nat → α) (t : Nat) : Prop where
  coordinates : Part layout.want.coordinates
    (HoldsWhere [layout.nq, layout.sdim] (· < t) V) targets.coordinates
  jacobians : Part layout.want.jacobians
    (HoldsWhere [layout.nq, layout.sdim, layout.dim] (· % (layout.nq * layout.sdim) < t) D)
    targets.jacobians

section

variable {wanted : Bool} {P Q : View α → Prop} {part : Option (View α)} {buf : Array α}
  {shape : List Nat} {F : Nat → α}

/-- A wanted part is viewed. -/
theorem viewPart_ok (wanted : Bool) (P : View α → Prop) (hpos : ∀ n ∈ shape, 0 < n)
    (hsize : wanted → buf.size = volume shape)
    (hfits : wanted → volume shape < Size.bufferBound) (hP : ∀ v : View α, v.Exact shape → P v) :
    ∃ part, viewPart wanted buf shape = .ok part ∧ Part wanted P part := by
  cases wanted with
  | false => exact ⟨none, rfl, rfl⟩
  | true =>
    obtain ⟨v, hv, hexact, -⟩ := View.ofBuffer_exact hpos (hsize rfl) (hfits rfl)
    exact ⟨some v, by rw [viewPart, if_pos rfl, hv]; rfl, rfl, hP v hexact⟩

/-- What is stored in a part is stored if it is wanted. -/
theorem Part.mapM {f : View α → Except Fault (View α)} (h : Part wanted P part)
    (hf : ∀ v, P v → ∃ w, f v = .ok w ∧ Q w) :
    ∃ part', part.mapM f = .ok part' ∧ Part wanted Q part' := by
  cases part with
  | none => exact ⟨none, rfl, h⟩
  | some v =>
    obtain ⟨w, hw, hQ⟩ := hf v h.2
    exact ⟨some w, by rw [Option.mapM_some, hw]; rfl, h.1, hQ⟩

/-- What a part holds in the end. -/
theorem Part.data_eq {done : Nat → Prop} {n : Nat} (h : Part wanted (HoldsWhere shape done F) part)
    (hdone : ∀ p < volume shape, done p) (hn : n = if wanted then volume shape else 0)
    (hsize : buf.size = n) : part.elim buf View.data = Array.ofFn fun p : Fin n => F p := by
  subst hn
  cases part with
  | none =>
    obtain rfl : wanted = false := h
    exact Array.eq_empty_of_size_eq_zero hsize
  | some v =>
    obtain ⟨rfl, f, hf, hF⟩ := h
    exact (hf.congr fun p hp => hF p hp (hdone p hp)).data_eq

end

/-- The derivatives of a coordinate at a point are stored, from axis `first` on. -/
theorem setDerivatives_ok {j : View α} {nq sdim dim first : Nat} {f : Nat → α} {ds : List α}
    (hj : j.Holds [nq, sdim, dim] f) (hq : q < nq) (hs : s < sdim)
    (hlen : first + ds.length ≤ dim) :
    ∃ w, setDerivatives q s first ds j = .ok w ∧ w.Holds [nq, sdim, dim] fun p =>
      if p % (nq * sdim) = q + nq * s then
        View.appliedFrom first (ds.map fun d _ => d) (p / (nq * sdim)) (f p)
      else f p := by
  induction ds generalizing j f first with
  | nil => exact ⟨j, rfl, hj.congr fun p _ => by rw [List.map_nil, View.appliedFrom_nil, ite_self]⟩
  | cons d ds ih =>
    rw [List.length_cons] at hlen
    have hidx : InShape [q, s, first] [nq, sdim, dim] := ⟨hq, hs, by omega, trivial⟩
    have hrest : first + 1 + ds.length ≤ dim := by omega
    obtain ⟨w, hw, hwf⟩ := hj.modify hidx fun _ => d
    obtain ⟨w', hw', hwf'⟩ := ih hwf hrest
    refine ⟨w', by rw [setDerivatives, View.set, hw, ok_bind, hw'], hwf'.congr fun p _ => ?_⟩
    have hplace : InShape [q, s] [nq, sdim] := ⟨hq, hs, trivial⟩
    have hpos : p = flat [q, s, first] [nq, sdim, dim] ↔
        p % (nq * sdim) = q + nq * s ∧ p / (nq * sdim) = first := by
      simpa [flat, volume] using @flat_append_iff [q, s] [first] [nq, sdim] [dim] hplace p
    simp only [hpos]
    by_cases hpoint : p % (nq * sdim) = q + nq * s
    · simp only [hpoint, true_and, if_true, List.map_cons, View.appliedFrom_cons]
    · simp only [hpoint, false_and, if_false]

/-- A coordinate of a point is stored. -/
theorem HoldsWhere.storeCoordinate {c : View α} {nq sdim : Nat}
    (h : HoldsWhere [nq, sdim] (· < q + nq * s) V c) (hq : q < nq) (hs : s < sdim) :
    ∃ w, c.set [q, s] (V (q + nq * s)) = .ok w ∧
      HoldsWhere [nq, sdim] (· < q + nq * s + 1) V w := by
  obtain ⟨f, hf, hdone⟩ := h
  have hidx : InShape [q, s] [nq, sdim] := ⟨hq, hs, trivial⟩
  have hflat : flat [q, s] [nq, sdim] = q + nq * s := by simp [flat]
  obtain ⟨w, hw, hwf⟩ := hf.modify hidx fun _ => V (q + nq * s)
  refine ⟨w, hw, _, hwf, fun p hp hlt => ?_⟩
  rw [hflat]
  rcases Nat.lt_succ_iff_lt_or_eq.1 hlt with hlt | rfl
  · rw [if_neg (Nat.ne_of_lt hlt), hdone p hp hlt]
  · rw [if_pos rfl]

/-- The derivatives of a coordinate of a point are stored. -/
theorem HoldsWhere.storeDerivatives {j : View α} {nq sdim dim : Nat} {d : Nat → α}
    (h : HoldsWhere [nq, sdim, dim] (· % (nq * sdim) < q + nq * s) D j) (hq : q < nq)
    (hs : s < sdim) (hd : ∀ k < dim, d k = D (q + nq * s + nq * sdim * k)) :
    ∃ w, setDerivatives q s 0 ((List.range dim).map d) j = .ok w ∧
      HoldsWhere [nq, sdim, dim] (· % (nq * sdim) < q + nq * s + 1) D w := by
  obtain ⟨f, hf, hdone⟩ := h
  have hlen : 0 + ((List.range dim).map d).length ≤ dim := by simp
  obtain ⟨w, hw, hwf⟩ := setDerivatives_ok hf hq hs hlen
  refine ⟨w, hw, _, hwf, fun p hp hlt => ?_⟩
  rcases Nat.lt_succ_iff_lt_or_eq.1 hlt with hlt | heq
  · rw [if_neg (Nat.ne_of_lt hlt), hdone p hp hlt]
  · have haxis : p / (nq * sdim) < dim := by
      refine div_lt_right ?_
      simpa [volume, Nat.mul_assoc] using hp
    rw [if_pos heq, List.map_map, View.appliedFrom_range _ haxis, Function.comp_apply,
      hd _ haxis, ← heq, Nat.mod_add_div]

/-- **One step of storing.** -/
theorem Done.store (h : targets.Done layout V D (q + layout.nq * s)) (hq : q < layout.nq)
    (hs : s < layout.sdim) {d : Nat → α}
    (hd : ∀ k < layout.dim, d k = D (q + layout.nq * s + layout.nq * layout.sdim * k)) :
    ∃ targets', targets.store q s (V (q + layout.nq * s)) ((List.range layout.dim).map d) =
        .ok targets' ∧
      Targets.Done targets' layout V D (q + layout.nq * s + 1) := by
  obtain ⟨c, hc, hcoordinates⟩ := h.coordinates.mapM fun c hc => hc.storeCoordinate hq hs
  obtain ⟨j, hj, hjacobians⟩ := h.jacobians.mapM fun j hj => hj.storeDerivatives hq hs hd
  refine ⟨⟨j, c⟩, ?_, hcoordinates, hjacobians⟩
  rw [Targets.store, hc, ok_bind, hj, ok_bind]
  rfl

theorem jacobiansLen_eq (layout : ChunkLayout) : layout.jacobiansLen =
    if layout.want.jacobians then volume [layout.nq, layout.sdim, layout.dim] else 0 := by
  simp [ChunkLayout.jacobiansLen, volume, Nat.mul_assoc]

theorem coordinatesLen_eq (layout : ChunkLayout) : layout.coordinatesLen =
    if layout.want.coordinates then volume [layout.nq, layout.sdim] else 0 := by
  simp [ChunkLayout.coordinatesLen, volume]

section

variable {jacobians coordinates : Array α} (hj : jacobians.size = layout.jacobiansLen)
  (hc : coordinates.size = layout.coordinatesLen)

include hj hc

/-- The wanted parts of a chunk are viewed, and nothing is stored yet. -/
theorem ofParts_ok [Zero α] (V D : Nat → α) (hnq : 0 < layout.nq) (hsdim : 0 < layout.sdim)
    (hdim : 0 < layout.dim) (hfits : layout.len < Size.bufferBound) :
    ∃ targets, ofParts layout layout.nq jacobians coordinates = .ok targets ∧
      targets.Done layout V D 0 := by
  rw [ChunkLayout.len, jacobiansLen_eq, coordinatesLen_eq] at hfits
  rw [jacobiansLen_eq] at hj
  rw [coordinatesLen_eq] at hc
  obtain ⟨c, hcView, hcDone⟩ := viewPart_ok layout.want.coordinates
    (HoldsWhere [layout.nq, layout.sdim] (· < 0) V) (by simp [hnq, hsdim])
    (fun hwant => by rw [hc, if_pos hwant])
    (fun hwant => by rw [if_pos hwant (t := volume [layout.nq, layout.sdim])] at hfits; omega)
    fun v hv => ⟨_, hv.holds, fun p _ hp => absurd hp (Nat.not_lt_zero p)⟩
  obtain ⟨j, hjView, hjDone⟩ := viewPart_ok layout.want.jacobians
    (HoldsWhere [layout.nq, layout.sdim, layout.dim] (· % (layout.nq * layout.sdim) < 0) D)
    (by simp [hnq, hsdim, hdim]) (fun hwant => by rw [hj, if_pos hwant])
    (fun hwant => by rw [if_pos hwant] at hfits; omega)
    fun v hv => ⟨_, hv.holds, fun p _ hp => absurd hp (Nat.not_lt_zero _)⟩
  refine ⟨⟨j, c⟩, ?_, hcDone, hjDone⟩
  simp only [ofParts, hcView, hjView, ok_bind, pure_eq_ok]

/-- **Everything is stored**: the parts hold what they are meant to. -/
theorem Done.chunk_eq (h : targets.Done layout V D (layout.nq * layout.sdim)) :
    targets.chunk jacobians coordinates = Array.ofFn fun n : Fin layout.len =>
      if n < layout.jacobiansLen then D n else V (n - layout.jacobiansLen) := by
  have hcoordinates := h.coordinates.data_eq (fun p hp => by simpa [volume] using hp)
    (coordinatesLen_eq layout) hc
  have hjacobians := h.jacobians.data_eq (fun p hp => mod_lt_left (n := layout.dim) (by
    simpa [volume, Nat.mul_assoc] using hp)) (jacobiansLen_eq layout) hj
  rw [chunk, hcoordinates, hjacobians]
  refine Eq.symm (Array.ofFn_add.trans ?_)
  congr 1
  · exact congrArg Array.ofFn (funext fun n => if_pos n.isLt)
  · refine congrArg Array.ofFn (funext fun n => ?_)
    show (if layout.jacobiansLen + n < _ then _ else V (layout.jacobiansLen + n - _)) = _
    rw [if_neg (by omega), Nat.add_sub_cancel_left]

end

end Targets

/-! ### Elements -/

section

variable [Zero α] [Add α] [Mul α] {dim d1d q1d : Nat} {b g x : View α} {layout : ChunkLayout}
  {xs : Nat → Nat → α} {q s : Nat}

/-- What is stored before step `t` of the interpolation of an element. -/
abbrev Targets.InterpolatedTo (targets : Targets α) (dim d1d q1d : Nat) (b g : View α)
    (layout : ChunkLayout) (xs : Nat → Nat → α) (t : Nat) : Prop :=
  targets.Done layout (chunkCoordinate dim d1d q1d b layout xs)
    (chunkJacobian dim d1d q1d b g layout xs) t

/-- Coordinate `s` of the point `q` is stored with its derivatives. -/
theorem Targets.InterpolatedTo.store {targets : Targets α}
    (h : targets.InterpolatedTo layout.dim d1d q1d b g layout xs (q + layout.nq * s))
    (hq : q < layout.nq) (hs : s < layout.sdim) :
    ∃ targets', targets.store q s (value layout.dim d1d q1d b (xs s) q)
        ((List.range layout.dim).map (derivative layout.dim d1d q1d b g (xs s) q)) = .ok targets' ∧
      targets'.InterpolatedTo layout.dim d1d q1d b g layout xs (q + layout.nq * s + 1) := by
  have hpair : q + layout.nq * s < layout.nq * layout.sdim := pair_lt hq hs
  have hvalue : chunkCoordinate layout.dim d1d q1d b layout xs (q + layout.nq * s) =
      value layout.dim d1d q1d b (xs s) q := by
    rw [chunkCoordinate, pair_mod _ hq, pair_div _ hq]
  rw [← hvalue]
  refine Done.store h hq hs fun k _ => ?_
  obtain ⟨hpoint, hcoordinate, haxis⟩ := triple_positions k hq hs
  rw [chunkJacobian, Nat.add_assoc, Nat.mul_assoc, ← Nat.mul_add, hpoint, hcoordinate, haxis]

section

variable {buf : Array α} {u : Nat → α} {k n : Nat}

/-- A row of a table times a line of nodes. -/
theorem alongX_ok (hb : b.shape = [q1d, d1d]) (hq : 0 < q1d) {term : Nat → Except Fault α}
    (hterm : ∀ dx < d1d, term dx = .ok (u (dx + d1d * (k / q1d)))) :
    contract d1d b (k % q1d) term = .ok (alongX d1d q1d b u k) :=
  contract_eq hb (Nat.mod_lt k hq) hterm

/-- A row of a table times a line of what is contracted along x. -/
theorem alongY_ok (hb : b.shape = [q1d, d1d]) (hu : FilledTo n n u buf) (hq : 0 < q1d)
    (hn : ∀ dy < d1d, k % q1d + q1d * (dy + d1d * (k / (q1d * q1d))) < n) :
    contract d1d b (k / q1d % q1d)
      (fun dy => slot buf (k % q1d + q1d * (dy + d1d * (k / (q1d * q1d))))) =
        .ok (alongY d1d q1d b u k) :=
  contract_eq hb (Nat.mod_lt _ hq) fun dy hdy => hu.slot_eq _ (hn dy hdy)

end

/-! ### Faces -/

/-- The parts of the scratch buffer of a face have the length of the lines along x. -/
structure FaceStages.Fits (stages : FaceStages α) (d1d q1d : Nat) : Prop where
  bx : stages.bx.size = d1d * q1d
  gx : stages.gx.size = d1d * q1d

/-- The lines of a face along x are filled up to `k`. -/
structure FaceStages.Filled (stages : FaceStages α) (d1d q1d : Nat) (b g : View α) (u : Nat → α)
    (k : Nat) : Prop where
  bx : FilledTo k (d1d * q1d) (alongX d1d q1d b u) stages.bx
  gx : FilledTo k (d1d * q1d) (alongX d1d q1d g u) stages.gx

variable {stages : FaceStages α}

theorem FaceStages.Fits.filled (h : stages.Fits d1d q1d) (b g : View α) (u : Nat → α) :
    stages.Filled d1d q1d b g u 0 :=
  ⟨filledTo_zero _ h.bx, filledTo_zero _ h.gx⟩

theorem FaceStages.Filled.fits {u : Nat → α} {k : Nat} (h : stages.Filled d1d q1d b g u k) :
    stages.Fits d1d q1d :=
  ⟨h.bx.size_eq, h.gx.size_eq⟩

theorem faceAlongX_ok (hb : b.shape = [q1d, d1d]) (hg : g.shape = [q1d, d1d])
    (hx : ∀ dx < d1d, ∀ dy < d1d, x.get [dx, dy, s] = .ok (xs s (dx + d1d * dy)))
    (h : stages.Filled d1d q1d b g (xs s) 0) :
    ∃ stages', faceAlongX d1d q1d b g x s stages = .ok stages' ∧
      stages'.Filled d1d q1d b g (xs s) (d1d * q1d) ∧ stages'.targets = stages.targets := by
  unfold faceAlongX
  rw [sweep_pairs]
  refine sweep_induction (fun k (stages' : FaceStages α) =>
    stages'.Filled d1d q1d b g (xs s) k ∧ stages'.targets = stages.targets) ⟨h, rfl⟩ ?_
  rintro k ⟨bx, gx, targets⟩ hk ⟨⟨hbx, hgx⟩, htargets⟩
  rw [Nat.mul_comm] at hk
  have hq : 0 < q1d := Nat.pos_of_mul_pos_right (Nat.zero_lt_of_lt hk)
  have hread : ∀ dx < d1d, x.get [dx, k / q1d, s] = .ok (xs s (dx + d1d * (k / q1d))) :=
    fun dx hdx => hx dx hdx _ (div_lt_right hk)
  rw [Nat.mul_comm] at hk
  obtain ⟨bx', hput, hbx'⟩ := hbx.put hk
  obtain ⟨gx', hput', hgx'⟩ := hgx.put hk
  refine ⟨⟨bx', gx', targets⟩, ?_, ⟨hbx', hgx'⟩, htargets⟩
  simp only [alongX_ok hb hq hread, alongX_ok hg hq hread, Nat.mod_add_div, hput, hput', ok_bind,
    pure_eq_ok]

theorem faceAlongY_ok (hb : b.shape = [q1d, d1d]) (hg : g.shape = [q1d, d1d])
    (hnq : layout.nq = q1d * q1d) (hdim : layout.dim = 2) (hs : s < layout.sdim)
    (hfilled : stages.Filled d1d q1d b g (xs s) (d1d * q1d))
    (htargets : stages.targets.InterpolatedTo layout.dim d1d q1d b g layout xs (layout.nq * s)) :
    ∃ stages', faceAlongY d1d q1d b g s stages = .ok stages' ∧ stages'.Fits d1d q1d ∧
      stages'.targets.InterpolatedTo layout.dim d1d q1d b g layout xs (layout.nq * (s + 1)) := by
  unfold faceAlongY
  rw [sweep_pairs]
  suffices h : ∃ stages', sweep (q1d * q1d) _ stages = .ok stages' ∧
      (stages'.Filled d1d q1d b g (xs s) (d1d * q1d) ∧ stages'.targets.InterpolatedTo layout.dim d1d
        q1d b g layout xs (q1d * q1d + layout.nq * s)) by
    obtain ⟨stages', hrun, hfilled', htargets'⟩ := h
    refine ⟨stages', hrun, hfilled'.fits, ?_⟩
    rwa [← hnq, Nat.add_comm, ← Nat.mul_succ] at htargets'
  refine sweep_induction (fun k (stages' : FaceStages α) =>
    stages'.Filled d1d q1d b g (xs s) (d1d * q1d) ∧ stages'.targets.InterpolatedTo layout.dim d1d
      q1d b g layout xs (k + layout.nq * s))
    ⟨hfilled, by rwa [Nat.zero_add]⟩ ?_
  rintro k ⟨bx, gx, targets⟩ hk ⟨⟨hbx, hgx⟩, htargets⟩
  have hrow : k / q1d % q1d = k / q1d := Nat.mod_eq_of_lt (div_lt_right hk)
  have hplane : k / (q1d * q1d) = 0 := Nat.div_eq_of_lt hk
  have hqx : k % q1d < q1d := mod_lt_left hk
  -- What is read of the lines along x.
  have hread : ∀ (t : View α) (u : Nat → α) (buf : Array α), t.shape = [q1d, d1d] →
      FilledTo (d1d * q1d) (d1d * q1d) u buf →
      contract d1d t (k / q1d) (fun dy => slot buf (k % q1d + q1d * dy)) =
        .ok (alongY d1d q1d t u k) := by
    intro t u buf ht hu
    have hline : ∀ dy < d1d, k % q1d + q1d * (dy + d1d * (k / (q1d * q1d))) < d1d * q1d := by
      intro dy hdy
      rw [hplane, Nat.mul_zero, Nat.add_zero, Nat.mul_comm d1d]
      exact pair_lt hqx hdy
    simpa only [hrow, hplane, Nat.mul_zero, Nat.add_zero] using
      alongY_ok ht hu (Nat.zero_lt_of_lt hqx) hline
  obtain ⟨targets', hstore, htargets'⟩ := htargets.store (hnq ▸ hk) hs
  refine ⟨⟨bx, gx, targets'⟩, ?_, ⟨hbx, hgx⟩, by rwa [Nat.add_right_comm]⟩
  rw [hdim, value_two, derivatives_two] at hstore
  simp only [hread _ _ _ hb hbx, hread _ _ _ hb hgx, hread _ _ _ hg hbx, Nat.mod_add_div, hstore,
    ok_bind, pure_eq_ok]

/-- Every coordinate of the points of a face is stored with its derivatives. -/
theorem faceCoordinates_ok (hb : b.shape = [q1d, d1d]) (hg : g.shape = [q1d, d1d])
    (hnq : layout.nq = q1d * q1d) (hdim : layout.dim = 2)
    (hx : ∀ s < layout.sdim, ∀ dx < d1d, ∀ dy < d1d,
      x.get [dx, dy, s] = .ok (xs s (dx + d1d * dy)))
    (h : stages.Fits d1d q1d)
    (htargets : stages.targets.InterpolatedTo layout.dim d1d q1d b g layout xs 0) :
    ∃ last, sweep layout.sdim (fun stages s => do
        faceAlongY d1d q1d b g s (← faceAlongX d1d q1d b g x s stages)) stages = .ok last ∧
      (last.Fits d1d q1d ∧ last.targets.InterpolatedTo layout.dim d1d q1d b g layout xs
        (layout.nq * layout.sdim)) := by
  refine sweep_induction (fun s (stages : FaceStages α) => stages.Fits d1d q1d ∧
    stages.targets.InterpolatedTo layout.dim d1d q1d b g layout xs (layout.nq * s))
    ⟨h, htargets⟩ ?_
  rintro s stages hs ⟨hfits, htargets⟩
  obtain ⟨stages', hlines, hfilled, hkept⟩ :=
    faceAlongX_ok hb hg (hx s hs) (hfits.filled b g (xs s))
  rw [← hkept] at htargets
  rw [hlines, ok_bind]
  exact faceAlongY_ok hb hg hnq hdim hs hfilled htargets

/-! ### Cells -/

/-- The parts of the scratch buffer of a cell have the lengths of the lines along x and of the
planes of x and y. -/
structure CellStages.Fits (stages : CellStages α) (d1d q1d : Nat) : Prop where
  bx : stages.bx.size = d1d * (d1d * q1d)
  gx : stages.gx.size = d1d * (d1d * q1d)
  bxby : stages.bxby.size = d1d * (q1d * q1d)
  gxby : stages.gxby.size = d1d * (q1d * q1d)
  bxgy : stages.bxgy.size = d1d * (q1d * q1d)

/-- The lines of a cell along x are filled up to `m`, its planes up to `n`. -/
structure CellStages.Filled (stages : CellStages α) (d1d q1d : Nat) (b g : View α) (u : Nat → α)
    (m n : Nat) : Prop where
  bx : FilledTo m (d1d * (d1d * q1d)) (alongX d1d q1d b u) stages.bx
  gx : FilledTo m (d1d * (d1d * q1d)) (alongX d1d q1d g u) stages.gx
  bxby : FilledTo n (d1d * (q1d * q1d)) (alongY d1d q1d b (alongX d1d q1d b u)) stages.bxby
  gxby : FilledTo n (d1d * (q1d * q1d)) (alongY d1d q1d b (alongX d1d q1d g u)) stages.gxby
  bxgy : FilledTo n (d1d * (q1d * q1d)) (alongY d1d q1d g (alongX d1d q1d b u)) stages.bxgy

theorem CellStages.Fits.filled {stages : CellStages α} (h : stages.Fits d1d q1d) (b g : View α)
    (u : Nat → α) : stages.Filled d1d q1d b g u 0 0 :=
  ⟨filledTo_zero _ h.bx, filledTo_zero _ h.gx, filledTo_zero _ h.bxby, filledTo_zero _ h.gxby,
    filledTo_zero _ h.bxgy⟩

theorem CellStages.Filled.fits {stages : CellStages α} {u : Nat → α} {m n : Nat}
    (h : stages.Filled d1d q1d b g u m n) : stages.Fits d1d q1d :=
  ⟨h.bx.size_eq, h.gx.size_eq, h.bxby.size_eq, h.gxby.size_eq, h.bxgy.size_eq⟩

/-- The flat position of the step of a loop over three axes. -/
theorem triple_eq (k l m : Nat) : k % l + l * (k / l % m + m * (k / (l * m))) = k := by
  rw [← Nat.div_div_eq_div_mul, Nat.mod_add_div, Nat.mod_add_div]

variable {cell : CellStages α}

theorem cellAlongX_ok (hb : b.shape = [q1d, d1d]) (hg : g.shape = [q1d, d1d])
    (hx : ∀ dx < d1d, ∀ dy < d1d, ∀ dz < d1d,
      x.get [dx, dy, dz, s] = .ok (xs s (dx + d1d * (dy + d1d * dz))))
    (h : cell.Filled d1d q1d b g (xs s) 0 0) :
    ∃ cell', cellAlongX d1d q1d b g x s cell = .ok cell' ∧
      cell'.Filled d1d q1d b g (xs s) (d1d * (d1d * q1d)) 0 ∧ cell'.targets = cell.targets := by
  unfold cellAlongX
  rw [sweep_triples_eq _ fun _ _ _ => rfl]
  refine sweep_induction (fun k (cell' : CellStages α) =>
    cell'.Filled d1d q1d b g (xs s) k 0 ∧ cell'.targets = cell.targets) ⟨h, rfl⟩ ?_
  rintro k ⟨bx, gx, bxby, gxby, bxgy, targets⟩ hk ⟨⟨hbx, hgx, hbxby, hgxby, hbxgy⟩, htargets⟩
  obtain ⟨bx', hput, hbx'⟩ := hbx.put hk
  obtain ⟨gx', hput', hgx'⟩ := hgx.put hk
  rw [Nat.mul_comm, Nat.mul_comm d1d q1d, Nat.mul_assoc] at hk
  have hq : 0 < q1d := Nat.pos_of_mul_pos_right (Nat.zero_lt_of_lt hk)
  have hrest : k / q1d < d1d * d1d := div_lt_right hk
  have hread : ∀ dx < d1d, x.get [dx, k / q1d % d1d, k / (q1d * d1d), s] =
      .ok (xs s (dx + d1d * (k / q1d))) := by
    intro dx hdx
    rw [← Nat.div_div_eq_div_mul, hx dx hdx _ (mod_lt_left hrest) _ (div_lt_right hrest),
      Nat.mod_add_div]
  refine ⟨⟨bx', gx', bxby, gxby, bxgy, targets⟩, ?_, ⟨hbx', hgx', hbxby, hgxby, hbxgy⟩, htargets⟩
  simp only [alongX_ok hb hq hread, alongX_ok hg hq hread, triple_eq, hput, hput', ok_bind,
    pure_eq_ok]

theorem cellAlongY_ok (hb : b.shape = [q1d, d1d]) (hg : g.shape = [q1d, d1d]) {u : Nat → α}
    (h : cell.Filled d1d q1d b g u (d1d * (d1d * q1d)) 0) :
    ∃ cell', cellAlongY d1d q1d b g cell = .ok cell' ∧
      cell'.Filled d1d q1d b g u (d1d * (d1d * q1d)) (d1d * (q1d * q1d)) ∧
      cell'.targets = cell.targets := by
  unfold cellAlongY
  rw [sweep_triples_eq _ fun _ _ _ => rfl]
  refine sweep_induction (fun k (cell' : CellStages α) =>
    cell'.Filled d1d q1d b g u (d1d * (d1d * q1d)) k ∧ cell'.targets = cell.targets) ⟨h, rfl⟩ ?_
  rintro k ⟨bx, gx, bxby, gxby, bxgy, targets⟩ hk ⟨⟨hbx, hgx, hbxby, hgxby, hbxgy⟩, htargets⟩
  obtain ⟨bxby', hput, hbxby'⟩ := hbxby.put hk
  obtain ⟨gxby', hput', hgxby'⟩ := hgxby.put hk
  obtain ⟨bxgy', hput'', hbxgy'⟩ := hbxgy.put hk
  rw [Nat.mul_comm, Nat.mul_assoc] at hk
  have hqx : k % q1d < q1d := mod_lt_left hk
  have hline : ∀ dy < d1d, k % q1d + q1d * (dy + d1d * (k / (q1d * q1d))) < d1d * (d1d * q1d) := by
    intro dy hdy
    rw [← Nat.mul_assoc] at hk
    rw [← Nat.mul_assoc, Nat.mul_comm (d1d * d1d)]
    exact pair_lt hqx (pair_lt hdy (div_lt_right hk))
  have hread : ∀ (t : View α) (u : Nat → α) (buf : Array α), t.shape = [q1d, d1d] →
      FilledTo (d1d * (d1d * q1d)) (d1d * (d1d * q1d)) u buf →
      contract d1d t (k / q1d % q1d)
        (fun dy => slot buf (k % q1d + q1d * (dy + d1d * (k / (q1d * q1d))))) =
          .ok (alongY d1d q1d t u k) :=
    fun t u buf ht hu => alongY_ok ht hu (Nat.zero_lt_of_lt hqx) hline
  refine ⟨⟨bx, gx, bxby', gxby', bxgy', targets⟩, ?_, ⟨hbx, hgx, hbxby', hgxby', hbxgy'⟩, htargets⟩
  simp only [hread _ _ _ hb hbx, hread _ _ _ hb hgx, hread _ _ _ hg hbx, triple_eq, hput, hput',
    hput'', ok_bind, pure_eq_ok]

theorem cellAlongZ_ok (hb : b.shape = [q1d, d1d]) (hg : g.shape = [q1d, d1d])
    (hnq : layout.nq = q1d * (q1d * q1d)) (hdim : layout.dim = 3) (hs : s < layout.sdim)
    (h : cell.Filled d1d q1d b g (xs s) (d1d * (d1d * q1d)) (d1d * (q1d * q1d)))
    (htargets : cell.targets.InterpolatedTo layout.dim d1d q1d b g layout xs (layout.nq * s)) :
    ∃ cell', cellAlongZ d1d q1d b g s cell = .ok cell' ∧ cell'.Fits d1d q1d ∧
      cell'.targets.InterpolatedTo layout.dim d1d q1d b g layout xs (layout.nq * (s + 1)) := by
  unfold cellAlongZ
  rw [sweep_triples_eq _ fun _ _ _ => rfl]
  suffices h : ∃ cell', sweep (q1d * (q1d * q1d)) _ cell = .ok cell' ∧
      (cell'.Filled d1d q1d b g (xs s) (d1d * (d1d * q1d)) (d1d * (q1d * q1d)) ∧
        cell'.targets.InterpolatedTo layout.dim d1d q1d b g layout xs
          (q1d * (q1d * q1d) + layout.nq * s)) by
    obtain ⟨cell', hrun, hfilled, htargets'⟩ := h
    refine ⟨cell', hrun, hfilled.fits, ?_⟩
    rwa [← hnq, Nat.add_comm, ← Nat.mul_succ] at htargets'
  refine sweep_induction (fun k (cell' : CellStages α) =>
    cell'.Filled d1d q1d b g (xs s) (d1d * (d1d * q1d)) (d1d * (q1d * q1d)) ∧
      cell'.targets.InterpolatedTo layout.dim d1d q1d b g layout xs (k + layout.nq * s))
    ⟨h, by rwa [Nat.zero_add]⟩ ?_
  rintro k ⟨bx, gx, bxby, gxby, bxgy, targets⟩ hk ⟨⟨hbx, hgx, hbxby, hgxby, hbxgy⟩, htargets⟩
  obtain ⟨targets', hstore, htargets'⟩ := htargets.store (hnq ▸ hk) hs
  rw [Nat.mul_comm] at hk
  have hplane : k % (q1d * q1d) < q1d * q1d := mod_lt_left hk
  have hread : ∀ (t : View α) (u : Nat → α) (buf : Array α), t.shape = [q1d, d1d] →
      FilledTo (d1d * (q1d * q1d)) (d1d * (q1d * q1d)) u buf →
      contract d1d t (k / (q1d * q1d))
        (fun dz => slot buf (k % q1d + q1d * (k / q1d % q1d + q1d * dz))) =
          .ok (alongZ d1d q1d t u k) := by
    intro t u buf ht hu
    refine contract_eq ht (div_lt_right hk) fun dz hdz => ?_
    rw [← mod_add_mul]
    exact hu.slot_eq _ (by rw [Nat.mul_comm d1d]; exact pair_lt hplane hdz)
  refine ⟨⟨bx, gx, bxby, gxby, bxgy, targets'⟩, ?_, ⟨hbx, hgx, hbxby, hgxby, hbxgy⟩,
    by rwa [Nat.add_right_comm]⟩
  rw [hdim, value_three, derivatives_three] at hstore
  simp only [hread _ _ _ hb hbxby, hread _ _ _ hb hgxby, hread _ _ _ hb hbxgy,
    hread _ _ _ hg hbxby, triple_eq, hstore, ok_bind, pure_eq_ok]

/-- Every coordinate of the points of a cell is stored with its derivatives. -/
theorem cellCoordinates_ok (hb : b.shape = [q1d, d1d]) (hg : g.shape = [q1d, d1d])
    (hnq : layout.nq = q1d * (q1d * q1d)) (hdim : layout.dim = 3)
    (hx : ∀ s < layout.sdim, ∀ dx < d1d, ∀ dy < d1d, ∀ dz < d1d,
      x.get [dx, dy, dz, s] = .ok (xs s (dx + d1d * (dy + d1d * dz))))
    (h : cell.Fits d1d q1d)
    (htargets : cell.targets.InterpolatedTo layout.dim d1d q1d b g layout xs 0) :
    ∃ last, sweep layout.sdim (fun cell s => do
        let cell ← cellAlongX d1d q1d b g x s cell
        let cell ← cellAlongY d1d q1d b g cell
        cellAlongZ d1d q1d b g s cell) cell = .ok last ∧
      (last.Fits d1d q1d ∧ last.targets.InterpolatedTo layout.dim d1d q1d b g layout xs
        (layout.nq * layout.sdim)) := by
  refine sweep_induction (fun s (cell : CellStages α) => cell.Fits d1d q1d ∧
    cell.targets.InterpolatedTo layout.dim d1d q1d b g layout xs (layout.nq * s))
    ⟨h, htargets⟩ ?_
  rintro s cell hs ⟨hfits, htargets⟩
  obtain ⟨lines, hlines, hfilled, hkept⟩ :=
    cellAlongX_ok hb hg (hx s hs) (hfits.filled b g (xs s))
  obtain ⟨planes, hplanes, hfilled', hkept'⟩ := cellAlongY_ok hb hg hfilled
  rw [← hkept, ← hkept'] at htargets
  rw [hlines, ok_bind, hplanes, ok_bind]
  exact cellAlongZ_ok hb hg hnq hdim hs hfilled' htargets

/-! ### Chunks that are filled -/

section

variable {nodes scratch jacobians coordinates : Array α}

/-- What an element is given: room that is large enough, and the parts of its chunk. -/
structure ElementRoom (layout : ChunkLayout) (needed : Nat)
    (scratch jacobians coordinates : Array α) : Prop where
  scratch_le : needed ≤ scratch.size
  scratch_lt : scratch.size < Size.bufferBound
  jacobians : jacobians.size = layout.jacobiansLen
  coordinates : coordinates.size = layout.coordinatesLen
  chunk_lt : layout.len < Size.bufferBound

omit [Zero α] [Add α] [Mul α] in
/-- The scratch buffer of a cell is taken apart into two parts of `m` entries and three of `n`. -/
theorem cutCell_ok {m n : Nat} (h : 2 * m + 3 * n ≤ scratch.size) :
    ∃ lines planes bx gx bxby gxby rest rest' : Array α,
      (cut scratch (2 * m) = .ok (lines, planes) ∧ cut lines m = .ok (bx, gx) ∧
        cut planes n = .ok (bxby, rest) ∧ cut rest n = .ok (gxby, rest') ∧
        slice rest' 0 n = .ok (rest'.extract 0 n)) ∧
      bx.size = m ∧ gx.size = m ∧ bxby.size = n ∧ gxby.size = n ∧
        rest'.size = scratch.size - 2 * m - n - n := by
  obtain ⟨lines, planes, hcut, hlines, hplanes⟩ :=
    cut_ok (show scratch.size = 2 * m + (scratch.size - 2 * m) by omega)
  obtain ⟨bx, gx, hcutLines, hbx, hgx⟩ := cut_ok (hlines.trans (Nat.two_mul m))
  obtain ⟨bxby, rest, hcutPlanes, hbxby, hrest⟩ :=
    cut_ok (show planes.size = n + (scratch.size - 2 * m - n) by omega)
  obtain ⟨gxby, rest', hcutRest, hgxby, hrest'⟩ :=
    cut_ok (show rest.size = n + (scratch.size - 2 * m - n - n) by omega)
  exact ⟨lines, planes, bx, gx, bxby, gxby, rest, rest',
    ⟨hcut, hcutLines, hcutPlanes, hcutRest, slice_eq (Nat.zero_le n) (by omega)⟩,
    hbx, hgx, hbxby, hgxby, hrest'⟩

variable (layout) {tables : Tables α} (hd1d : tables.ndof = d1d) (hq1d : tables.nqpt = q1d)
  (hb : View.ofBuffer tables.b [q1d, d1d] = .ok b) (hg : View.ofBuffer tables.g [q1d, d1d] = .ok g)
  (hsdim : 0 < layout.sdim) (hq : 0 < q1d)

include hd1d hq1d hb hg hsdim hq

/-- **A face fills its chunk**, whatever the scratch buffer held. -/
theorem interpolateFace_ok (hnq : layout.nq = q1d * q1d) (hdim : layout.dim = 2)
    (hroom : ElementRoom layout (2 * (q1d * d1d)) scratch jacobians coordinates)
    (hpoints : q1d * q1d < Size.bound)
    (hnodes : View.ofBuffer nodes [d1d, d1d, layout.sdim] = .ok x)
    (hx : ∀ s < layout.sdim, ∀ dx < d1d, ∀ dy < d1d,
      x.get [dx, dy, s] = .ok (xs s (dx + d1d * dy))) :
    ∃ scratch', scratch'.size = scratch.size ∧
      interpolateFace tables layout nodes scratch jacobians coordinates =
        .ok (scratch', Array.ofFn fun n : Fin layout.len =>
          interpolated layout.dim d1d q1d b g layout xs n) := by
  have hle := hroom.scratch_le
  have hlt := hroom.scratch_lt
  have hnqPos : 0 < layout.nq := hnq ▸ Nat.mul_pos hq hq
  obtain ⟨targets, hparts, htargets⟩ := Targets.ofParts_ok hroom.jacobians hroom.coordinates
    (chunkCoordinate layout.dim d1d q1d b layout xs) (chunkJacobian layout.dim d1d q1d b g layout xs)
    hnqPos hsdim (by omega) hroom.chunk_lt
  obtain ⟨bx, rest, hcut, hbx, hrest⟩ :=
    cut_ok (show scratch.size = q1d * d1d + (scratch.size - q1d * d1d) by omega)
  have hgx : slice rest 0 (q1d * d1d) = .ok (rest.extract 0 (q1d * d1d)) :=
    slice_eq (Nat.zero_le _) (by omega)
  have hstart : FaceStages.Fits ⟨bx, rest.extract 0 (q1d * d1d), targets⟩ d1d q1d :=
    ⟨by rw [hbx, Nat.mul_comm], by rw [Array.size_extract, Nat.mul_comm d1d]; omega⟩
  have hbShape := (View.ofBuffer_eq_ok.1 hb).2.2
  have hgShape := (View.ofBuffer_eq_ok.1 hg).2.2
  obtain ⟨last, hrun, hlast, hdone⟩ :=
    faceCoordinates_ok hbShape hgShape hnq hdim hx hstart htargets
  refine ⟨last.bx ++ last.gx ++ rest.extract (q1d * d1d) rest.size, ?_, ?_⟩
  · rw [Array.size_append, Array.size_append, Array.size_extract, hlast.bx, hlast.gx,
      Nat.mul_comm d1d]
    omega
  · have hchunk := hdone.chunk_eq hroom.jacobians hroom.coordinates
    simp only [interpolateFace, hd1d, hq1d, hb, hg, hnodes, Size.mul_eq_ok.2 ⟨hpoints, rfl⟩, ← hnq, hparts,
      Size.mul_ok (show q1d * d1d < Size.bufferBound by omega), hcut, hgx, hrun, hchunk, ok_bind,
      pure_eq_ok]
    rfl

/-- **A cell fills its chunk**, whatever the scratch buffer held. -/
theorem interpolateCell_ok (hd : 0 < d1d) (hnq : layout.nq = q1d * (q1d * q1d))
    (hdim : layout.dim = 3)
    (hroom : ElementRoom layout (2 * (q1d * d1d * d1d) + 3 * (q1d * q1d * d1d)) scratch jacobians
      coordinates)
    (hpoints : q1d * (q1d * q1d) < Size.bound)
    (hnodes : View.ofBuffer nodes [d1d, d1d, d1d, layout.sdim] = .ok x)
    (hx : ∀ s < layout.sdim, ∀ dx < d1d, ∀ dy < d1d, ∀ dz < d1d,
      x.get [dx, dy, dz, s] = .ok (xs s (dx + d1d * (dy + d1d * dz)))) :
    ∃ scratch', scratch'.size = scratch.size ∧
      interpolateCell tables layout nodes scratch jacobians coordinates =
        .ok (scratch', Array.ofFn fun n : Fin layout.len =>
          interpolated layout.dim d1d q1d b g layout xs n) := by
  have hle := hroom.scratch_le
  have hlt := hroom.scratch_lt
  have hnqPos : 0 < layout.nq := hnq ▸ Nat.mul_pos hq (Nat.mul_pos hq hq)
  have hcube : volume [q1d, q1d, q1d] = layout.nq := by simp [volume, hnq]
  have hpointsLen : Size.product [q1d, q1d, q1d] = .ok layout.nq := by
    rw [← hcube]
    refine Size.product_ok ?_
    rwa [nonemptyVolume_of_pos (by simp [hq]), hcube, hnq]
  have hlinesLen : Size.product [q1d, d1d, d1d] = .ok (q1d * d1d * d1d) :=
    Size.product_three hq hd hd (by omega)
  have hplanesLen : Size.product [q1d, q1d, d1d] = .ok (q1d * q1d * d1d) :=
    Size.product_three hq hq hd (by omega)
  obtain ⟨targets, hparts, htargets⟩ := Targets.ofParts_ok hroom.jacobians hroom.coordinates
    (chunkCoordinate layout.dim d1d q1d b layout xs) (chunkJacobian layout.dim d1d q1d b g layout xs)
    hnqPos hsdim (by omega) hroom.chunk_lt
  -- The scratch buffer is taken apart,
  obtain ⟨lines, planes, bx, gx, bxby, gxby, rest, rest',
    ⟨hcut, hcutLines, hcutPlanes, hcutRest, hbxgy⟩, hbx, hgx, hbxby, hgxby, hrest⟩ :=
    cutCell_ok hle
  have hlineOrder : q1d * d1d * d1d = d1d * (d1d * q1d) := by
    rw [Nat.mul_comm, Nat.mul_comm q1d]
  have hplaneOrder : q1d * q1d * d1d = d1d * (q1d * q1d) := Nat.mul_comm _ _
  have hbxgyLen : (rest'.extract 0 (q1d * q1d * d1d)).size = q1d * q1d * d1d := by
    rw [Array.size_extract]
    omega
  have hstart : CellStages.Fits ⟨bx, gx, bxby, gxby, rest'.extract 0 (q1d * q1d * d1d), targets⟩
      d1d q1d :=
    ⟨hbx.trans hlineOrder, hgx.trans hlineOrder, hbxby.trans hplaneOrder,
      hgxby.trans hplaneOrder, hbxgyLen.trans hplaneOrder⟩
  -- every coordinate is worked on,
  have hbShape := (View.ofBuffer_eq_ok.1 hb).2.2
  have hgShape := (View.ofBuffer_eq_ok.1 hg).2.2
  obtain ⟨last, hrun, hlast, hdone⟩ :=
    cellCoordinates_ok hbShape hgShape hnq hdim hx hstart htargets
  -- and the buffer is put together again.
  refine ⟨last.bx ++ last.gx ++ last.bxby ++ last.gxby ++ last.bxgy ++
    rest'.extract (q1d * q1d * d1d) rest'.size, ?_, ?_⟩
  · simp only [Array.size_append, Array.size_extract, hlast.bx, hlast.gx, hlast.bxby, hlast.gxby,
      hlast.bxgy]
    omega
  · have hchunk := hdone.chunk_eq hroom.jacobians hroom.coordinates
    simp only [interpolateCell, hd1d, hq1d, hpointsLen, hb, hg, hnodes, hparts, hlinesLen, hplanesLen,
      Size.mul_ok (show 2 * (q1d * d1d * d1d) < Size.bufferBound by omega), hcut, hcutLines,
      hcutPlanes, hcutRest, hbxgy, hrun, hchunk, ok_bind, pure_eq_ok]
    rfl

end

end

end TensorDiffusion
