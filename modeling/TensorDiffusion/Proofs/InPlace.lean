import TensorDiffusion.Proofs.Views

/-!
# Views that are changed in place

What a kernel leaves in its scratch buffer.  `View.Holds` gives the contents of a view by position:
a step that replaces some entries leads from one such description to the next, and a loop of which
every step owns some positions replaces each of them once (`Holds.sweep_owned`).  The entries of a
*column* `[0, …]`, `[1, …]` and so on, at one place of the other axes, are consecutive.

* `Holds.addColumns`, `Holds.adds`: loops that add to one column, or to one entry, after the other.
* `Visits`: which step of a loop comes to a position; nested loops are one over flat indices.
* `window_ok`, `cut_ok`: the parts of a buffer, which make the buffer again.
-/

namespace TensorDiffusion

variable {α β : Type}

/-! ### Nested loops -/

/-- A loop whose steps are loops is one loop over flat indices. -/
theorem sweep_pairs_eq {σ : Type} {m n : Nat} {outer : σ → Nat → Except Fault σ} {start : σ}
    (step : σ → Nat → Nat → Except Fault σ)
    (h : ∀ s, ∀ a < m, outer s a = sweep n (fun s b => step s a b) s) :
    sweep m outer start = sweep (m * n) (fun s k => step s (k / n) (k % n)) start :=
  (sweep_congr h start).trans (sweep_pairs m n step start)

/-- A loop whose steps are loops of loops is one loop over flat indices, the innermost fastest. -/
theorem sweep_triples_eq {σ : Type} {m n l : Nat} {outer : σ → Nat → Except Fault σ} {start : σ}
    (step : σ → Nat → Nat → Nat → Except Fault σ)
    (h : ∀ s, ∀ a < m, outer s a = sweep n (fun s b => sweep l (fun s c => step s a b c) s) s) :
    sweep m outer start =
      sweep (m * (n * l)) (fun s k => step s (k / (l * n)) (k / l % n) (k % l)) start := by
  have hinner : ∀ s, ∀ a < m, outer s a =
      sweep (n * l) (fun s k => step s a (k / l) (k % l)) s := fun s a ha =>
    (h s a ha).trans (sweep_pairs n l (fun s b c => step s a b c) s)
  rw [sweep_pairs_eq (fun s a k => step s a (k / l) (k % l)) hinner]
  refine congrArg (sweep _ · start) (funext fun s => funext fun k => ?_)
  rw [Nat.mod_mul_left_div_self, Nat.mod_mul_left_mod, Nat.mul_comm n l]

/-- Which step of a loop comes to a position: step `k` comes to the index `place k`, whose flat
position `own` sends back to `k`. -/
structure Visits (place : Nat → List Nat) (own : Nat → Nat) (shape : List Nat) (n : Nat) :
    Prop where
  inShape : ∀ k < n, InShape (place k) shape
  own_eq : ∀ p < volume shape, ∀ k < n, own p = k ↔ p = flat (place k) shape

/-- Every position has a step that comes to it. -/
structure VisitsAll (place : Nat → List Nat) (own : Nat → Nat) (shape : List Nat) (n : Nat) : Prop
    extends Visits place own shape n where
  own_lt : ∀ p < volume shape, own p < n

/-- A loop over an axis. -/
theorem visits_line (m : Nat) : VisitsAll (fun k => [k]) id [m] m where
  inShape k hk := ⟨hk, trivial⟩
  own_eq p _ k _ := by simp [flat]
  own_lt p hp := by simpa [volume] using hp

/-- A loop over two axes, the first fastest. -/
theorem visits_plane (m n : Nat) : VisitsAll (fun k => [k % m, k / m]) id [m, n] (n * m) where
  inShape k hk := by
    rw [Nat.mul_comm] at hk
    exact ⟨mod_lt_left hk, div_lt_right hk, trivial⟩
  own_eq p _ k _ := by simp [flat, Nat.mod_add_div]
  own_lt p hp := by simpa [volume, Nat.mul_comm] using hp

/-- A loop over three axes, the first fastest. -/
theorem visits_box (l m n : Nat) :
    VisitsAll (fun k => [k % l, k / l % m, k / (l * m)]) id [l, m, n] (n * (m * l)) where
  inShape k hk := by
    rw [Nat.mul_comm, Nat.mul_comm m, Nat.mul_assoc] at hk
    have hk' := hk
    rw [← Nat.mul_assoc] at hk'
    exact ⟨mod_lt_left hk, mod_lt_left (div_lt_right hk), div_lt_right hk', trivial⟩
  own_eq p _ k _ := by
    have hrest : k / l % m + m * (k / (l * m)) = k / l := by
      rw [← Nat.div_div_eq_div_mul, Nat.mod_add_div]
    simp only [flat, Nat.mul_zero, Nat.add_zero, hrest, Nat.mod_add_div, id]
  own_lt p hp := by simpa [volume, Nat.mul_comm, Nat.mul_left_comm] using hp

theorem inShape_append {idx idx' shape shape' : List Nat} (h : InShape idx shape)
    (h' : InShape idx' shape') : InShape (idx ++ idx') (shape ++ shape') := by
  induction idx generalizing shape with
  | nil =>
    cases shape with
    | nil => exact h'
    | cons m shape => exact h.elim
  | cons i idx ih =>
    cases shape with
    | nil => exact h.elim
    | cons m shape => exact ⟨h.1, ih h.2⟩

/-- A flat position of two groups of axes, taken apart. -/
theorem flat_append_iff {idx idx' shape shape' : List Nat} (h : InShape idx shape) (p : Nat) :
    p = flat (idx ++ idx') (shape ++ shape') ↔
      p % volume shape = flat idx shape ∧ p / volume shape = flat idx' shape' := by
  have hlt := flat_lt h
  rw [flat_append h]
  constructor
  · rintro rfl
    exact ⟨pair_mod _ hlt, pair_div _ hlt⟩
  · rintro ⟨hmod, hdiv⟩
    rw [← hmod, ← hdiv, Nat.mod_add_div]

section

variable {place place' : Nat → List Nat} {own own' : Nat → Nat} {shape shape' : List Nat}
  {n n' : Nat}

/-- A loop over the first axes whose steps are loops over the last. -/
theorem VisitsAll.nested (h : VisitsAll place own shape n)
    (h' : VisitsAll place' own' shape' n') :
    VisitsAll (fun k => place (k / n') ++ place' (k % n'))
      (fun p => own' (p / volume shape) + n' * own (p % volume shape)) (shape ++ shape')
      (n * n') := by
  have hlt : ∀ p < volume (shape ++ shape'),
      own (p % volume shape) < n ∧ own' (p / volume shape) < n' := by
    intro p hp
    rw [volume_append] at hp
    exact ⟨h.own_lt _ (mod_lt_left hp), h'.own_lt _ (div_lt_right hp)⟩
  refine ⟨⟨fun k hk => ?_, fun p hp k hk => ?_⟩, fun p hp => ?_⟩
  all_goals try rw [Nat.mul_comm] at hk
  · exact inShape_append (h.inShape _ (div_lt_right hk)) (h'.inShape _ (mod_lt_left hk))
  · obtain ⟨-, hown'⟩ := hlt p hp
    rw [volume_append] at hp
    have hstep : own' (p / volume shape) + n' * own (p % volume shape) = k ↔
        own (p % volume shape) = k / n' ∧ own' (p / volume shape) = k % n' := by
      constructor
      · rintro rfl
        exact ⟨(pair_div _ hown').symm, (pair_mod _ hown').symm⟩
      · rintro ⟨hdiv, hmod⟩
        rw [hdiv, hmod, Nat.mod_add_div]
    rw [hstep, flat_append_iff (h.inShape _ (div_lt_right hk)),
      h.own_eq _ (mod_lt_left hp) _ (div_lt_right hk),
      h'.own_eq _ (div_lt_right hp) _ (mod_lt_left hk)]
  · rw [Nat.mul_comm n]
    exact pair_lt (hlt p hp).2 (hlt p hp).1

/-- A loop over the part of a shape at one position of a last axis more.  No step comes to the
positions outside that part. -/
theorem VisitsAll.part (h : VisitsAll place own shape n) {m c : Nat} (hc : c < m) :
    Visits (fun k => place k ++ [c])
      (fun p => if p / volume shape = c then own (p % volume shape) else n) (shape ++ [m]) n where
  inShape k hk := inShape_append (h.inShape k hk) ⟨hc, trivial⟩
  own_eq p hp k hk := by
    rw [volume_append] at hp
    rw [flat_append_iff (h.inShape k hk)]
    by_cases hpart : p / volume shape = c
    · rw [if_pos hpart, h.own_eq _ (mod_lt_left hp) k hk]
      exact ⟨fun hmod => ⟨hmod, hpart⟩, And.left⟩
    · rw [if_neg hpart]
      exact iff_of_false (Nat.ne_of_gt hk) fun hflat => hpart hflat.2

end

/-! ### Contents -/

namespace View

/-- The view has the given shape and no entries beyond. -/
structure Exact (v : View α) (shape : List Nat) : Prop where
  shape_eq : v.shape = shape
  size_eq : v.data.size = volume shape

/-- The view has the given shape and no entries beyond, and holds `f p` at position `p`. -/
structure Holds (v : View α) (shape : List Nat) (f : Nat → α) : Prop where
  shape_eq : v.shape = shape
  data_eq : v.data = Array.ofFn fun p : Fin (volume shape) => f p

/-- The contents of columns of `m` entries each: entry `i` of the column at place `q` is `T q i`. -/
def columns (m : Nat) (T : Nat → Nat → α) (p : Nat) : α :=
  T (p / m) (p % m)

variable {v : View α} {shape box idx place : List Nat} {f g : Nat → α} {T T' : Nat → Nat → α}
  {m n : Nat}

namespace Exact

/-- A view holds its own entries. -/
theorem holds [Zero α] (h : v.Exact shape) : v.Holds shape (v.data.getD · 0) where
  shape_eq := h.shape_eq
  data_eq := Array.ext (by rw [h.size_eq, Array.size_ofFn]) fun p hp _ => by
    rw [Array.getElem_ofFn, ← Array.getElem_eq_getD (h := hp)]

/-- The entries of a view, column by column. -/
theorem columns [Zero α] (h : v.Exact (m :: box)) :
    v.Holds (m :: box) (View.columns m fun q i => v.data.getD (i + m * q) 0) where
  shape_eq := h.shape_eq
  data_eq := h.holds.data_eq.trans <| congrArg Array.ofFn <| funext fun p => by
    rw [View.columns, Nat.mod_add_div]

theorem fill (h : v.Exact shape) (x : α) : (v.fill x).Holds shape fun _ => x where
  shape_eq := h.shape_eq
  data_eq := Array.ext (by simp [View.fill, h.size_eq]) fun p hp _ => by
    have hlt : p < volume v.shape := by rwa [h.shape_eq, ← h.size_eq, ← Array.size_mapIdx]
    simp [View.fill, hlt]

end Exact

/-- What becomes of `x` at place `i` where the functions of a list are applied to one place after
the other, from `first` on. -/
def appliedFrom (first : Nat) (fs : List (α → α)) (i : Nat) (x : α) : α :=
  if first ≤ i then fs.getD (i - first) id x else x

theorem appliedFrom_nil (first i : Nat) (x : α) : appliedFrom first [] i x = x := by
  simp [appliedFrom]

/-- The first function is applied to its place, and the others to the places after it. -/
theorem appliedFrom_cons (first : Nat) (u : α → α) (fs : List (α → α)) (i : Nat) (x : α) :
    appliedFrom first (u :: fs) i x = appliedFrom (first + 1) fs i (if i = first then u x else x) := by
  unfold appliedFrom
  rcases Nat.lt_trichotomy i first with hlt | rfl | hgt
  · rw [if_neg (by omega), if_neg (by omega), if_neg (by omega)]
  · rw [if_pos (Nat.le_refl i), if_neg (by omega), if_pos rfl, Nat.sub_self, List.getD_cons_zero]
  · rw [if_pos (by omega), if_pos (by omega), if_neg (by omega),
      show i - first = i - (first + 1) + 1 by omega, List.getD_cons_succ]

/-- A function for every place is applied to its place. -/
theorem appliedFrom_range (t : Nat → α → α) {i : Nat} (hi : i < m) (x : α) :
    appliedFrom 0 ((List.range m).map t) i x = t i x := by
  simp [appliedFrom, hi, List.getD_eq_getElem?_getD]

namespace Holds

theorem size (h : v.Holds shape f) : v.data.size = volume shape := by
  rw [h.data_eq, Array.size_ofFn]

theorem exact (h : v.Holds shape f) : v.Exact shape :=
  ⟨h.shape_eq, h.size⟩

/-- What has become of the entries of another view. -/
theorem data_mapIdx [Zero α] {u : View α} (hu : u.Exact shape) (g : Nat → α → α)
    (h : v.Holds shape fun p => g p (u.data.getD p 0)) : v.data = u.data.mapIdx g := by
  refine Array.ext (by rw [h.size, Array.size_mapIdx, hu.size_eq]) fun p hp hp' => ?_
  have hlt : p < u.data.size := by rwa [Array.size_mapIdx] at hp'
  have hentry : u.data[p] = u.data.getD p 0 := Array.getElem_eq_getD 0
  simp only [h.data_eq, Array.getElem_ofFn, Array.getElem_mapIdx, hentry]

theorem congr (h : v.Holds shape f) (hfg : ∀ p < volume shape, f p = g p) : v.Holds shape g where
  shape_eq := h.shape_eq
  data_eq := h.data_eq.trans (congrArg Array.ofFn (funext fun p => hfg p p.isLt))

theorem congr_columns (h : v.Holds (m :: box) (columns m T))
    (hT : ∀ q < volume box, T q = T' q) : v.Holds (m :: box) (columns m T') :=
  h.congr fun p hp => by rw [columns, columns, hT _ (div_lt_right hp)]

theorem get (h : v.Holds shape f) (hidx : InShape idx shape) :
    v.get idx = .ok (f (flat idx shape)) := by
  have hlt := flat_lt hidx
  have hentry : v.data[flat idx shape]? = some (f (flat idx shape)) := by
    rw [h.data_eq, Array.getElem?_eq_getElem (by rwa [Array.size_ofFn]), Array.getElem_ofFn]
  rw [View.get, h.shape_eq, offset_eq_some hidx]
  simp only [hentry]

theorem modify (h : v.Holds shape f) (hidx : InShape idx shape) (u : α → α) :
    ∃ w, v.modify idx u = .ok w ∧
      w.Holds shape fun p => if p = flat idx shape then u (f p) else f p := by
  have hlt : flat idx v.shape < v.data.size := by rw [h.shape_eq, h.size]; exact flat_lt hidx
  have hoffset : offset idx v.shape = some (flat idx v.shape) :=
    offset_eq_some (by rwa [h.shape_eq])
  refine ⟨⟨v.data.modify (flat idx v.shape) u, v.shape, by simpa using v.fits⟩, ?_, h.shape_eq, ?_⟩
  · rw [View.modify, hoffset]
    exact if_pos hlt
  · refine Array.ext (by rw [Array.size_modify, h.size, Array.size_ofFn]) fun p hp _ => ?_
    have hlt : p < v.data.size := by rwa [Array.size_modify] at hp
    have hentry : v.data[p] = f p := by simp only [h.data_eq, Array.getElem_ofFn]
    simp only [Array.getElem_modify, Array.getElem_ofFn, hentry, h.shape_eq, eq_comm]

/-- The entries of one column are replaced, from `first` on. -/
theorem modifyColumn (h : v.Holds (m :: box) f) (hplace : InShape place box) {first : Nat}
    {fs : List (α → α)} (hlen : first + fs.length ≤ m) :
    ∃ w, v.modifyColumn place first fs = .ok w ∧ w.Holds (m :: box) fun p =>
      if p / m = flat place box then appliedFrom first fs (p % m) (f p) else f p := by
  induction fs generalizing v f first with
  | nil => exact ⟨v, rfl, h.congr fun p _ => by rw [appliedFrom_nil, ite_self]⟩
  | cons u fs ih =>
    rw [List.length_cons] at hlen
    have hfirst : first < m := by omega
    have hentry : InShape (first :: place) (m :: box) := ⟨hfirst, hplace⟩
    have hrest : first + 1 + fs.length ≤ m := by omega
    obtain ⟨w, hw, hwf⟩ := h.modify hentry u
    obtain ⟨w', hw', hwf'⟩ := ih hwf hrest
    refine ⟨w', by rw [View.modifyColumn, hw, ok_bind, hw'], hwf'.congr fun p _ => ?_⟩
    -- Position `p` is entry `p % m` of the column `p / m`.
    have haxis : InShape [first] [m] := ⟨hfirst, trivial⟩
    have hpos : p = flat (first :: place) (m :: box) ↔ p / m = flat place box ∧ p % m = first := by
      simpa [flat, volume, and_comm] using @flat_append_iff [first] place [m] box haxis p
    simp only [hpos]
    by_cases hcolumn : p / m = flat place box
    · simp only [hcolumn, true_and, if_true, appliedFrom_cons]
    · simp only [hcolumn, false_and, if_false]

/-- A column is added to. -/
theorem addColumn [Add α] (h : v.Holds (m :: box) f) (hplace : InShape place box) (t : Nat → α) :
    ∃ w, v.addColumn place ((List.range m).map t) = .ok w ∧
      w.Holds (m :: box) fun p => if p / m = flat place box then f p + t (p % m) else f p := by
  have hlen : 0 + (((List.range m).map t).map fun t (x : α) => x + t).length ≤ m := by simp
  obtain ⟨w, hw, hwf⟩ := h.modifyColumn hplace hlen
  refine ⟨w, hw, hwf.congr fun p hp => ?_⟩
  rw [List.map_map, appliedFrom_range _ (mod_lt_left hp)]
  rfl

/-- A column is replaced. -/
theorem setColumn (h : v.Holds (m :: box) f) (hplace : InShape place box) (t : Nat → α) :
    ∃ w, v.setColumn place ((List.range m).map t) = .ok w ∧
      w.Holds (m :: box) fun p => if p / m = flat place box then t (p % m) else f p := by
  have hlen : 0 + (((List.range m).map t).map fun x (_ : α) => x).length ≤ m := by simp
  obtain ⟨w, hw, hwf⟩ := h.modifyColumn hplace hlen
  refine ⟨w, hw, hwf.congr fun p hp => ?_⟩
  rw [List.map_map, appliedFrom_range _ (mod_lt_left hp)]
  rfl

/-- An entry of a column. -/
theorem get_column (h : v.Holds (m :: box) (columns m T)) {i : Nat} (hi : i < m)
    (hplace : InShape place box) : v.get (i :: place) = .ok (T (flat place box) i) := by
  have hidx : InShape (i :: place) (m :: box) := ⟨hi, hplace⟩
  rw [h.get hidx, columns, flat, pair_div _ hi, pair_mod _ hi]

section

variable {i a b c l o : Nat}

theorem get_three (h : v.Holds [l, n, o] f) (ha : a < l) (hb : b < n) (hc : c < o) :
    v.get [a, b, c] = .ok (f (a + l * (b + n * c))) := by
  have hidx : InShape [a, b, c] [l, n, o] := ⟨ha, hb, hc, trivial⟩
  exact h.get hidx

theorem get_line (h : v.Holds [m, l] (columns m T)) (hi : i < m) (ha : a < l) :
    v.get [i, a] = .ok (T a i) := by
  have hplace : InShape [a] [l] := ⟨ha, trivial⟩
  exact h.get_column hi hplace

theorem get_plane (h : v.Holds [m, l, n] (columns m T)) (hi : i < m) (ha : a < l) (hb : b < n) :
    v.get [i, a, b] = .ok (T (a + l * b) i) := by
  have hplace : InShape [a, b] [l, n] := ⟨ha, hb, trivial⟩
  exact h.get_column hi hplace

theorem get_box (h : v.Holds [m, l, n, o] (columns m T)) (hi : i < m) (ha : a < l) (hb : b < n)
    (hc : c < o) : v.get [i, a, b, c] = .ok (T (a + l * (b + n * c)) i) := by
  have hplace : InShape [a, b, c] [l, n, o] := ⟨ha, hb, hc, trivial⟩
  exact h.get_column hi hplace

end

/-! ### Loops -/

/-- **A loop in place.**  If step `k` replaces the entries at the positions that `own` gives to `k`,
and does so knowing that they still are as at the start, every position that is owned is replaced
once. -/
theorem sweep_owned {step : View α → Nat → Except Fault (View α)} (h : v.Holds shape f)
    (own : Nat → Nat) (g : Nat → α)
    (hstep : ∀ k (w : View α) f', k < n → w.Holds shape f' → (∀ p, own p = k → f' p = f p) →
      ∃ w', step w k = .ok w' ∧ w'.Holds shape fun p => if own p = k then g p else f' p) :
    ∃ w, sweep n step v = .ok w ∧ w.Holds shape fun p => if own p < n then g p else f p := by
  let P (k : Nat) (w : View α) : Prop := w.Holds shape fun p => if own p < k then g p else f p
  have hstart : P 0 v := h.congr fun p _ => by simp
  refine sweep_induction P hstart fun k w hk hw => ?_
  obtain ⟨w', hrun, hw'⟩ := hstep k w _ hk hw fun p hp => if_neg (by omega)
  refine ⟨w', hrun, hw'.congr fun p _ => ?_⟩
  rcases Nat.lt_trichotomy (own p) k with hlt | heq | hgt
  · rw [if_neg (Nat.ne_of_lt hlt), if_pos hlt, if_pos (Nat.lt_succ_of_lt hlt)]
  · rw [if_pos heq, if_pos (by omega)]
  · rw [if_neg (by omega), if_neg (by omega), if_neg (by omega)]

variable {own : Nat → Nat} {index : Nat → List Nat}

/-- A loop that adds to one column after the other. -/
theorem addColumns [Add α] (h : v.Holds (m :: box) (columns m T)) (t : Nat → Nat → α)
    (hvisits : VisitsAll index own box n) :
    ∃ w, sweep n (fun v k => v.addColumn (index k) ((List.range m).map (t k))) v = .ok w ∧
      w.Holds (m :: box) (columns m fun q i => T q i + t (own q) i) := by
  obtain ⟨w, hrun, hw⟩ := h.sweep_owned (n := n) (fun p => own (p / m))
    (columns m fun q i => T q i + t (own q) i) fun k w f' hk hw hf' => by
    obtain ⟨w', hrun, hw'⟩ := hw.addColumn (hvisits.inShape k hk) (t k)
    refine ⟨w', hrun, hw'.congr fun p hp => ?_⟩
    have howned := hvisits.own_eq (p / m) (div_lt_right hp) k hk
    by_cases hp' : own (p / m) = k
    · rw [if_pos (howned.1 hp'), if_pos hp', hf' p hp', columns, columns, hp']
    · rw [if_neg (mt howned.2 hp'), if_neg hp']
  exact ⟨w, hrun, hw.congr fun p hp => if_pos (hvisits.own_lt _ (div_lt_right hp))⟩

section

variable [Add α] {l o : Nat} {outer : View α → Nat → Except Fault (View α)}

/-- A loop over a line that adds to its columns. -/
theorem addColumns_line (h : v.Holds [m, l] (columns m T)) (t : Nat → Nat → α)
    (hstep : ∀ w, ∀ a < l, outer w a = w.addColumn [a] ((List.range m).map (t a))) :
    ∃ w, sweep l outer v = .ok w ∧ w.Holds [m, l] (columns m fun q i => T q i + t q i) := by
  rw [sweep_congr hstep]
  exact h.addColumns t (visits_line l)

/-- A loop over a plane that adds to its columns. -/
theorem addColumns_plane (h : v.Holds [m, l, n] (columns m T)) (t : Nat → Nat → Nat → α)
    (hstep : ∀ w, ∀ b < n, outer w b =
      sweep l (fun w a => w.addColumn [a, b] ((List.range m).map (t a b))) w) :
    ∃ w, sweep n outer v = .ok w ∧
      w.Holds [m, l, n] (columns m fun q i => T q i + t (q % l) (q / l) i) := by
  rw [sweep_pairs_eq (fun w b a => w.addColumn [a, b] ((List.range m).map (t a b))) hstep]
  exact h.addColumns (fun q => t (q % l) (q / l)) (visits_plane l n)

/-- A loop over a box that adds to its columns. -/
theorem addColumns_box (h : v.Holds [m, l, n, o] (columns m T)) (t : Nat → Nat → Nat → Nat → α)
    (hstep : ∀ w, ∀ c < o, outer w c = sweep n (fun w b => sweep l (fun w a =>
      w.addColumn [a, b, c] ((List.range m).map (t a b c))) w) w) :
    ∃ w, sweep o outer v = .ok w ∧ w.Holds [m, l, n, o]
      (columns m fun q i => T q i + t (q % l) (q / l % n) (q / (l * n)) i) := by
  rw [sweep_triples_eq (fun w c b a => w.addColumn [a, b, c] ((List.range m).map (t a b c))) hstep]
  exact h.addColumns (fun q => t (q % l) (q / l % n) (q / (l * n))) (visits_box l n o)

end

/-- A loop that replaces one column after the other, each by a function of it. -/
theorem mapColumns {step : View α → Nat → Except Fault (View α)}
    (h : v.Holds (m :: box) (columns m T)) (hvisits : VisitsAll index own box n)
    (hstep : ∀ k (w : View α), k < n →
      (∀ i < m, w.get (i :: index k) = .ok (T (flat (index k) box) i)) →
      step w k = w.setColumn (index k) ((List.range m).map (T' (flat (index k) box)))) :
    ∃ w, sweep n step v = .ok w ∧ w.Holds (m :: box) (columns m T') := by
  obtain ⟨w, hrun, hw⟩ := h.sweep_owned (n := n) (fun p => own (p / m))
    (columns m T') fun k w f' hk hw hf' => by
    have hplace := hvisits.inShape k hk
    have howned := fun p (hp : p < volume (m :: box)) =>
      hvisits.own_eq (p / m) (div_lt_right hp) k hk
    have hcolumn : ∀ i < m, w.get (i :: index k) = .ok (T (flat (index k) box) i) := by
      intro i hi
      have hidx : InShape (i :: index k) (m :: box) := ⟨hi, hplace⟩
      have hdiv : flat (i :: index k) (m :: box) / m = flat (index k) box := pair_div _ hi
      have hmod : flat (i :: index k) (m :: box) % m = i := pair_mod _ hi
      rw [hw.get hidx, hf' _ ((howned _ (flat_lt hidx)).2 hdiv), columns, hdiv, hmod]
    obtain ⟨w', hrun, hw'⟩ := hw.setColumn hplace (T' (flat (index k) box))
    refine ⟨w', (hstep k w hk hcolumn).trans hrun, hw'.congr fun p hp => ?_⟩
    by_cases hp' : own (p / m) = k
    · have hflat := (howned p hp).1 hp'
      rw [if_pos hflat, if_pos hp', columns, hflat]
    · rw [if_neg (mt (howned p hp).2 hp'), if_neg hp']
  exact ⟨w, hrun, hw.congr fun p hp => if_pos (hvisits.own_lt _ (div_lt_right hp))⟩

section

variable {l o : Nat}

/-- A loop over a plane that replaces its columns, each by a function of it. -/
theorem mapColumns_plane (h : v.Holds [m, l, n] (columns m T)) (T' : Nat → Nat → α)
    {step : View α → Nat → Nat → Except Fault (View α)}
    (hstep : ∀ w, ∀ a < l, ∀ b < n, (∀ i < m, w.get [i, a, b] = .ok (T (a + l * b) i)) →
      step w b a = w.setColumn [a, b] ((List.range m).map (T' (a + l * b)))) :
    ∃ w, sweep n (fun w b => sweep l (fun w a => step w b a) w) v = .ok w ∧
      w.Holds [m, l, n] (columns m T') := by
  rw [sweep_pairs n l step]
  refine h.mapColumns (visits_plane l n) fun k w hk hget => ?_
  obtain ⟨ha, hb, -⟩ := (visits_plane l n).inShape k hk
  exact hstep w _ ha _ hb hget

/-- A loop over a box that replaces its columns, each by a function of it. -/
theorem mapColumns_box (h : v.Holds [m, l, n, o] (columns m T)) (T' : Nat → Nat → α)
    {step : View α → Nat → Nat → Nat → Except Fault (View α)}
    (hstep : ∀ w, ∀ a < l, ∀ b < n, ∀ c < o,
      (∀ i < m, w.get [i, a, b, c] = .ok (T (a + l * (b + n * c)) i)) →
      step w c b a = w.setColumn [a, b, c] ((List.range m).map (T' (a + l * (b + n * c))))) :
    ∃ w, sweep o (fun w c => sweep n (fun w b => sweep l (fun w a => step w c b a) w) w) v = .ok w ∧
      w.Holds [m, l, n, o] (columns m T') := by
  rw [sweep_triples_eq step fun _ _ _ => rfl]
  refine h.mapColumns (visits_box l n o) fun k w hk hget => ?_
  obtain ⟨ha, hb, hc, -⟩ := (visits_box l n o).inShape k hk
  exact hstep w _ ha _ hb _ hc hget

end

/-- A loop that adds to one entry after the other. -/
theorem adds [Add α] (h : v.Holds shape f) (t : Nat → α) (hvisits : Visits index own shape n) :
    ∃ w, sweep n (fun v k => v.add (index k) (t k)) v = .ok w ∧
      w.Holds shape fun p => if own p < n then f p + t (own p) else f p := by
  refine h.sweep_owned own (fun p => f p + t (own p)) fun k w f' hk hw hf' => ?_
  obtain ⟨w', hrun, hw'⟩ := hw.modify (hvisits.inShape k hk) (· + t k)
  refine ⟨w', hrun, hw'.congr fun p hp => ?_⟩
  have howned := hvisits.own_eq p hp k hk
  by_cases hp' : own p = k
  · rw [if_pos (howned.1 hp'), if_pos hp', hp', hf' p hp']
  · rw [if_neg (mt howned.2 hp'), if_neg hp']

/-- A loop that adds to the entries at one position of the last axis. -/
theorem adds_part [Add α] {c : Nat} (h : v.Holds (box ++ [m]) f) (t : Nat → α)
    (hvisits : VisitsAll index own box n) (hc : c < m) :
    ∃ w, sweep n (fun v k => v.add (index k ++ [c]) (t k)) v = .ok w ∧ w.Holds (box ++ [m]) fun p =>
      if p / volume box = c then f p + t (own (p % volume box)) else f p := by
  obtain ⟨w, hrun, hw⟩ := h.adds t (hvisits.part hc)
  refine ⟨w, hrun, hw.congr fun p hp => ?_⟩
  rw [volume_append] at hp
  by_cases hpart : p / volume box = c
  · have hlt := hvisits.own_lt _ (mod_lt_left hp)
    simp only [hpart, if_true, hlt]
  · simp only [hpart, if_false, Nat.lt_irrefl]

/-- A loop that adds to all entries at one place of the first axes after the other. -/
theorem adds_last [Add α] (h : v.Holds (box ++ [m]) f) (t : Nat → α)
    (hvisits : VisitsAll index own box n) :
    ∃ w, sweep n (fun w k => sweep m (fun w c => w.add (index k ++ [c]) (t k)) w) v = .ok w ∧
      w.Holds (box ++ [m]) fun p => f p + t (own (p % volume box)) := by
  have hnested := hvisits.nested (visits_line m)
  obtain ⟨w, hrun, hw⟩ := h.adds (fun k => t (k / m)) hnested.toVisits
  rw [sweep_pairs_eq (fun (w : View α) k c => w.add (index k ++ [c]) (t k)) fun _ _ _ => rfl]
  refine ⟨w, hrun, hw.congr fun p hp => ?_⟩
  rw [if_pos (hnested.own_lt p hp), pair_div]
  rw [volume_append] at hp
  simpa [volume] using div_lt_right hp

section

variable [Add α] {l o c : Nat} {outer : View α → Nat → Except Fault (View α)}

/-- A loop over a plane that adds to its entries. -/
theorem adds_plane (h : v.Holds [l, n, m] f) (hc : c < m) (t : Nat → Nat → α)
    (hstep : ∀ w, ∀ b < n, outer w b = sweep l (fun w a => w.add [a, b, c] (t a b)) w) :
    ∃ w, sweep n outer v = .ok w ∧ w.Holds [l, n, m] fun p =>
      if p / (l * n) = c then f p + t (p % (l * n) % l) (p % (l * n) / l) else f p := by
  have hvolume : volume [l, n] = l * n := by simp [volume]
  rw [sweep_pairs_eq (fun w b a => w.add [a, b, c] (t a b)) hstep, ← hvolume]
  exact h.adds_part (fun k => t (k % l) (k / l)) (visits_plane l n) hc

/-- A loop over a box that adds to its entries. -/
theorem adds_box (h : v.Holds [l, n, o, m] f) (hc : c < m) (t : Nat → Nat → Nat → α)
    (hstep : ∀ w, ∀ k < o, outer w k =
      sweep n (fun w b => sweep l (fun w a => w.add [a, b, k, c] (t a b k)) w) w) :
    ∃ w, sweep o outer v = .ok w ∧ w.Holds [l, n, o, m] fun p =>
      if p / (l * n * o) = c then
        f p + t (p % (l * n * o) % l) (p % (l * n * o) / l % n) (p % (l * n * o) / (l * n))
      else f p := by
  have hvolume : volume [l, n, o] = l * n * o := by simp [volume, Nat.mul_assoc]
  rw [sweep_triples_eq (fun w k b a => w.add [a, b, k, c] (t a b k)) hstep, ← hvolume]
  exact h.adds_part (fun k => t (k % l) (k / l % n) (k / (l * n))) (visits_box l n o) hc

/-- A loop over a plane that adds to all entries at each of its places. -/
theorem adds_last_plane (h : v.Holds [l, n, m] f) (t : Nat → Nat → α)
    (hstep : ∀ w, ∀ b < n, outer w b =
      sweep l (fun w a => sweep m (fun w c => w.add [a, b, c] (t a b)) w) w) :
    ∃ w, sweep n outer v = .ok w ∧ w.Holds [l, n, m] fun p => f p + t (p % l) (p / l % n) := by
  have hvolume : volume [l, n] = l * n := by simp [volume]
  have h' : v.Holds ([l, n] ++ [m]) f := h
  obtain ⟨w, hrun, hw⟩ := h'.adds_last (fun k => t (k % l) (k / l)) (visits_plane l n)
  rw [sweep_pairs_eq (fun w b a => sweep m (fun w c => w.add [a, b, c] (t a b)) w) hstep]
  refine ⟨w, hrun, hw.congr fun p _ => ?_⟩
  rw [hvolume, id, Nat.mod_mul_right_mod, Nat.mod_mul_right_div_self]

/-- A loop over a box that adds to all entries at each of its places. -/
theorem adds_last_box (h : v.Holds [l, n, o, m] f) (t : Nat → Nat → Nat → α)
    (hstep : ∀ w, ∀ k < o, outer w k = sweep n (fun w b => sweep l (fun w a =>
      sweep m (fun w c => w.add [a, b, k, c] (t a b k)) w) w) w) :
    ∃ w, sweep o outer v = .ok w ∧ w.Holds [l, n, o, m] fun p =>
      f p + t (p % l) (p / l % n) (p / (l * n) % o) := by
  have hvolume : volume [l, n, o] = l * n * o := by simp [volume, Nat.mul_assoc]
  have h' : v.Holds ([l, n, o] ++ [m]) f := h
  obtain ⟨w, hrun, hw⟩ := h'.adds_last (fun k => t (k % l) (k / l % n) (k / (l * n)))
    (visits_box l n o)
  rw [sweep_triples_eq (fun w k b a => sweep m (fun w c => w.add [a, b, k, c] (t a b k)) w) hstep]
  refine ⟨w, hrun, hw.congr fun p _ => ?_⟩
  rw [hvolume, id, Nat.mod_mul_right_div_self, Nat.mul_assoc, Nat.mod_mul_right_mod,
    Nat.mod_mul_right_div_self, Nat.mod_mul_right_mod]

end

/-- A loop that replaces one entry after the other. -/
theorem sets {step : View α → Nat → Except Fault (View α)} (h : v.Holds shape f) (g : Nat → α)
    (hvisits : VisitsAll index own shape n)
    (hstep : ∀ w, ∀ k < n, step w k = w.set (index k) (g (flat (index k) shape))) :
    ∃ w, sweep n step v = .ok w ∧ w.Holds shape g := by
  obtain ⟨w, hrun, hw⟩ := h.sweep_owned (n := n) own g fun k w f' hk hw _ => by
    obtain ⟨w', hrun, hw'⟩ := hw.modify (hvisits.inShape k hk) fun _ => g (flat (index k) shape)
    refine ⟨w', (hstep w k hk).trans hrun, hw'.congr fun p hp => ?_⟩
    have howned := hvisits.own_eq p hp k hk
    by_cases hp' : own p = k
    · rw [if_pos (howned.1 hp'), if_pos hp', howned.1 hp']
    · rw [if_neg (mt howned.2 hp'), if_neg hp']
  exact ⟨w, hrun, hw.congr fun p hp => if_pos (hvisits.own_lt p hp)⟩

/-- A loop over the first axis whose steps are loops over the others, and that replaces one entry
after the other. -/
theorem sets_nested {l : Nat} {outer : View α → Nat → Except Fault (View α)}
    (h : v.Holds (l :: box) f) (g : Nat → α) (hvisits : VisitsAll index own box n)
    (hstep : ∀ w, ∀ a < l, outer w a = sweep n (fun w k =>
      w.set (a :: index k) (g (flat (a :: index k) (l :: box)))) w) :
    ∃ w, sweep l outer v = .ok w ∧ w.Holds (l :: box) g := by
  rw [sweep_pairs_eq (fun w a k => w.set (a :: index k) (g (flat (a :: index k) (l :: box)))) hstep]
  exact h.sets g ((visits_line l).nested hvisits) fun _ _ _ => rfl

end Holds

/-! ### Parts of a buffer -/

/-- A buffer is viewed with a shape of its own length. -/
theorem ofBuffer_exact {buf : Array α} (hpos : ∀ k ∈ shape, 0 < k) (hsize : buf.size = volume shape)
    (hfits : volume shape < Size.bufferBound) :
    ∃ v, ofBuffer buf shape = .ok v ∧ v.Exact shape ∧ v.data = buf := by
  have hvolume := nonemptyVolume_of_pos hpos
  exact ⟨_, ofBuffer_ok (Nat.le_of_eq hsize.symm) (by rwa [hvolume]), ⟨rfl, hsize⟩, rfl⟩

/-- The first entries of a buffer are viewed, whatever they are. -/
theorem window_ok {buf : Array α} (hpos : ∀ k ∈ shape, 0 < k) (hn : volume shape = n)
    (hle : n ≤ buf.size) (hfits : n < Size.bufferBound) :
    ∃ v rest, window buf n shape = .ok (v, rest) ∧ v.Exact shape ∧
      ∀ w : View α, w.Exact shape → (w.data ++ rest).size = buf.size := by
  have hsize : (buf.extract 0 n).size = volume shape := by
    rw [Array.size_extract, hn]
    omega
  obtain ⟨v, hv, hexact, -⟩ := ofBuffer_exact hpos hsize (hn ▸ hfits)
  refine ⟨v, buf.extract n buf.size, ?_, hexact, fun w hw => ?_⟩
  · rw [window, slice_eq (Nat.zero_le n) hle, ok_bind, hv]
    rfl
  · rw [Array.size_append, hw.size_eq, hn, Array.size_extract]
    omega

end View

theorem cut_ok {buf : Array β} {n m : Nat} (h : buf.size = n + m) :
    ∃ first rest, cut buf n = .ok (first, rest) ∧ first.size = n ∧ rest.size = m := by
  have hle : n ≤ buf.size := by omega
  refine ⟨buf.extract 0 n, buf.extract n buf.size, ?_, ?_, ?_⟩
  · rw [cut, require_eq_ok.2 hle]
    rfl
  all_goals
    rw [Array.size_extract]
    omega

end TensorDiffusion
