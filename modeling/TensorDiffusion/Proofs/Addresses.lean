import Mathlib.Algebra.BigOperators.Ring.Finset
import Mathlib.Data.Set.Function
import TensorDiffusion.Proofs.Views

/-!
# The addresses of a view

A view gives every index of its shape an entry of the buffer of its own
(`View.ofBuffer_addresses`).  The indices inside the shape correspond one to one to the positions
below the volume, by the products of the extents before each axis; an index outside its axis is
reported, wherever its flat position would be; and a write changes the entry at its index alone.  A
buffer is viewed if it reaches to the last entry.  What it holds beyond is not addressed, and not a
reason to report it (`View.longer_buffer_is_viewed`).

* `columnMajor`, `flat_eq_columnMajor`: the flat position by its formula.
* `flat_injective`, `exists_flat`: different indices have different positions, and every position
  below the volume is that of an index.
-/

namespace TensorDiffusion

variable {idx idx' shape : List Nat}

/-! ### Positions -/

/-- The flat position of an index: the position on an axis counts as many entries as the axes
before it have indices. -/
def columnMajor (shape idx : List Nat) : Nat :=
  ∑ k ∈ Finset.range shape.length, idx.getD k 0 * ∏ j ∈ Finset.range k, shape.getD j 0

theorem flat_eq_columnMajor (h : InShape idx shape) : flat idx shape = columnMajor shape idx := by
  induction idx generalizing shape with
  | nil =>
    cases shape with
    | nil => rfl
    | cons n shape => exact h.elim
  | cons i idx ih =>
    cases shape with
    | nil => exact h.elim
    | cons n shape =>
      rw [flat, ih h.2, columnMajor, columnMajor, List.length_cons, Finset.sum_range_succ',
        Finset.mul_sum]
      simp [Finset.prod_range_succ', mul_comm, mul_left_comm, add_comm]

/-- Different indices have different positions. -/
theorem flat_injective (h : InShape idx shape) (h' : InShape idx' shape)
    (heq : flat idx shape = flat idx' shape) : idx = idx' := by
  induction shape generalizing idx idx' with
  | nil =>
    cases idx with
    | nil =>
      cases idx' with
      | nil => rfl
      | cons i idx' => exact h'.elim
    | cons i idx => exact h.elim
  | cons n shape ih =>
    cases idx with
    | nil => exact h.elim
    | cons i idx =>
      cases idx' with
      | nil => exact h'.elim
      | cons i' idx' =>
        simp only [flat] at heq
        have hfirst : i = i' := by rw [← pair_mod (flat idx shape) h.1, heq, pair_mod _ h'.1]
        have hrest : flat idx shape = flat idx' shape := by
          rw [← pair_div (flat idx shape) h.1, heq, pair_div _ h'.1]
        rw [hfirst, ih h.2 h'.2 hrest]

/-- Every position below the volume is that of an index. -/
theorem exists_flat {k : Nat} (h : k < volume shape) :
    ∃ idx, InShape idx shape ∧ flat idx shape = k := by
  induction shape generalizing k with
  | nil => exact ⟨[], trivial, (Nat.lt_one_iff.1 h).symm⟩
  | cons n shape ih =>
    obtain ⟨idx, hidx, hflat⟩ := ih (div_lt_right h)
    refine ⟨k % n :: idx, ⟨mod_lt_left h, hidx⟩, ?_⟩
    rw [flat, hflat, Nat.mod_add_div]

/-- The indices of a shape and the positions below its volume correspond one to one. -/
theorem columnMajor_bijOn (shape : List Nat) :
    Set.BijOn (columnMajor shape) {idx | InShape idx shape} (Set.Iio (volume shape)) := by
  refine ⟨fun idx h => ?_, fun idx h idx' h' heq => ?_, fun k hk => ?_⟩
  · rw [← flat_eq_columnMajor h]
    exact flat_lt h
  · rw [← flat_eq_columnMajor h, ← flat_eq_columnMajor h'] at heq
    exact flat_injective h h' heq
  · obtain ⟨idx, h, hflat⟩ := exists_flat hk
    exact ⟨idx, h, (flat_eq_columnMajor h).symm.trans hflat⟩

theorem offset_eq_none (h : ¬ InShape idx shape) : offset idx shape = none := by
  induction idx generalizing shape with
  | nil =>
    cases shape with
    | nil => exact absurd trivial h
    | cons n shape => rfl
  | cons i idx ih =>
    cases shape with
    | nil => rfl
    | cons n shape =>
      by_cases hi : i < n
      · rw [offset, if_pos hi, ih fun hrest => h ⟨hi, hrest⟩]
      · rw [offset, if_neg hi]

/-! ### Views -/

namespace View

variable {α : Type} {v : View α}

theorem get_of_inShape (h : InShape idx v.shape) :
    ∃ a, v.data[columnMajor v.shape idx]? = some a ∧ v.get idx = .ok a := by
  have hlt := flat_lt_size h
  have hentry := Array.getElem?_eq_getElem hlt
  refine ⟨v.data[flat idx v.shape], ?_, ?_⟩
  · rw [← flat_eq_columnMajor h, hentry]
  · rw [get, offset_eq_some h]
    simp only [hentry]

/-- A write changes the entry at its index alone. -/
theorem modify_of_inShape (h : InShape idx v.shape) (f : α → α) :
    ∃ w, v.modify idx f = .ok w ∧ w.shape = v.shape ∧ ∀ i,
      w.data[i]? = if i = columnMajor v.shape idx then v.data[i]?.map f else v.data[i]? := by
  have hrun : v.modify idx f =
      .ok ⟨v.data.modify (flat idx v.shape) f, v.shape, by simpa using v.fits⟩ := by
    rw [modify, offset_eq_some h]
    exact if_pos (flat_lt_size h)
  refine ⟨_, hrun, rfl, fun i => ?_⟩
  rw [Array.getElem?_modify, flat_eq_columnMajor h]
  simp only [eq_comm]

theorem get_of_not_inShape (h : ¬ InShape idx v.shape) :
    v.get idx = .error (.violated (.axis idx v.shape)) := by
  rw [get, offset_eq_none h]
  rfl

theorem modify_of_not_inShape (h : ¬ InShape idx v.shape) (f : α → α) :
    v.modify idx f = .error (.violated (.axis idx v.shape)) := by
  rw [modify, offset_eq_none h]
  rfl

theorem ofBuffer_of_size_lt {data : Array α} (hfits : nonemptyVolume shape < Size.bufferBound)
    (h : data.size < volume shape) :
    ofBuffer data shape = .error (.violated (.shortBuffer data.size)) := by
  have hshape : checkShape data.size shape = .ok () := require_eq_ok.2 hfits
  rw [ofBuffer, hshape, ok_bind, dif_neg (Nat.not_le.2 h)]
  rfl

/-- **Views address their buffers one to one.**  A buffer is viewed with a shape that does not
overflow exactly if it has an entry for every index, and is reported as too short otherwise.  In the
view the indices inside the shape correspond one to one to the positions below the volume of the
shape, by the column-major formula.  Reading at an index inside the shape finds the entry at its
position, and writing there changes this entry and no other; an index outside the shape is reported
in both cases. -/
theorem ofBuffer_addresses (data : Array α) (shape : List Nat)
    (hfits : nonemptyVolume shape < Size.bufferBound) :
    ((∃ v, ofBuffer data shape = .ok v) ↔ volume shape ≤ data.size) ∧
    (data.size < volume shape →
      ofBuffer data shape = .error (.violated (.shortBuffer data.size))) ∧
    ∀ v, ofBuffer data shape = .ok v → v.data = data ∧
      Set.BijOn (columnMajor shape) {idx | InShape idx shape} (Set.Iio (volume shape)) ∧
      (∀ idx, InShape idx shape →
        (∃ a, data[columnMajor shape idx]? = some a ∧ v.get idx = .ok a) ∧
        ∀ f, ∃ w, v.modify idx f = .ok w ∧ w.shape = shape ∧ ∀ i,
          w.data[i]? = if i = columnMajor shape idx then data[i]?.map f else data[i]?) ∧
      ∀ idx, ¬ InShape idx shape → v.get idx = .error (.violated (.axis idx shape)) ∧
        ∀ f, v.modify idx f = .error (.violated (.axis idx shape)) := by
  refine ⟨⟨?_, fun hle => ⟨_, ofBuffer_ok hle hfits⟩⟩, ofBuffer_of_size_lt hfits, fun v hv => ?_⟩
  · rintro ⟨v, hv⟩
    obtain ⟨-, rfl, rfl⟩ := ofBuffer_eq_ok.1 hv
    exact v.fits
  · obtain ⟨-, rfl, rfl⟩ := ofBuffer_eq_ok.1 hv
    exact ⟨rfl, columnMajor_bijOn v.shape,
      fun idx h => ⟨get_of_inShape h, modify_of_inShape h⟩,
      fun idx h => ⟨get_of_not_inShape h, modify_of_not_inShape h⟩⟩

/-- Two rows and three columns of six numbers: every number has one index, and the first axis has no
fifth row although the buffer has a fifth entry. -/
theorem ofBuffer_addresses_two_by_three :
    ∃ v, ofBuffer #[0, 1, 2, 3, 4, 5] [2, 3] = .ok v ∧
      v.get [1, 2] = .ok 5 ∧ v.get [4, 0] = .error (.violated (.axis [4, 0] [2, 3])) ∧
      ∃ w, v.modify [0, 1] (· + 7) = .ok w ∧ w.data[2]? = some 9 ∧ w.data[3]? = some 3 := by
  obtain ⟨hviewed, -, haddresses⟩ := ofBuffer_addresses #[0, 1, 2, 3, 4, 5] [2, 3] (by decide)
  obtain ⟨v, hv⟩ := hviewed.2 (by decide)
  obtain ⟨-, -, hinside, houtside⟩ := haddresses v hv
  obtain ⟨⟨a, ha, hget⟩, -⟩ := hinside [1, 2] ⟨by decide, by decide, trivial⟩
  obtain ⟨-, hmodify⟩ := hinside [0, 1] ⟨by decide, by decide, trivial⟩
  obtain ⟨w, hw, -, hentries⟩ := hmodify (· + 7)
  refine ⟨v, hv, ?_, (houtside [4, 0] fun h => absurd h.1 (by decide)).1, w, hw, ?_, ?_⟩
  · obtain rfl : 5 = a := Option.some.inj ha
    exact hget
  · exact hentries 2
  · exact hentries 3

/-- **A longer buffer is viewed**, although it is not what the shape describes. -/
theorem longer_buffer_is_viewed :
    (#[0, 1, 2, 3, 4, 5, 6] : Array Nat).size ≠ volume [2, 3] ∧
      ∃ v, ofBuffer (#[0, 1, 2, 3, 4, 5, 6] : Array Nat) [2, 3] = .ok v :=
  ⟨by decide, _, rfl⟩

end View

end TensorDiffusion
