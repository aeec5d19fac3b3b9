import TensorDiffusion.Proofs.Indexing
import TensorDiffusion.Proofs.Loops
import TensorDiffusion.View

/-!
# Sizes and views that are accepted

When checked arithmetic on sizes returns, and what a view holds at an index.

* `Size.product_ok`, `View.ofBuffer_ok`: a list of extents whose product, the empty axes left out,
  is below the bound of buffers can be multiplied out in any order and viewed.
* `View.get_eq`: an index inside the shape finds the entry at its flat position.
-/

namespace TensorDiffusion

/-! ### Sizes -/

namespace Size

theorem add_eq_ok {a b m : Nat} : add a b = .ok m ↔ a + b < bound ∧ a + b = m :=
  fit_eq_ok

theorem mul_eq_ok {a b m : Nat} : mul a b = .ok m ↔ a * b < bound ∧ a * b = m :=
  fit_eq_ok

theorem pow_eq_ok {a k m : Nat} : pow a k = .ok m ↔ a ^ k < bound ∧ a ^ k = m :=
  fit_eq_ok

theorem bufferBound_le_bound : bufferBound ≤ bound :=
  Nat.div_le_self _ _

theorem lt_bound {n : Nat} (h : n < bufferBound) : n < bound :=
  Nat.lt_of_lt_of_le h bufferBound_le_bound

theorem add_ok {a b : Nat} (h : a + b < bufferBound) : add a b = .ok (a + b) :=
  add_eq_ok.2 ⟨lt_bound h, rfl⟩

theorem mul_ok {a b : Nat} (h : a * b < bufferBound) : mul a b = .ok (a * b) :=
  mul_eq_ok.2 ⟨lt_bound h, rfl⟩

theorem pow_ok {a k : Nat} (h : a ^ k < bufferBound) : pow a k = .ok (a ^ k) :=
  pow_eq_ok.2 ⟨lt_bound h, rfl⟩

theorem reserve_eq_ok {width count : Nat} :
    reserve width count = .ok () ↔ width * count < bufferBound :=
  require_eq_ok

theorem reserve_of_not_lt {width count : Nat} (h : ¬ width * count < bufferBound) :
    reserve width count = .error (.violated .capacityOverflow) :=
  require_of_not h

/-- Entries that are fewer than `2 ^ 56` have room, however wide. -/
theorem bytes_mul_lt {width n : Nat} (hwidth : width ≤ 64) (h : n < 2 ^ 56) :
    width * n < bufferBound :=
  calc width * n ≤ 64 * n := Nat.mul_le_mul_right n hwidth
    _ < 64 * 2 ^ 56 := Nat.mul_lt_mul_of_pos_left h (by decide)
    _ < bufferBound := by decide

end Size

/-- What has room has a size. -/
theorem lt_of_bytes {α : Type} [Stored α] {n : Nat} (h : Stored.bytes α * n < Size.bufferBound) :
    n < Size.bufferBound :=
  Nat.lt_of_le_of_lt (Nat.le_mul_of_pos_left _ Stored.bytes_pos) h

/-- Scalars for `ne` elements, `count` for each, have room in a buffer.  Sizes are multiplied
before elements are counted, so one element must have room even where there are none. -/
def FitsMemory (α : Type) [Stored α] (count ne : Nat) : Prop :=
  Stored.bytes α * (count * max 1 ne) < Size.bufferBound

instance (α : Type) [Stored α] (count ne : Nat) : Decidable (FitsMemory α count ne) :=
  inferInstanceAs (Decidable (_ < _))

namespace FitsMemory

variable {α : Type} [Stored α] {count ne : Nat}

theorem lt (h : FitsMemory α count ne) : count * max 1 ne < Size.bufferBound :=
  lt_of_bytes h

theorem one (h : FitsMemory α count ne) : Stored.bytes α * count < Size.bufferBound :=
  Nat.lt_of_le_of_lt (Nat.mul_le_mul_left _ (Nat.le_mul_of_pos_right _ (by omega))) h

theorem one_lt (h : FitsMemory α count ne) : count < Size.bufferBound :=
  lt_of_bytes h.one

theorem mono (h : FitsMemory α count ne) {fewer : Nat} (hle : fewer ≤ count) :
    FitsMemory α fewer ne :=
  Nat.lt_of_le_of_lt (Nat.mul_le_mul_left _ (Nat.mul_le_mul_right _ hle)) h

end FitsMemory

/-- A buffer of copies of a scalar is made where there is room for it. -/
theorem filled_ok {α : Type} [Stored α] {n : Nat} {v : α}
    (h : Stored.bytes α * n < Size.bufferBound) : filled n v = .ok (Array.replicate n v) := by
  rw [filled, Size.reserve_eq_ok.2 h]
  rfl

theorem FitsMemory.filled_ok {α : Type} [Stored α] {count ne : Nat} {v : α}
    (h : FitsMemory α count ne) : filled (count * ne) v = .ok (Array.replicate (count * ne) v) :=
  TensorDiffusion.filled_ok <| Nat.lt_of_le_of_lt
    (Nat.mul_le_mul_left _ (Nat.mul_le_mul_left _ (Nat.le_max_right 1 ne))) h

/-! ### Extents -/

/-- The number of indices of a shape whose empty axes are left out. -/
def nonemptyVolume (shape : List Nat) : Nat :=
  volume (shape.filter (· ≠ 0))

@[simp]
theorem nonemptyVolume_nil : nonemptyVolume [] = 1 := rfl

@[simp]
theorem nonemptyVolume_cons (n : Nat) (shape : List Nat) :
    nonemptyVolume (n :: shape) = max 1 n * nonemptyVolume shape := by
  cases n with
  | zero => simp [nonemptyVolume]
  | succ n =>
    rw [Nat.max_eq_right (Nat.succ_pos n)]
    simp [nonemptyVolume, volume]

theorem nonemptyVolume_pos (shape : List Nat) : 0 < nonemptyVolume shape := by
  induction shape with
  | nil => exact Nat.one_pos
  | cons n shape ih => rw [nonemptyVolume_cons]; exact Nat.mul_pos (by omega) ih

theorem nonemptyVolume_replicate (dim n : Nat) :
    nonemptyVolume (List.replicate dim n) = max 1 n ^ dim := by
  induction dim with
  | zero => rfl
  | succ dim ih =>
    rw [List.replicate_succ, nonemptyVolume_cons, ih, Nat.pow_succ, Nat.mul_comm]

/-- Without empty axes, save perhaps the last, the count of elements. -/
theorem nonemptyVolume_elements {shape : List Nat} (h : ∀ n ∈ shape, 0 < n) (ne : Nat) :
    nonemptyVolume (shape ++ [ne]) = volume shape * max 1 ne := by
  induction shape with
  | nil => simp [volume]
  | cons n shape ih =>
    have hn : max 1 n = n := Nat.max_eq_right (h n List.mem_cons_self)
    rw [List.cons_append, nonemptyVolume_cons, volume, hn, Nat.mul_assoc,
      ih fun m hm => h m (List.mem_cons_of_mem n hm)]

theorem volume_append (shape rest : List Nat) :
    volume (shape ++ rest) = volume shape * volume rest := by
  induction shape with
  | nil => exact (Nat.one_mul _).symm
  | cons n shape ih => rw [List.cons_append, volume, ih, volume, Nat.mul_assoc]

theorem volume_replicate (dim n : Nat) : volume (List.replicate dim n) = n ^ dim := by
  induction dim with
  | zero => rfl
  | succ dim ih => rw [List.replicate_succ, volume, ih, Nat.pow_succ, Nat.mul_comm]

/-- Some first extents hold no more indices than all with the empty axes left out. -/
theorem volume_take_le_nonemptyVolume (shape : List Nat) (k : Nat) :
    volume (shape.take k) ≤ nonemptyVolume shape := by
  induction shape generalizing k with
  | nil => rw [List.take_nil]; exact Nat.le_refl 1
  | cons n shape ih =>
    rw [nonemptyVolume_cons]
    cases k with
    | zero => exact Nat.mul_pos (by omega) (nonemptyVolume_pos shape)
    | succ k => exact Nat.mul_le_mul (Nat.le_max_right 1 n) (ih k)

theorem volume_le_nonemptyVolume (shape : List Nat) : volume shape ≤ nonemptyVolume shape := by
  have hle := volume_take_le_nonemptyVolume shape shape.length
  rwa [List.take_length] at hle

/-- Without empty axes the number of all indices. -/
theorem nonemptyVolume_of_pos {shape : List Nat} (h : ∀ n ∈ shape, 0 < n) :
    nonemptyVolume shape = volume shape := by
  rw [nonemptyVolume, List.filter_eq_self.2 fun n hn => by simp [Nat.ne_of_gt (h n hn)]]

namespace Size

/-- The sizes can be multiplied from left to right: every product on the way is a size. -/
def Multiplied (sizes : List Nat) : Prop :=
  ∀ k, volume (sizes.take k) < bound

theorem foldlM_mul_ok {sizes : List Nat} {a : Nat} (h : ∀ k, a * volume (sizes.take k) < bound) :
    sizes.foldlM mul a = .ok (a * volume sizes) := by
  induction sizes generalizing a with
  | nil => rw [List.foldlM_nil, volume, Nat.mul_one]; rfl
  | cons n sizes ih =>
    have hfirst : mul a n = .ok (a * n) := mul_eq_ok.2 ⟨by simpa [volume] using h 1, rfl⟩
    have hrest : ∀ k, a * n * volume (sizes.take k) < bound := by
      intro k
      have hk := h (k + 1)
      rwa [List.take_succ_cons, volume, ← Nat.mul_assoc] at hk
    rw [List.foldlM_cons, hfirst, ok_bind, ih hrest, volume, Nat.mul_assoc]

theorem Multiplied.product_ok {sizes : List Nat} (h : Multiplied sizes) :
    product sizes = .ok (volume sizes) := by
  rw [product, foldlM_mul_ok fun k => (Nat.one_mul _).symm ▸ h k, Nat.one_mul]

theorem product_ok {sizes : List Nat} (h : nonemptyVolume sizes < bound) :
    product sizes = .ok (volume sizes) :=
  Multiplied.product_ok fun k => Nat.lt_of_le_of_lt (volume_take_le_nonemptyVolume sizes k) h

theorem product_of_pos {sizes : List Nat} (hpos : ∀ n ∈ sizes, 0 < n)
    (h : volume sizes < bufferBound) : product sizes = .ok (volume sizes) :=
  product_ok (by rw [nonemptyVolume_of_pos hpos]; exact lt_bound h)

theorem foldlM_mul_eq {sizes : List Nat} {a m : Nat} (h : sizes.foldlM mul a = .ok m) :
    m = a * volume sizes := by
  induction sizes generalizing a with
  | nil => cases h; exact (Nat.mul_one _).symm
  | cons n sizes ih =>
    rw [List.foldlM_cons, bind_eq_ok] at h
    obtain ⟨b, hb, h⟩ := h
    obtain ⟨-, rfl⟩ := mul_eq_ok.1 hb
    rw [ih h, volume, Nat.mul_assoc]

/-- The extents of an array of elements can be multiplied. -/
theorem product_elements {shape : List Nat} {count ne len : Nat} (h : ∀ n ∈ shape, 0 < n)
    (hcount : volume shape = count) (hlen : len = count * ne)
    (hfits : count * max 1 ne < bufferBound) : product (shape ++ [ne]) = .ok len := by
  have hv : volume (shape ++ [ne]) = len := by
    rw [volume_append, volume, volume, Nat.mul_one, hcount, hlen]
  rw [product_ok (by rw [nonemptyVolume_elements h, hcount]; exact lt_bound hfits), hv]

theorem product_three {a b c : Nat} (ha : 0 < a) (hb : 0 < b) (hc : 0 < c)
    (hfits : a * b * c < bufferBound) : product [a, b, c] = .ok (a * b * c) := by
  have hshape : ∀ n ∈ [a, b], 0 < n := by simp [ha, hb]
  have hc' : max 1 c = c := Nat.max_eq_right hc
  exact product_elements hshape (by simp [volume]) rfl (by rwa [hc'])

/-- A product of sizes that is returned is the exact one. -/
theorem product_eq {sizes : List Nat} {m : Nat} (h : product sizes = .ok m) : m = volume sizes := by
  rw [foldlM_mul_eq h, Nat.one_mul]

end Size

/-! ### Indices -/

/-- Every index is inside its axis, and there are as many as axes. -/
def InShape : List Nat → List Nat → Prop
  | [],       []         => True
  | i :: idx, n :: shape => i < n ∧ InShape idx shape
  | _,        _          => False

/-- The flat position of an index, first axis fastest. -/
def flat : List Nat → List Nat → Nat
  | i :: idx, n :: shape => i + n * flat idx shape
  | _,        _          => 0

theorem offset_eq_some {idx shape : List Nat} (h : InShape idx shape) :
    offset idx shape = some (flat idx shape) := by
  induction idx generalizing shape with
  | nil =>
    cases shape with
    | nil => rfl
    | cons n shape => exact h.elim
  | cons i idx ih =>
    cases shape with
    | nil => exact h.elim
    | cons n shape => rw [offset, if_pos h.1, ih h.2, flat]

theorem flat_lt {idx shape : List Nat} (h : InShape idx shape) : flat idx shape < volume shape :=
  offset_lt (offset_eq_some h)

/-- The inner axes of a flat position come first. -/
theorem flat_append {idx shape : List Nat} (h : InShape idx shape) (outer rest : List Nat) :
    flat (idx ++ outer) (shape ++ rest) = flat idx shape + volume shape * flat outer rest := by
  induction idx generalizing shape with
  | nil =>
    cases shape with
    | nil => simp [flat, volume]
    | cons n shape => exact h.elim
  | cons i idx ih =>
    cases shape with
    | nil => exact h.elim
    | cons n shape =>
      simp only [List.cons_append, flat, volume, ih h.2, Nat.mul_add, Nat.mul_assoc, Nat.add_assoc]

namespace View

variable {α : Type}

/-- A view has an entry for every index. -/
theorem flat_lt_size {v : View α} {idx : List Nat} (h : InShape idx v.shape) :
    flat idx v.shape < v.data.size :=
  Nat.lt_of_lt_of_le (flat_lt h) v.fits

/-- A buffer is viewed if it has an entry for every index and its extents can be multiplied. -/
theorem ofBuffer_ok {data : Array α} {shape : List Nat} (hfits : volume shape ≤ data.size)
    (h : nonemptyVolume shape < Size.bufferBound) :
    ofBuffer data shape = .ok ⟨data, shape, hfits⟩ :=
  ofBuffer_eq_ok.2 ⟨h, rfl, rfl⟩

theorem checkShape_of_not_lt {len : Nat} {shape : List Nat}
    (h : ¬ nonemptyVolume shape < Size.bufferBound) :
    checkShape len shape = .error (.violated (.shapeOverflow len)) :=
  require_of_not h

/-- A shape of too many indices is reported, whatever the buffer. -/
theorem ofBuffer_of_overflow {data : Array α} {shape : List Nat}
    (h : ¬ nonemptyVolume shape < Size.bufferBound) :
    ofBuffer data shape = .error (.violated (.shapeOverflow data.size)) := by
  rw [ofBuffer, checkShape_of_not_lt h]
  rfl

/-- A buffer of elements is viewed. -/
theorem ofBuffer_elements {data : Array α} {shape : List Nat} {count ne : Nat}
    (h : ∀ n ∈ shape, 0 < n) (hcount : volume shape = count) (hlen : data.size = count * ne)
    (hfits : count * max 1 ne < Size.bufferBound) :
    ∃ v, ofBuffer data (shape ++ [ne]) = .ok v := by
  have hv : volume (shape ++ [ne]) = data.size := by
    rw [volume_append, volume, volume, Nat.mul_one, hcount, hlen]
  exact ⟨_, ofBuffer_ok (Nat.le_of_eq hv) (by rwa [nonemptyVolume_elements h, hcount])⟩

/-- A table is viewed. -/
theorem ofBuffer_table {data : Array α} {m n : Nat} (hm : 0 < m) (hn : 0 < n)
    (hsize : data.size = m * n) (hfits : m * n < Size.bufferBound) :
    ∃ v, ofBuffer data [m, n] = .ok v := by
  have hn' : max 1 n = n := Nat.max_eq_right hn
  have hshape : ∀ k ∈ [m], 0 < k := by simpa using hm
  exact ofBuffer_elements hshape (by simp [volume]) hsize (by rwa [hn'])

variable [Zero α]

/-- The entry at an index that is inside the shape. -/
def entry (v : View α) (idx : List Nat) : α :=
  v.data.getD (flat idx v.shape) 0

theorem entry_eq {v : View α} {idx shape : List Nat} (hs : v.shape = shape) :
    v.entry idx = v.data.getD (flat idx shape) 0 := by
  rw [entry, hs]

theorem get_eq {v : View α} {idx shape : List Nat} (hs : v.shape = shape)
    (h : InShape idx shape) : v.get idx = .ok (v.entry idx) := by
  subst hs
  rw [get, offset_eq_some h]
  simp only [entry, Array.getD_eq_getD_getElem?, Array.getElem?_eq_getElem (flat_lt_size h),
    Option.getD_some]

section

variable {v : View α} {i j k l o m n p q r : Nat}

theorem get_matrix (hs : v.shape = [m, n]) (hi : i < m) (hj : j < n) :
    v.get [i, j] = .ok (v.entry [i, j]) :=
  get_eq hs ⟨hi, hj, trivial⟩

theorem get_three (hs : v.shape = [m, n, p]) (hi : i < m) (hj : j < n) (hk : k < p) :
    v.get [i, j, k] = .ok (v.entry [i, j, k]) :=
  get_eq hs ⟨hi, hj, hk, trivial⟩

theorem get_four (hs : v.shape = [m, n, p, q]) (hi : i < m) (hj : j < n) (hk : k < p)
    (hl : l < q) : v.get [i, j, k, l] = .ok (v.entry [i, j, k, l]) :=
  get_eq hs ⟨hi, hj, hk, hl, trivial⟩

theorem get_five (hs : v.shape = [m, n, p, q, r]) (hi : i < m) (hj : j < n) (hk : k < p)
    (hl : l < q) (ho : o < r) : v.get [i, j, k, l, o] = .ok (v.entry [i, j, k, l, o]) :=
  get_eq hs ⟨hi, hj, hk, hl, ho, trivial⟩

end

end View

end TensorDiffusion
