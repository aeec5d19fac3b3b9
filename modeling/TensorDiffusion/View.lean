import TensorDiffusion.Buffer

/-!
# Views

Every buffer of the library stores an array of several axes with the *first* index varying
fastest.  A `View` gives such an array its shape: the entry at `[i, j, k]` of a view of shape
`[m, n, p]` is the buffer's entry `i + m * (j + n * k)`, and an index outside its axis is refused
even where the flat offset would lie in the buffer.

* `View.ofBuffer_eq_ok`: a buffer is accepted exactly when it has an entry for every index.
* `offset_lt`: an index inside the shape addresses an entry below the volume.
-/

namespace TensorDiffusion

/-- The number of indices of a shape. -/
def volume : List Nat → Nat
  | []         => 1
  | n :: shape => n * volume shape

/-- The position of an index, first axis fastest; none if an index is outside its axis or the
ranks differ. -/
def offset : List Nat → List Nat → Option Nat
  | [],       []         => some 0
  | i :: idx, n :: shape =>
      if i < n then
        match offset idx shape with
        | some o => some (i + n * o)
        | none   => none
      else none
  | _,        _          => none

/-- The indices of a shape in logical order, last axis fastest. -/
def indices : List Nat → List (List Nat)
  | []         => [[]]
  | n :: shape => (List.range n).flatMap fun i => (indices shape).map (i :: ·)

/-- A buffer seen as an array of the given shape.  The buffer may be longer than the shape. -/
structure View (α : Type) where
  data : Array α
  shape : List Nat
  fits : volume shape ≤ data.size

namespace View

variable {α : Type}

/-- Checks the shape for a view of a buffer of the given length: the extents other than zero must
have a product below `2 ^ 63`. -/
def checkShape (len : Nat) (shape : List Nat) : Except Fault Unit :=
  require (volume (shape.filter (· ≠ 0)) < Size.bufferBound) (.shapeOverflow len)

/-- Views a buffer with a shape.  The buffer must reach to the last entry. -/
def ofBuffer (data : Array α) (shape : List Nat) : Except Fault (View α) := do
  checkShape data.size shape
  if h : volume shape ≤ data.size then return ⟨data, shape, h⟩
  else violate (.shortBuffer data.size)

/-- The entry at an index. -/
def get (v : View α) (idx : List Nat) : Except Fault α :=
  match offset idx v.shape with
  | some o =>
    match v.data[o]? with
    | some x => .ok x
    | none   => violate (.position v.data.size o)
  | none => violate (.axis idx v.shape)

/-- Replaces the entry at an index by a function of it. -/
def modify (v : View α) (idx : List Nat) (f : α → α) : Except Fault (View α) :=
  match offset idx v.shape with
  | some o =>
    if o < v.data.size then
      .ok ⟨v.data.modify o f, v.shape, by simpa using v.fits⟩
    else violate (.position v.data.size o)
  | none => violate (.axis idx v.shape)

/-- Replaces the entry at an index. -/
def set (v : View α) (idx : List Nat) (x : α) : Except Fault (View α) :=
  v.modify idx fun _ => x

/-- Adds to the entry at an index. -/
def add [Add α] (v : View α) (idx : List Nat) (x : α) : Except Fault (View α) :=
  v.modify idx (· + x)

/-- Replaces all entries. -/
def fill (v : View α) (x : α) : View α where
  data := v.data.mapIdx fun o y => if o < volume v.shape then x else y
  shape := v.shape
  fits := by simpa using v.fits

/-- Replaces the entries `[first, …]`, `[first + 1, …]` and so on at a place on the axes after the
first, each by a function of it. -/
def modifyColumn (place : List Nat) : Nat → List (α → α) → View α → Except Fault (View α)
  | _,     [],      v => .ok v
  | first, f :: fs, v => do modifyColumn place (first + 1) fs (← v.modify (first :: place) f)

/-- Replaces the entries `[0, …]`, `[1, …]` and so on at a place on the axes after the first. -/
def setColumn (v : View α) (place : List Nat) (values : List α) : Except Fault (View α) :=
  v.modifyColumn place 0 (values.map fun x _ => x)

/-- Adds to the entries `[0, …]`, `[1, …]` and so on at a place on the axes after the first. -/
def addColumn [Add α] (v : View α) (place : List Nat) (terms : List α) : Except Fault (View α) :=
  v.modifyColumn place 0 (terms.map fun t x => x + t)

/-- Views the first `n` entries of a buffer.  The entries that follow stand apart; they come after
those of the view when the buffer is put together again. -/
def window (buf : Array α) (n : Nat) (shape : List Nat) : Except Fault (View α × Array α) := do
  let head ← slice buf 0 n
  return (← ofBuffer head shape, buf.extract n buf.size)

/-- The entries in logical order.  For a matrix this is the order of its rows, which is the
buffer order of the transpose.  An array with an empty axis has no entries, however long its other
axes are. -/
def entries (v : View α) : Except Fault (List α) :=
  if volume v.shape = 0 then .ok [] else (indices v.shape).mapM v.get

/-- A buffer is viewed exactly when it has an entry for every index. -/
theorem ofBuffer_eq_ok {data : Array α} {shape : List Nat} {v : View α} :
    ofBuffer data shape = .ok v ↔
      volume (shape.filter (· ≠ 0)) < Size.bufferBound ∧ v.data = data ∧ v.shape = shape := by
  unfold ofBuffer checkShape require violate
  constructor
  · intro h
    split at h
    · rename_i hs
      simp only [bind, Except.bind, pure, Except.pure] at h
      split at h
      · cases h
        exact ⟨hs, rfl, rfl⟩
      · cases h
    · cases h
  · rintro ⟨h, rfl, rfl⟩
    rw [if_pos h]
    simp only [bind, Except.bind, pure, Except.pure, dif_pos v.fits]

end View

/-- An index inside the shape addresses an entry below the volume. -/
theorem offset_lt {idx shape : List Nat} {o : Nat} (h : offset idx shape = some o) :
    o < volume shape := by
  induction idx generalizing shape o with
  | nil =>
    cases shape with
    | nil => simp [offset] at h; subst h; simp [volume]
    | cons n s => simp [offset] at h
  | cons i idx ih =>
    cases shape with
    | nil => simp [offset] at h
    | cons n s =>
      simp only [offset] at h
      split at h
      · rename_i hi
        split at h
        · rename_i o' ho
          cases h
          have := ih ho
          calc i + n * o' < n + n * o' := by omega
            _ = n * (o' + 1) := by rw [Nat.mul_succ, Nat.add_comm]
            _ ≤ n * volume s := Nat.mul_le_mul_left n this
        · cases h
      · cases h

end TensorDiffusion
