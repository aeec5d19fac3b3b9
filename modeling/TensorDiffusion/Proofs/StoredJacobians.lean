import TensorDiffusion.Geometry.Factors
import TensorDiffusion.Proofs.Addresses
import TensorDiffusion.Proofs.Rules
import TensorDiffusion.Proofs.Transpose

/-!
# Jacobians of a function

The Jacobians that a function gives are stored and read back unchanged
(`Geometry.ofFunction_keeps`).  The array has an entry for every point, axis and element, in the
layout `(NQ, SDIM, DIM, NE)`, and a matrix of another shape is reported instead of stored.

The array is made entry by entry, each taken from the matrix of its point.  It may as well be filled
while the function is asked, every entry of a matrix written to its place as the matrix comes
(`Geometry.ofFunction_eq_written`): the places are different, so nothing that was written is lost.

* `View.modify_write`: what a view holds after an entry is written.
* `Matrix.Shaped.build_eq`: a matrix is made again of its entries.
* `Geometry.Stores`: an array that holds the matrices of a function, and `Stores.ext`, that there is
  only one.
-/

namespace TensorDiffusion

variable {α β : Type}

/-- A buffer is made again of its entries. -/
theorem tabulate_eq_of_slot {n : Nat} {f : Nat → Except Fault β} {buf : Array β}
    (hsize : buf.size = n) (h : ∀ k < n, f k = slot buf k) : tabulate n f = .ok buf := by
  obtain ⟨out, hrun, -⟩ := tabulate_forall (P := fun _ _ => True) fun k hk =>
    ⟨_, (h k hk).trans (slot_eq (hsize ▸ hk)), trivial⟩
  obtain ⟨hout, hslot⟩ := slot_of_tabulate hrun
  have hentries : ∀ k < out.size, slot out k = slot buf k :=
    fun k hk => (hslot k (hout ▸ hk)).trans (h k (hout ▸ hk))
  rw [hrun, ext_slot (hout.trans hsize.symm) hentries]

/-! ### Views -/

namespace View

variable {v w : View α} {idx : List Nat}

theorem get_eq_slot (h : InShape idx v.shape) : v.get idx = slot v.data (flat idx v.shape) := by
  rw [get, offset_eq_some h, slot_eq (flat_lt_size h)]
  simp only [Array.getElem?_eq_getElem (flat_lt_size h)]

/-- Views of one shape on buffers of one size. -/
structure SameExtent (w v : View α) : Prop where
  shape : w.shape = v.shape
  size : w.data.size = v.data.size

theorem SameExtent.trans {u : View α} (h : w.SameExtent v) (h' : v.SameExtent u) : w.SameExtent u :=
  ⟨h.shape.trans h'.shape, h.size.trans h'.size⟩

/-- **An entry that is written** is found at its index, and those at other indices are kept. -/
theorem modify_write (h : InShape idx v.shape) (x : α) :
    ∃ w, v.modify idx (fun _ => x) = .ok w ∧ w.SameExtent v ∧ w.get idx = .ok x ∧
      ∀ idx', idx' ≠ idx → w.get idx' = v.get idx' := by
  obtain ⟨w, hrun, hshape, hentries⟩ := modify_of_inShape h fun _ => x
  have hextent : w.SameExtent v := by
    refine ⟨hshape, ?_⟩
    rw [modify, offset_eq_some h] at hrun
    simp only [if_pos (flat_lt_size h)] at hrun
    obtain rfl := Except.ok.inj hrun
    exact Array.size_modify
  rw [← flat_eq_columnMajor h] at hentries
  have hread {idx' : List Nat} (h' : InShape idx' v.shape) {a : α}
      (ha : w.data[flat idx' v.shape]? = some a) : w.get idx' = .ok a := by
    rw [get, hshape, offset_eq_some h']
    simp only [ha]
  refine ⟨w, hrun, hextent, hread h ?_, fun idx' hne => ?_⟩
  · rw [hentries, if_pos rfl, Array.getElem?_eq_getElem (flat_lt_size h)]
    rfl
  · by_cases h' : InShape idx' v.shape
    · have hplace : flat idx' v.shape ≠ flat idx v.shape := fun heq => hne (flat_injective h' h heq)
      rw [get_eq_slot h', slot_eq (flat_lt_size h')]
      refine hread h' ?_
      rw [hentries, if_neg hplace, Array.getElem?_eq_getElem (flat_lt_size h')]
    · rw [get_of_not_inShape h', get_of_not_inShape (by rwa [hshape]), hshape]

end View

/-! ### Matrices -/

/-- The matrix has the given shape, and an entry for every position. -/
structure Matrix.Shaped (m : Matrix α) (rows cols : Nat) : Prop where
  rows_eq : m.rows = rows
  cols_eq : m.cols = cols
  size_entries : m.entries.size = rows * cols

namespace Matrix.Shaped

variable {m : Matrix α} {rows cols i k : Nat}

theorem get_eq_slot (h : m.Shaped rows cols) (hi : i < rows) (hk : k < cols) :
    m.get i k = slot m.entries (i + rows * k) := by
  rw [get, h.rows_eq, h.cols_eq, if_pos ⟨hi, hk⟩]

theorem get_ok (h : m.Shaped rows cols) (hi : i < rows) (hk : k < cols) : ∃ x, m.get i k = .ok x :=
  ⟨_, (h.get_eq_slot hi hk).trans (slot_eq (h.size_entries ▸ pair_lt hi hk))⟩

/-- **A matrix is made again of its entries.** -/
theorem build_eq [Stored α] (h : m.Shaped rows cols) {f : Nat → Nat → Except Fault α}
    (hroom : Stored.bytes α * (rows * cols) < Size.bufferBound)
    (hf : ∀ i < rows, ∀ k < cols, f i k = m.get i k) : build rows cols f = .ok m := by
  have hentries : tabulate (rows * cols) (fun c => f (c % rows) (c / rows)) = .ok m.entries := by
    refine tabulate_eq_of_slot h.size_entries fun c hc => ?_
    rw [hf _ (mod_lt_left hc) _ (div_lt_right hc),
      h.get_eq_slot (mod_lt_left hc) (div_lt_right hc), Nat.mod_add_div]
  rw [build, Size.mul_ok (lt_of_bytes hroom), ok_bind, Size.reserve_eq_ok.2 hroom, ok_bind,
    hentries]
  obtain ⟨rfl, rfl, -⟩ := h
  rfl

end Matrix.Shaped

namespace Geometry

variable {dim sdim nq ne q e i k : Nat} {jacobian : Nat → Nat → Except Fault (Matrix α)}

/-! ### Places -/

theorem place_positions (e : Nat) (hq : q < nq) (hi : i < sdim) (hk : k < dim) :
    let o := q + nq * (i + sdim * (k + dim * e))
    o % nq = q ∧ o / nq % sdim = i ∧ o / (nq * sdim) % dim = k ∧ o / (nq * sdim * dim) = e := by
  obtain ⟨hpoint, haxis, hrest⟩ := triple_positions (k + dim * e) hq hi
  refine ⟨hpoint, haxis, ?_, ?_⟩
  · rw [hrest, pair_mod e hk]
  · rw [← Nat.div_div_eq_div_mul, hrest, pair_div e hk]

theorem place_lt (hq : q < nq) (hi : i < sdim) (hk : k < dim) (he : e < ne) :
    q + nq * (i + sdim * (k + dim * e)) < nq * sdim * dim * ne := by
  rw [Nat.mul_assoc, Nat.mul_assoc]
  exact pair_lt hq (pair_lt hi (pair_lt hk he))

/-- Every entry of the array belongs to a point, two axes and an element. -/
theorem exists_place {o : Nat} (h : o < nq * sdim * dim * ne) :
    ∃ q < nq, ∃ i < sdim, ∃ k < dim, ∃ e < ne, o = q + nq * (i + sdim * (k + dim * e)) := by
  rw [Nat.mul_assoc, Nat.mul_assoc] at h
  have hrest := div_lt_right h
  have hrest' := div_lt_right hrest
  refine ⟨_, mod_lt_left h, _, mod_lt_left hrest, _, mod_lt_left hrest', _, div_lt_right hrest', ?_⟩
  rw [Nat.mod_add_div, Nat.mod_add_div, Nat.mod_add_div]

/-! ### Matrices that are asked for -/

/-- The matrix of a point, the points counted element by element.  It must have the right shape. -/
def ask (dim sdim nq : Nat) (jacobian : Nat → Nat → Except Fault (Matrix α)) (p : Nat) :
    Except Fault (Matrix α) := do
  let m ← jacobian (p % nq) (p / nq)
  require (m.rows = sdim ∧ m.cols = dim) .jacobianShape
  return m

theorem ask_eq_ok {p : Nat} {m : Matrix α} : ask dim sdim nq jacobian p = .ok m ↔
    jacobian (p % nq) (p / nq) = .ok m ∧ m.rows = sdim ∧ m.cols = dim := by
  rw [ask, bind_eq_ok]
  constructor
  · rintro ⟨m', hm, h⟩
    obtain ⟨_, hshape, h⟩ := bind_eq_ok.1 h
    obtain rfl := Except.ok.inj h
    exact ⟨hm, require_eq_ok.1 hshape⟩
  · rintro ⟨hm, hshape⟩
    exact ⟨m, hm, bind_eq_ok.2 ⟨(), require_eq_ok.2 hshape, rfl⟩⟩

/-- An entry of the array, taken from the matrix of its point. -/
def gathered (dim sdim nq : Nat) (matrices : Array (Matrix α)) (o : Nat) : Except Fault α := do
  let m ← slot matrices (o % nq + nq * (o / (nq * sdim * dim)))
  m.get (o / nq % sdim) (o / (nq * sdim) % dim)

/-! ### Arrays of matrices -/

/-- The array holds the matrices of a function: it has an entry for every point, axis and element,
and entry `(i, k)` of the matrix of point `q` of element `e` at the place of `[q, i, k, e]`. -/
structure Stores (dim sdim nq ne : Nat) (jacobian : Nat → Nat → Except Fault (Matrix α))
    (data : Array α) : Prop where
  size : data.size = nq * sdim * dim * ne
  entry : ∀ q < nq, ∀ e < ne, ∀ m, jacobian q e = .ok m → ∀ i < sdim, ∀ k < dim,
    slot data (q + nq * (i + sdim * (k + dim * e))) = m.get i k

/-- **One array holds the matrices** of a function. -/
theorem Stores.ext {data data' : Array α} (h : Stores dim sdim nq ne jacobian data)
    (h' : Stores dim sdim nq ne jacobian data')
    (hcalls : ∀ q < nq, ∀ e < ne, ∃ m, jacobian q e = .ok m) : data = data' := by
  refine ext_slot (h.size.trans h'.size.symm) fun o ho => ?_
  obtain ⟨q, hq, i, hi, k, hk, e, he, rfl⟩ := exists_place (h.size ▸ ho)
  obtain ⟨m, hm⟩ := hcalls q hq e he
  rw [h.entry q hq e he m hm i hi k hk, h'.entry q hq e he m hm i hi k hk]

theorem get_place {v : View α} (hshape : v.shape = [nq, sdim, dim, ne]) (hq : q < nq)
    (hi : i < sdim) (hk : k < dim) (he : e < ne) :
    v.get [q, i, k, e] = slot v.data (q + nq * (i + sdim * (k + dim * e))) := by
  have hinside : InShape [q, i, k, e] v.shape := by
    rw [hshape]
    exact ⟨hq, hi, hk, he, trivial⟩
  rw [View.get_eq_slot hinside, hshape]
  rfl

/-- A view of the array holds the entries of the matrices. -/
theorem Stores.get_eq {data : Array α} (h : Stores dim sdim nq ne jacobian data) {v : View α}
    (hdata : v.data = data) (hshape : v.shape = [nq, sdim, dim, ne]) {m : Matrix α}
    (hq : q < nq) (he : e < ne) (hm : jacobian q e = .ok m) (hi : i < sdim) (hk : k < dim) :
    v.get [q, i, k, e] = m.get i k := by
  rw [get_place hshape hq hi hk he, hdata, h.entry q hq e he m hm i hi k hk]

/-- The entry at a place is that of the matrix there. -/
theorem gathered_eq {matrices : Array (Matrix α)}
    (hmatrices : ∀ p < nq * ne, slot matrices p = ask dim sdim nq jacobian p)
    {m : Matrix α} (hq : q < nq) (he : e < ne) (hm : jacobian q e = .ok m)
    (hshape : m.rows = sdim ∧ m.cols = dim) (hi : i < sdim) (hk : k < dim) :
    gathered dim sdim nq matrices (q + nq * (i + sdim * (k + dim * e))) = m.get i k := by
  have hask : ask dim sdim nq jacobian (q + nq * e) = .ok m := by
    rw [ask_eq_ok, pair_mod e hq, pair_div e hq]
    exact ⟨hm, hshape⟩
  obtain ⟨hpoint, hrow, hcol, helement⟩ := place_positions e hq hi hk
  rw [gathered, hpoint, hrow, hcol, helement, hmatrices _ (pair_lt hq he), hask, ok_bind]

section

variable [Stored α]

/-! ### Sizes -/

/-- Sizes for which an array of Jacobians is made. -/
structure ArrayFits (α : Type) [Stored α] (dim sdim nq ne : Nat) : Prop where
  count : Size.product [nq, sdim, dim, ne] = .ok (nq * sdim * dim * ne)
  room : Stored.bytes α * (nq * sdim * dim * ne) < Size.bufferBound
  fits : nonemptyVolume [nq, sdim, dim, ne] < Size.bufferBound

theorem volume_four (a b c d : Nat) : volume [a, b, c, d] = a * b * c * d := by
  simp [volume, Nat.mul_assoc]

theorem ArrayFits.of_lt (h : nonemptyVolume [nq, sdim, dim, ne] < 2 ^ 56) :
    ArrayFits α dim sdim nq ne := by
  have hle := volume_le_nonemptyVolume [nq, sdim, dim, ne]
  rw [volume_four] at hle
  have hroom : Stored.bytes α * (nq * sdim * dim * ne) < Size.bufferBound :=
    Size.bytes_mul_lt Stored.bytes_le (Nat.lt_of_le_of_lt hle h)
  refine ⟨?_, hroom, Nat.lt_trans h (by decide)⟩
  rw [Size.product_ok (Nat.lt_trans h (by decide)), volume_four]

theorem ArrayFits.ofJacobians_eq (h : ArrayFits α dim sdim nq ne) {data : Array α}
    (hsize : data.size = nq * sdim * dim * ne) :
    ofJacobians dim sdim nq ne data = .ok ⟨dim, sdim, nq, ne, some data, none⟩ := by
  rw [ofJacobians, h.count, ok_bind, require_eq_ok.2 hsize]
  rfl

theorem ArrayFits.ofFunction_eq (h : ArrayFits α dim sdim nq ne) :
    ofFunction dim sdim nq ne jacobian = (do
      let matrices ← tabulate (nq * ne) (ask dim sdim nq jacobian)
      let data ← tabulate (nq * sdim * dim * ne) (gathered dim sdim nq matrices)
      ofJacobians dim sdim nq ne data) := by
  have hshape : View.checkShape (nq * sdim * dim * ne) [nq, sdim, dim, ne] = .ok () :=
    require_eq_ok.2 h.fits
  rw [ofFunction, h.count, ok_bind, Size.reserve_eq_ok.2 h.room, ok_bind, hshape, ok_bind]
  rfl

/-- **Matrices of the right shape are stored.** -/
theorem ArrayFits.ofFunction_ok (h : ArrayFits α dim sdim nq ne)
    (hcalls : ∀ q < nq, ∀ e < ne, ∃ m, jacobian q e = .ok m ∧ m.Shaped sdim dim) :
    ∃ data, Stores dim sdim nq ne jacobian data ∧
      ofFunction dim sdim nq ne jacobian = .ok ⟨dim, sdim, nq, ne, some data, none⟩ := by
  obtain ⟨matrices, hasked, -⟩ := tabulate_forall (n := nq * ne) (P := fun _ _ => True)
    (f := ask dim sdim nq jacobian) fun p hp => by
      obtain ⟨m, hm, hshaped⟩ := hcalls _ (mod_lt_left hp) _ (div_lt_right hp)
      exact ⟨m, ask_eq_ok.2 ⟨hm, hshaped.rows_eq, hshaped.cols_eq⟩, trivial⟩
  obtain ⟨-, hmatrices⟩ := slot_of_tabulate hasked
  obtain ⟨data, hdata, -⟩ := tabulate_forall (n := nq * sdim * dim * ne) (P := fun _ _ => True)
    (f := gathered dim sdim nq matrices) fun o ho => by
      obtain ⟨q, hq, i, hi, k, hk, e, he, rfl⟩ := exists_place ho
      obtain ⟨m, hm, hshaped⟩ := hcalls q hq e he
      obtain ⟨x, hx⟩ := hshaped.get_ok hi hk
      exact ⟨x, (gathered_eq hmatrices hq he hm ⟨hshaped.rows_eq, hshaped.cols_eq⟩ hi hk).trans hx,
        trivial⟩
  obtain ⟨hsize, hslot⟩ := slot_of_tabulate hdata
  refine ⟨data, ⟨hsize, fun q hq e he m hm i hi k hk => ?_⟩, ?_⟩
  · obtain ⟨m', hm', hshaped⟩ := hcalls q hq e he
    obtain rfl := Except.ok.inj (hm.symm.trans hm')
    rw [hslot _ (place_lt hq hi hk he)]
    exact gathered_eq hmatrices hq he hm ⟨hshaped.rows_eq, hshaped.cols_eq⟩ hi hk
  · rw [h.ofFunction_eq, hasked, ok_bind, hdata, ok_bind, h.ofJacobians_eq hsize]

/-- The first matrix that is not given, or has another shape, is reported. -/
theorem ArrayFits.ofFunction_error (h : ArrayFits α dim sdim nq ne) {p : Nat} (hp : p < nq * ne)
    (hbefore : ∀ p' < p, ∃ m, ask dim sdim nq jacobian p' = .ok m) {fault : Fault}
    (hfault : ask dim sdim nq jacobian p = .error fault) :
    ofFunction dim sdim nq ne jacobian = .error fault := by
  rw [h.ofFunction_eq, tabulate_error hp hbefore hfault]
  rfl

/-- **Matrices are read back.** -/
theorem ArrayFits.jacobianMatrix?_eq (h : ArrayFits α dim sdim nq ne) {data : Array α}
    (hstores : Stores dim sdim nq ne jacobian data) (hq : q < nq) (he : e < ne) {m : Matrix α}
    (hm : jacobian q e = .ok m) (hshaped : m.Shaped sdim dim) :
    jacobianMatrix? ⟨dim, sdim, nq, ne, some data, none⟩ q e = .ok (some m) := by
  obtain ⟨j, hj⟩ : ∃ j, View.ofBuffer data [nq, sdim, dim, ne] = .ok j :=
    ⟨_, View.ofBuffer_ok (by rw [volume_four, hstores.size]) h.fits⟩
  obtain ⟨-, hdata, hshape⟩ := View.ofBuffer_eq_ok.1 hj
  have hroom : Stored.bytes α * (sdim * dim) < Size.bufferBound := by
    refine Nat.lt_of_le_of_lt (Nat.mul_le_mul_left _ ?_) h.room
    calc sdim * dim ≤ nq * (sdim * dim) := Nat.le_mul_of_pos_left _ (Nat.zero_lt_of_lt hq)
      _ = nq * sdim * dim := (Nat.mul_assoc _ _ _).symm
      _ ≤ nq * sdim * dim * ne := Nat.le_mul_of_pos_right _ (Nat.zero_lt_of_lt he)
  have hbuild := hshaped.build_eq hroom fun i hi k hk =>
    hstores.get_eq hdata hshape hq he hm hi hk
  simp only [jacobianMatrix?, hj, ok_bind, hbuild]
  rfl

end

/-! ### Matrices that are written as they come -/

/-- Writes the entries of the matrix of point `q` of element `e`, column by column. -/
def write (sdim dim q e : Nat) (m : Matrix α) (j : View α) : Except Fault (View α) :=
  sweep dim (fun j k => sweep sdim (fun j i => do
    let x ← m.get i k
    j.modify [q, i, k, e] fun _ => x) j) j

/-- The factors whose Jacobians are written into an array of zeros, one matrix after the other as
`jacobian` gives them. -/
def written [Zero α] [Stored α] (dim sdim nq ne : Nat)
    (jacobian : Nat → Nat → Except Fault (Matrix α)) : Except Fault (Geometry α) := do
  let count ← Size.product [nq, sdim, dim, ne]
  let j ← View.ofBuffer (← filled count 0) [nq, sdim, dim, ne]
  let j ← sweep ne (fun j e => sweep nq (fun j q => do
    let m ← jacobian q e
    require (m.rows = sdim ∧ m.cols = dim) .jacobianShape
    write sdim dim q e m j) j) j
  ofJacobians dim sdim nq ne j.data

/-- **A matrix that is written** is found at its point, and the entries of other points are kept. -/
theorem write_ok {j : View α} (hj : j.shape = [nq, sdim, dim, ne]) (hq : q < nq) (he : e < ne)
    {m : Matrix α} (hm : m.Shaped sdim dim) :
    ∃ j', write sdim dim q e m j = .ok j' ∧ j'.SameExtent j ∧
      (∀ i < sdim, ∀ k < dim, j'.get [q, i, k, e] = m.get i k) ∧
      ∀ q' i k e', (q', e') ≠ (q, e) → j'.get [q', i, k, e'] = j.get [q', i, k, e'] := by
  -- After `c` steps the first `c` entries of the matrix are written, and no other.
  let P (c : Nat) (j' : View α) : Prop := j'.SameExtent j ∧
    (∀ i < sdim, ∀ k < dim, i + sdim * k < c → j'.get [q, i, k, e] = m.get i k) ∧
    ∀ q' i k e', (q', e') ≠ (q, e) → j'.get [q', i, k, e'] = j.get [q', i, k, e']
  have hstart : P 0 j :=
    ⟨⟨rfl, rfl⟩, fun _ _ _ _ hlt => absurd hlt (Nat.not_lt_zero _), fun _ _ _ _ _ => rfl⟩
  have hstep : ∀ c j', c < dim * sdim → P c j' → ∃ j'', (do
      let x ← m.get (c % sdim) (c / sdim)
      j'.modify [q, c % sdim, c / sdim, e] fun _ => x) = .ok j'' ∧ P (c + 1) j'' := by
    rintro c j' hc ⟨hextent, hwritten, hkept⟩
    have hc : c < sdim * dim := by rwa [Nat.mul_comm]
    have hi : c % sdim < sdim := mod_lt_left hc
    have hk : c / sdim < dim := div_lt_right hc
    have hinside : InShape [q, c % sdim, c / sdim, e] j'.shape := by
      rw [hextent.shape, hj]
      exact ⟨hq, hi, hk, he, trivial⟩
    obtain ⟨x, hx⟩ := hm.get_ok hi hk
    obtain ⟨j'', hmodify, hextent', hself, hother⟩ := View.modify_write hinside x
    refine ⟨j'', by rw [hx, ok_bind, hmodify], hextent'.trans hextent, ?_, ?_⟩
    · intro i hi' k hk' hlt
      rcases Nat.lt_succ_iff_lt_or_eq.1 hlt with hlt | rfl
      · rw [hother, hwritten i hi' k hk' hlt]
        intro heq
        obtain ⟨rfl, rfl⟩ : i = c % sdim ∧ k = c / sdim := by simpa using heq
        rw [Nat.mod_add_div] at hlt
        exact Nat.lt_irrefl c hlt
      · rw [pair_mod k hi', pair_div k hi'] at hself hx
        exact hself.trans hx.symm
    · intro q' i k e' hne
      rw [hother, hkept q' i k e' hne]
      intro heq
      simp only [List.cons.injEq] at heq
      exact hne (by rw [heq.1, heq.2.2.2.1])
  obtain ⟨j', hrun, hextent, hwritten, hkept⟩ := sweep_induction P hstart hstep
  refine ⟨j', by rw [write, sweep_pairs, hrun], hextent, fun i hi k hk => ?_, hkept⟩
  exact hwritten i hi k hk (by rw [Nat.mul_comm dim]; exact pair_lt hi hk)

/-- Asks for the matrix of a point and writes it. -/
def askAndWrite (dim sdim nq : Nat) (jacobian : Nat → Nat → Except Fault (Matrix α)) (j : View α)
    (p : Nat) : Except Fault (View α) := do
  let m ← ask dim sdim nq jacobian p
  write sdim dim (p % nq) (p / nq) m j

/-- After some points their matrices are found in the view. -/
theorem askAndWrite_run {j : View α} (hj : j.shape = [nq, sdim, dim, ne]) {p : Nat}
    (hp : p ≤ nq * ne) (hasked : ∀ p' < p, ∃ m, ask dim sdim nq jacobian p' = .ok m)
    (hentries : ∀ q e m, jacobian q e = .ok m → m.entries.size = m.rows * m.cols) :
    ∃ j', sweep p (askAndWrite dim sdim nq jacobian) j = .ok j' ∧ j'.SameExtent j ∧
      ∀ q < nq, ∀ e < ne, q + nq * e < p → ∀ m, jacobian q e = .ok m →
        ∀ i < sdim, ∀ k < dim, j'.get [q, i, k, e] = m.get i k := by
  refine sweep_induction (fun p (j' : View α) => j'.SameExtent j ∧
    ∀ q < nq, ∀ e < ne, q + nq * e < p → ∀ m, jacobian q e = .ok m →
      ∀ i < sdim, ∀ k < dim, j'.get [q, i, k, e] = m.get i k)
    ⟨⟨rfl, rfl⟩, fun _ _ _ _ hlt => absurd hlt (Nat.not_lt_zero _)⟩ ?_
  rintro p' j' hp' ⟨hextent, hwritten⟩
  have hlt : p' < nq * ne := Nat.lt_of_lt_of_le hp' hp
  obtain ⟨m, hm⟩ := hasked p' hp'
  obtain ⟨hcall, hrows, hcols⟩ := ask_eq_ok.1 hm
  have hshaped : m.Shaped sdim dim := ⟨hrows, hcols, by rw [hentries _ _ m hcall, hrows, hcols]⟩
  obtain ⟨j'', hwrite, hextent', hself, hkept⟩ :=
    write_ok (hextent.shape.trans hj) (mod_lt_left hlt) (div_lt_right hlt) hshaped
  refine ⟨j'', by rw [askAndWrite, hm, ok_bind, hwrite], hextent'.trans hextent, ?_⟩
  intro q hq e he hlt m' hm' i hi k hk
  rcases Nat.lt_succ_iff_lt_or_eq.1 hlt with hlt | rfl
  · rw [hkept, hwritten q hq e he hlt m' hm' i hi k hk]
    intro heq
    obtain ⟨rfl, rfl⟩ := Prod.mk.inj heq
    rw [Nat.mod_add_div] at hlt
    exact Nat.lt_irrefl p' hlt
  · rw [pair_mod e hq, pair_div e hq] at hself hcall
    obtain rfl := Except.ok.inj (hcall.symm.trans hm')
    exact hself i hi k hk

theorem ArrayFits.written_eq [Zero α] [Stored α] (h : ArrayFits α dim sdim nq ne)
    (jacobian : Nat → Nat → Except Fault (Matrix α)) :
    ∃ j : View α, j.shape = [nq, sdim, dim, ne] ∧ j.data.size = nq * sdim * dim * ne ∧
      written dim sdim nq ne jacobian = (do
        let j ← sweep (nq * ne) (askAndWrite dim sdim nq jacobian) j
        ofJacobians dim sdim nq ne j.data) := by
  have hsize : volume [nq, sdim, dim, ne] ≤
      (Array.replicate (nq * sdim * dim * ne) (0 : α)).size := by
    rw [volume_four, Array.size_replicate]
  have hstep : ∀ (j : View α) p, (do
      let m ← jacobian (p % nq) (p / nq)
      require (m.rows = sdim ∧ m.cols = dim) .jacobianShape
      write sdim dim (p % nq) (p / nq) m j) = askAndWrite dim sdim nq jacobian j p :=
    fun j p => by simp only [askAndWrite, ask, bind_assoc, pure_bind]
  refine ⟨⟨_, _, hsize⟩, rfl, Array.size_replicate, ?_⟩
  rw [written, h.count, ok_bind, filled_ok h.room, ok_bind, View.ofBuffer_ok hsize h.fits, ok_bind,
    sweep_pairs, Nat.mul_comm ne]
  simp only [hstep]

/-- Sizes for which no array is made are reported alike. -/
theorem array_fits_or_fault (α : Type) [Zero α] [Stored α] (dim sdim nq ne : Nat) :
    ArrayFits α dim sdim nq ne ∨
      ∃ fault, ∀ jacobian : Nat → Nat → Except Fault (Matrix α),
        ofFunction dim sdim nq ne jacobian = .error fault ∧
          written dim sdim nq ne jacobian = .error fault := by
  cases hcount : Size.product [nq, sdim, dim, ne] with
  | error fault =>
    refine .inr ⟨fault, fun jacobian => ?_⟩
    rw [ofFunction, written, hcount]
    exact ⟨rfl, rfl⟩
  | ok count =>
    obtain rfl : count = nq * sdim * dim * ne :=
      (Size.product_eq hcount).trans (volume_four nq sdim dim ne)
    by_cases hroom : Stored.bytes α * (nq * sdim * dim * ne) < Size.bufferBound
    · by_cases hfits : nonemptyVolume [nq, sdim, dim, ne] < Size.bufferBound
      · exact .inl ⟨hcount, hroom, hfits⟩
      · refine .inr ⟨.violated (.shapeOverflow (nq * sdim * dim * ne)), fun jacobian => ?_⟩
        constructor
        · rw [ofFunction, hcount, ok_bind, Size.reserve_eq_ok.2 hroom, ok_bind,
            View.checkShape_of_not_lt hfits]
          rfl
        · rw [written, hcount, ok_bind, filled_ok hroom, ok_bind, View.ofBuffer_of_overflow hfits,
            Array.size_replicate]
          rfl
    · refine .inr ⟨.violated .capacityOverflow, fun jacobian => ?_⟩
      rw [ofFunction, written, hcount, ok_bind, ok_bind, filled, Size.reserve_of_not_lt hroom]
      exact ⟨rfl, rfl⟩

/-- **Nothing that was written is lost.**  The factors of a function are those that come of writing
every entry of a matrix to its place as the matrix comes, and where one is reported instead, so is
the other. -/
theorem ofFunction_eq_written [Zero α] [Stored α]
    (hentries : ∀ q e m, jacobian q e = .ok m → m.entries.size = m.rows * m.cols) :
    ofFunction dim sdim nq ne jacobian = written dim sdim nq ne jacobian := by
  rcases array_fits_or_fault α dim sdim nq ne with h | ⟨fault, hfault⟩
  · obtain ⟨j, hj, hsize, hwritten⟩ := h.written_eq jacobian
    rw [hwritten]
    rcases returns_or_first_fault (nq * ne) (ask dim sdim nq jacobian) with
      hasked | ⟨p, hp, fault, hbefore, hfault⟩
    · have hcalls : ∀ q < nq, ∀ e < ne, ∃ m, jacobian q e = .ok m ∧ m.Shaped sdim dim := by
        intro q hq e he
        obtain ⟨m, hm⟩ := hasked (q + nq * e) (pair_lt hq he)
        obtain ⟨hcall, hrows, hcols⟩ := ask_eq_ok.1 hm
        rw [pair_mod e hq, pair_div e hq] at hcall
        exact ⟨m, hcall, hrows, hcols, by rw [hentries q e m hcall, hrows, hcols]⟩
      obtain ⟨data, hstores, hdata⟩ := h.ofFunction_ok hcalls
      obtain ⟨j', hrun, hextent, hfound⟩ := askAndWrite_run hj (Nat.le_refl _) hasked hentries
      have hstores' : Stores dim sdim nq ne jacobian j'.data := by
        refine ⟨hextent.size.trans hsize, fun q hq e he m hm i hi k hk => ?_⟩
        rw [← hfound q hq e he (pair_lt hq he) m hm i hi k hk,
          get_place (hextent.shape.trans hj) hq hi hk he]
      rw [hdata, hrun, ok_bind, h.ofJacobians_eq hstores'.size,
        hstores.ext hstores' fun q hq e he => (hcalls q hq e he).imp fun m hm => hm.1]
    · obtain ⟨j', hrun, -⟩ := askAndWrite_run hj hp.le hbefore hentries
      rw [h.ofFunction_error hp hbefore hfault,
        sweep_error hp hrun (by rw [askAndWrite, hfault]; rfl)]
      rfl
  · rw [(hfault jacobian).1, (hfault jacobian).2]

/-- **Jacobians of a function are stored and read back unchanged.**  If every call gives a matrix of
the right shape, the factors are made, and the Jacobian of every point of every element is what the
call gave.  The array has an entry for every point, axis and element, in the layout
`(NQ, SDIM, DIM, NE)`, and the factors are those that adopt it.  A matrix of another shape is
reported instead of stored. -/
theorem ofFunction_keeps [Stored α] {dim sdim nq ne : Nat}
    (hfits : nonemptyVolume [nq, sdim, dim, ne] < 2 ^ 56)
    (jacobian : Nat → Nat → Except Fault (Matrix α)) :
    ((∀ q < nq, ∀ e < ne, ∃ m, jacobian q e = .ok m ∧ m.Shaped sdim dim) →
      ∃ geometry data, ofFunction dim sdim nq ne jacobian = .ok geometry ∧
        geometry.jacobians = some data ∧ data.size = nq * sdim * dim * ne ∧
        ofJacobians dim sdim nq ne data = .ok geometry ∧
        ∀ q < nq, ∀ e < ne, ∀ m, jacobian q e = .ok m →
          geometry.jacobianMatrix? q e = .ok (some m) ∧
          ∀ i < sdim, ∀ k < dim, ∃ x, m.get i k = .ok x ∧
            data[q + nq * (i + sdim * (k + dim * e))]? = some x) ∧
    ∀ q < nq, ∀ e < ne, ∀ m, jacobian q e = .ok m → ¬ (m.rows = sdim ∧ m.cols = dim) →
      ∃ fault, ofFunction dim sdim nq ne jacobian = .error fault ∧
        ((∀ q < nq, ∀ e < ne, ∃ m, jacobian q e = .ok m) → fault = .violated .jacobianShape) := by
  have h : ArrayFits α dim sdim nq ne := .of_lt hfits
  constructor
  · intro hcalls
    obtain ⟨data, hstores, hrun⟩ := h.ofFunction_ok hcalls
    refine ⟨_, data, hrun, rfl, hstores.size, h.ofJacobians_eq hstores.size, ?_⟩
    intro q hq e he m hm
    obtain ⟨m', hm', hshaped⟩ := hcalls q hq e he
    obtain rfl := Except.ok.inj (hm.symm.trans hm')
    refine ⟨h.jacobianMatrix?_eq hstores hq he hm hshaped, fun i hi k hk => ?_⟩
    obtain ⟨x, hx⟩ := hshaped.get_ok hi hk
    have hentry := (hstores.entry q hq e he m hm i hi k hk).trans hx
    exact ⟨x, hx, slot_eq_ok.1 hentry⟩
  · intro q hq e he m hm hshape
    rcases returns_or_first_fault (nq * ne) (ask dim sdim nq jacobian) with
      hasked | ⟨p, hp, fault, hbefore, hfault⟩
    · obtain ⟨m', hm'⟩ := hasked (q + nq * e) (pair_lt hq he)
      rw [ask_eq_ok, pair_mod e hq, pair_div e hq, hm] at hm'
      obtain rfl := Except.ok.inj hm'.1
      exact absurd hm'.2 hshape
    · refine ⟨fault, h.ofFunction_error hp hbefore hfault, fun hcalls => ?_⟩
      obtain ⟨m', hm'⟩ := hcalls _ (mod_lt_left hp) _ (div_lt_right hp)
      rw [ask, hm', ok_bind] at hfault
      rcases bind_eq_error.1 hfault with hrequire | ⟨_, -, hreturn⟩
      · exact require_error hrequire
      · cases hreturn

/-- The matrix whose entries tell their point, axes and element apart. -/
def labelled (q e : Nat) : Matrix Float :=
  ⟨3, 2, Array.ofFn fun c : Fin 6 =>
    Float.ofNat (q + 10 * (c % 3) + 100 * (c / 3) + 1000 * e)⟩

/-- Four points of two surface elements keep their labels; in the plane these matrices have the
wrong shape. -/
theorem ofFunction_keeps_labelled :
    (∃ geometry data, ofFunction 2 3 4 2 (fun q e => .ok (labelled q e)) = .ok geometry ∧
      geometry.jacobians = some data ∧ data.size = 48 ∧ ofJacobians 2 3 4 2 data = .ok geometry ∧
      geometry.jacobianMatrix? 3 1 = .ok (some (labelled 3 1)) ∧
      data[3 + 4 * (2 + 3 * (1 + 2 * 1))]? = some (Float.ofNat 1123)) ∧
    ofFunction 2 2 1 1 (fun q e => .ok (labelled q e)) = .error (.violated .jacobianShape) := by
  have hshaped (q e : Nat) : (labelled q e).Shaped 3 2 := ⟨rfl, rfl, Array.size_ofFn⟩
  constructor
  · have hfits : nonemptyVolume [4, 3, 2, 2] < 2 ^ 56 := by decide
    obtain ⟨geometry, data, hrun, hdata, hsize, hadopted, hkept⟩ :=
      (ofFunction_keeps hfits fun q e => .ok (labelled q e)).1
        fun q _ e _ => ⟨_, rfl, hshaped q e⟩
    obtain ⟨hmatrix, hentries⟩ := hkept 3 (by decide) 1 (by decide) _ rfl
    obtain ⟨x, hx, hplace⟩ := hentries 2 (by decide) 1 (by decide)
    have hlabel : (labelled 3 1).get 2 1 = .ok (Float.ofNat 1123) := rfl
    obtain rfl := Except.ok.inj (hx.symm.trans hlabel)
    exact ⟨geometry, data, hrun, hdata, hsize, hadopted, hmatrix, hplace⟩
  · have hfits : nonemptyVolume [1, 2, 2, 1] < 2 ^ 56 := by decide
    obtain ⟨fault, hrun, hfault⟩ :=
      (ofFunction_keeps hfits fun q e => .ok (labelled q e)).2
        0 Nat.one_pos 0 Nat.one_pos _ rfl (by decide)
    rw [hrun, hfault fun q _ e _ => ⟨_, rfl⟩]

end Geometry

end TensorDiffusion
