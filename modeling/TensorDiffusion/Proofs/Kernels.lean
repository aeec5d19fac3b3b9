import TensorDiffusion.Diffusion.Action
import TensorDiffusion.Diffusion.Shape
import TensorDiffusion.Proofs.Transpose

/-!
# Sizes that a kernel accepts

The action and the diagonal check the same sizes before they visit an element.  `KernelSizes` says
which ones pass: positive sizes within the limits, buffers of the right length, and room for the
operator data and for a vector.  Everything else that the checks ask for
follows from these, and so does room for the tables.
-/

namespace TensorDiffusion

/-! ### Fixed sizes and limits -/

theorem FixedSizes.check_eq {name : String} {fixed actual : Nat} {u : Unit} :
    FixedSizes.check name fixed actual = .ok u ↔ fixed = 0 ∨ fixed = actual :=
  require_eq_ok

theorem FixedSizes.check_ok {name : String} {fixed actual : Nat} (h : fixed = 0 ∨ fixed = actual) :
    FixedSizes.check name fixed actual = .ok () :=
  check_eq.2 h

/-- A size that is compiled in agrees with the actual one. -/
theorem FixedSizes.pick_eq {fixed actual : Nat} (h : fixed = 0 ∨ fixed = actual) :
    FixedSizes.pick fixed actual = actual := by
  rcases h with rfl | rfl
  · exact if_neg (Nat.lt_irrefl 0)
  · exact ite_self _

theorem Limits.check_eq {limits : Limits} {d1d q1d : Nat} {u : Unit} :
    limits.check d1d q1d = .ok u ↔ d1d ≤ limits.maxD1d ∧ q1d ≤ limits.maxQ1d := by
  rw [check, bind_eq_ok]
  exact ⟨fun ⟨_, hd, hq⟩ => ⟨require_eq.1 hd, require_eq.1 hq⟩,
    fun ⟨hd, hq⟩ => ⟨(), require_eq.2 hd, require_eq.2 hq⟩⟩

theorem Limits.check_ok {limits : Limits} {d1d q1d : Nat} (hd : d1d ≤ limits.maxD1d)
    (hq : q1d ≤ limits.maxQ1d) : limits.check d1d q1d = .ok () :=
  check_eq.2 ⟨hd, hq⟩

theorem Limits.admits_eq_true {limits : Limits} {d1d q1d : Nat} :
    limits.admits d1d q1d = true ↔ d1d ≤ limits.maxD1d ∧ q1d ≤ limits.maxQ1d := by
  simp only [admits, Bool.and_eq_true, decide_eq_true_eq]

/-! ### Sizes -/

/-- Every size that a kernel is compiled for is the actual one. -/
structure FixedSizes.Agrees (fixed : FixedSizes) (d1d q1d vdim : Nat) : Prop where
  d1d : fixed.d1d = 0 ∨ fixed.d1d = d1d
  q1d : fixed.q1d = 0 ∨ fixed.q1d = q1d
  vdim : fixed.vdim = 0 ∨ fixed.vdim = vdim

/-- The kernels for any size. -/
theorem FixedSizes.agrees_open (d1d q1d vdim : Nat) : ({} : FixedSizes).Agrees d1d q1d vdim :=
  ⟨.inl rfl, .inl rfl, .inl rfl⟩

/-- Sizes that pass the checks of a kernel on elements of dimension `dim`: `opLen` is the length
of the operator data, `len` that of a vector. -/
structure KernelSizes (α : Type) [Stored α] (dim vdim d1d q1d ne : Nat) (limits : Limits)
    (opLen len : Nat) : Prop where
  d1d_pos : 0 < d1d
  q1d_pos : 0 < q1d
  vdim_pos : 0 < vdim
  maxD1d : d1d ≤ limits.maxD1d
  maxQ1d : q1d ≤ limits.maxQ1d
  opLen : opLen = q1d ^ dim * symmetricEntries dim * ne
  len : len = d1d ^ dim * vdim * ne
  opFits : FitsMemory α (q1d ^ dim * symmetricEntries dim) ne
  vectorFits : FitsMemory α (d1d ^ dim * vdim) ne

theorem square_le_pow {n dim : Nat} (hn : 0 < n) (hdim : 2 ≤ dim) : n * n ≤ n ^ dim := by
  rw [← Nat.pow_two]
  exact Nat.pow_le_pow_right hn hdim

theorem symmetricEntries_pos {dim : Nat} (hdim : 0 < dim) : 0 < symmetricEntries dim := by
  have h : 1 * 2 ≤ dim * (dim + 1) := Nat.mul_le_mul hdim (Nat.succ_le_succ hdim)
  exact Nat.div_pos h (by decide)

/-- The axes of an element and one more axis are not empty. -/
theorem axes_pos {dim n m : Nat} (hn : 0 < n) (hm : 0 < m) :
    ∀ k ∈ List.replicate dim n ++ [m], 0 < k := by
  intro k hk
  rcases List.mem_append.1 hk with hk | hk
  · rw [(List.mem_replicate.1 hk).2]
    exact hn
  · rw [List.mem_singleton.1 hk]
    exact hm

theorem volume_axes (dim n m : Nat) : volume (List.replicate dim n ++ [m]) = n ^ dim * m := by
  rw [volume_append, volume_replicate, volume, volume, Nat.mul_one]

namespace KernelSizes

variable {α : Type} [Stored α] {dim vdim d1d q1d ne opLen len : Nat} {limits : Limits}

theorem points_lt (h : KernelSizes α dim vdim d1d q1d ne limits opLen len)
    (hdim : 2 ≤ dim) : q1d ^ dim < Size.bufferBound :=
  Nat.lt_of_le_of_lt (Nat.le_mul_of_pos_right _ (symmetricEntries_pos (by omega))) h.opFits.one_lt

theorem nodes_lt (h : KernelSizes α dim vdim d1d q1d ne limits opLen len) :
    d1d ^ dim < Size.bufferBound :=
  Nat.lt_of_le_of_lt (Nat.le_mul_of_pos_right _ h.vdim_pos) h.vectorFits.one_lt

theorem chunk_lt (h : KernelSizes α dim vdim d1d q1d ne limits opLen len) :
    d1d ^ dim * vdim < Size.bufferBound :=
  h.vectorFits.one_lt

/-- A vector has a length. -/
theorem len_lt (h : KernelSizes α dim vdim d1d q1d ne limits opLen len) : len < Size.bufferBound := by
  rw [h.len]
  exact Nat.lt_of_le_of_lt (Nat.mul_le_mul_left _ (Nat.le_max_right 1 ne)) h.vectorFits.lt

/-- There is room for the tables. -/
theorem table_lt (h : KernelSizes α dim vdim d1d q1d ne limits opLen len) (hdim : 2 ≤ dim) :
    q1d * d1d < Size.bufferBound :=
  mul_lt_of_squares (Nat.lt_of_le_of_lt (square_le_pow h.q1d_pos hdim) (h.points_lt hdim))
    (Nat.lt_of_le_of_lt (square_le_pow h.d1d_pos hdim) h.nodes_lt)

theorem table_fits (h : KernelSizes α dim vdim d1d q1d ne limits opLen len)
    (hdim : 2 ≤ dim) : nonemptyVolume [q1d, d1d] < Size.bufferBound := by
  rw [nonemptyVolume_cons, nonemptyVolume_cons, nonemptyVolume_nil, Nat.mul_one,
    Nat.max_eq_right h.q1d_pos, Nat.max_eq_right h.d1d_pos]
  exact h.table_lt hdim

section

variable (h : KernelSizes α dim vdim d1d q1d ne limits opLen len)

include h

theorem opLen_ok (hdim : 2 ≤ dim) :
    Size.product [q1d ^ dim, symmetricEntries dim, ne] = .ok opLen := by
  have hpos : ∀ n ∈ [q1d ^ dim, symmetricEntries dim], 0 < n := by
    simp [Nat.pow_pos h.q1d_pos, symmetricEntries_pos (Nat.lt_of_lt_of_le Nat.two_pos hdim)]
  exact Size.product_elements hpos (by simp [volume]) h.opLen h.opFits.lt

/-- The length of the operator data, axis by axis. -/
theorem pointsLen_ok (hdim : 2 ≤ dim) :
    Size.product (List.replicate dim q1d ++ [symmetricEntries dim] ++ [ne]) = .ok opLen := by
  have hpos : ∀ n ∈ List.replicate dim q1d ++ [symmetricEntries dim], 0 < n :=
    axes_pos h.q1d_pos (symmetricEntries_pos (Nat.lt_of_lt_of_le Nat.two_pos hdim))
  exact Size.product_elements hpos (volume_axes dim q1d _) h.opLen h.opFits.lt

theorem len_ok : Size.product [d1d ^ dim, vdim, ne] = .ok len := by
  have hpos : ∀ n ∈ [d1d ^ dim, vdim], 0 < n := by simp [Nat.pow_pos h.d1d_pos, h.vdim_pos]
  exact Size.product_elements hpos (by simp [volume]) h.len h.vectorFits.lt

end

/-- The operator data is viewed with one matrix for each point. -/
theorem op_view {op : Array α} (h : KernelSizes α dim vdim d1d q1d ne limits op.size len)
    (hdim : 2 ≤ dim) :
    ∃ v, View.ofBuffer op [q1d ^ dim, symmetricEntries dim, ne] = .ok v := by
  have hpos : ∀ n ∈ [q1d ^ dim, symmetricEntries dim], 0 < n := by
    simp [Nat.pow_pos h.q1d_pos, symmetricEntries_pos (Nat.lt_of_lt_of_le Nat.two_pos hdim)]
  exact View.ofBuffer_elements hpos (by simp [volume]) h.opLen h.opFits.lt

/-- A vector is viewed by node and component. -/
theorem vector_view {x : Array α}
    (h : KernelSizes α dim vdim d1d q1d ne limits opLen x.size) :
    ∃ v, View.ofBuffer x (List.replicate dim d1d ++ [vdim] ++ [ne]) = .ok v :=
  View.ofBuffer_elements (axes_pos h.d1d_pos h.vdim_pos) (volume_axes dim d1d vdim) h.len
    h.vectorFits.lt

end KernelSizes

end TensorDiffusion
