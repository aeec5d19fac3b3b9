import TensorDiffusion.Basis.Tables
import TensorDiffusion.Proofs.Indexing
import TensorDiffusion.Proofs.Views

/-!
# Transposed tables

Tables with one entry for each point and node are accepted together with their transposes
(`Tables.ofTables_eq`), and tables of another size are reported (`Tables.ofTables_eq_error`).  The
entry of a transpose at node `d` and point `q` is that of its table at `q` and `d`
(`Tables.transposed_entry`).

* `Tables.IsTranspose`: the relation of a table and its transpose, which is symmetric
  (`IsTranspose.symm`) and determines the transpose (`IsTranspose.unique`).
* `Tables.transposed_transposed`: a table is the transpose of its transpose.
-/

namespace TensorDiffusion

variable {α β : Type}

theorem mapM_eq_ok {l : List β} {f : β → Except Fault α} {g : β → α}
    (h : ∀ a ∈ l, f a = .ok (g a)) : l.mapM f = .ok (l.map g) := by
  induction l with
  | nil => rfl
  | cons a l ih =>
    rw [List.mapM_cons, h a List.mem_cons_self, ok_bind,
      ih fun b hb => h b (List.mem_cons_of_mem a hb), ok_bind]
    rfl

/-- Two nested loops are one loop over flat indices, the inner one fastest. -/
theorem flatMap_range (m n : Nat) (f : Nat → Nat → β) :
    ((List.range m).flatMap fun i => (List.range n).map (f i)) =
      (List.range (m * n)).map fun k => f (k / n) (k % n) := by
  induction m with
  | zero => simp
  | succ m ih =>
    rw [List.range_succ, List.flatMap_append, ih, Nat.succ_mul, List.range_add, List.map_append]
    simp only [List.flatMap_cons, List.flatMap_nil, List.append_nil, List.map_map]
    refine congrArg _ (List.map_congr_left fun j hj => ?_)
    have hj := List.mem_range.1 hj
    rw [Function.comp_apply, Nat.add_comm, Nat.mul_comm, pair_div m hj, pair_mod m hj]

namespace View

variable [Zero α]

/-- The rows of a matrix, one after the other. -/
theorem entries_matrix {v : View α} {m n : Nat} (hs : v.shape = [m, n]) :
    v.entries = .ok ((List.range (m * n)).map fun k => v.entry [k / n, k % n]) := by
  rw [entries, hs]
  by_cases h0 : volume [m, n] = 0
  · have hmn : m * n = 0 := by simpa [volume] using h0
    rw [if_pos h0, hmn]
    rfl
  · rw [if_neg h0]
    have hidx : indices [m, n] = (List.range (m * n)).map fun k => [k / n, k % n] := by
      have := flatMap_range m n fun i j => [i, j]
      simpa [indices, ← List.map_eq_flatMap, Function.comp_def] using this
    rw [hidx, mapM_eq_ok (g := v.entry), List.map_map]
    · rfl
    · intro idx hmem
      obtain ⟨k, hk, rfl⟩ := List.mem_map.1 hmem
      have hk : k < n * m := by rw [Nat.mul_comm]; exact List.mem_range.1 hk
      exact get_matrix hs (div_lt_right hk) (mod_lt_left hk)

end View

namespace Tables

/-- Every table has one entry for each point and node. -/
structure Sized (tables : Tables α) : Prop where
  b : tables.b.size = tables.nqpt * tables.ndof
  g : tables.g.size = tables.nqpt * tables.ndof
  bt : tables.bt.size = tables.nqpt * tables.ndof
  gt : tables.gt.size = tables.nqpt * tables.ndof

/-- Every table of a positive size is viewed. -/
theorem Sized.views {tables : Tables α} (hs : tables.Sized) (hd : 0 < tables.ndof)
    (hq : 0 < tables.nqpt) (hlt : tables.nqpt * tables.ndof < Size.bufferBound) :
    ∃ b g bt gt, View.ofBuffer tables.b [tables.nqpt, tables.ndof] = .ok b ∧
      View.ofBuffer tables.g [tables.nqpt, tables.ndof] = .ok g ∧
      View.ofBuffer tables.bt [tables.ndof, tables.nqpt] = .ok bt ∧
      View.ofBuffer tables.gt [tables.ndof, tables.nqpt] = .ok gt := by
  have hlt' : tables.ndof * tables.nqpt < Size.bufferBound := by rwa [Nat.mul_comm]
  obtain ⟨b, hb⟩ := View.ofBuffer_table hq hd hs.b hlt
  obtain ⟨g, hg⟩ := View.ofBuffer_table hq hd hs.g hlt
  obtain ⟨bt, hbt⟩ := View.ofBuffer_table hd hq (by rw [hs.bt, Nat.mul_comm]) hlt'
  obtain ⟨gt, hgt⟩ := View.ofBuffer_table hd hq (by rw [hs.gt, Nat.mul_comm]) hlt'
  exact ⟨b, g, bt, gt, hb, hg, hbt, hgt⟩

variable [Zero α]

/-- The transpose of a table with `nqpt` points and `ndof` nodes. -/
def transposed (nqpt ndof : Nat) (table : Array α) : Array α :=
  Array.ofFn fun k : Fin (nqpt * ndof) => table.getD (k / ndof + nqpt * (k % ndof)) 0

theorem transposed_entry {nqpt ndof d q : Nat} {table : Array α} (hd : d < ndof) (hq : q < nqpt) :
    (transposed nqpt ndof table).getD (d + ndof * q) 0 = table.getD (q + nqpt * d) 0 := by
  have hlt : d + ndof * q < nqpt * ndof := by
    rw [Nat.mul_comm nqpt]; exact pair_lt hd hq
  rw [transposed, getD_ofFn 0 hlt, pair_div q hd, pair_mod q hd]

/-- A table of `m` points and `n` nodes and one of `n` points and `m` nodes: the entry of the one at
`i` and `j` is that of the other at `j` and `i`. -/
structure IsTranspose (m n : Nat) (table flipped : Array α) : Prop where
  size : table.size = m * n
  size_flipped : flipped.size = n * m
  entry : ∀ i < m, ∀ j < n, flipped[j + n * i]? = table[i + m * j]?

section

variable {m n : Nat} {table flipped : Array α}

omit [Zero α] in
theorem IsTranspose.symm (h : IsTranspose m n table flipped) : IsTranspose n m flipped table :=
  ⟨h.size_flipped, h.size, fun j hj i hi => (h.entry i hi j hj).symm⟩

omit [Zero α] in
/-- **A table has one transpose.** -/
theorem IsTranspose.unique {flipped' : Array α} (h : IsTranspose m n table flipped)
    (h' : IsTranspose m n table flipped') : flipped = flipped' := by
  refine Array.ext_getElem? fun k => ?_
  by_cases hk : k < n * m
  · rw [← Nat.mod_add_div k n, h.entry _ (div_lt_right hk) _ (mod_lt_left hk),
      h'.entry _ (div_lt_right hk) _ (mod_lt_left hk)]
  · rw [Array.getElem?_eq_none (h.size_flipped ▸ Nat.le_of_not_lt hk),
      Array.getElem?_eq_none (h'.size_flipped ▸ Nat.le_of_not_lt hk)]

theorem isTranspose_transposed (hsize : table.size = m * n) :
    IsTranspose m n table (transposed m n table) := by
  have hflipped : (transposed m n table).size = n * m := by
    rw [transposed, Array.size_ofFn, Nat.mul_comm]
  refine ⟨hsize, hflipped, fun i hi j hj => ?_⟩
  have hplace : i + m * j < table.size := hsize ▸ pair_lt hi hj
  have hplace' : j + n * i < (transposed m n table).size := hflipped ▸ pair_lt hj hi
  rw [slot_eq_ok.1 (slot_getD 0 hplace), slot_eq_ok.1 (slot_getD 0 hplace'),
    transposed_entry hj hi]

/-- **A table is the transpose of its transpose.** -/
theorem transposed_transposed (hsize : table.size = m * n) :
    transposed n m (transposed m n table) = table := by
  have h := (isTranspose_transposed hsize).symm
  exact (isTranspose_transposed h.size).unique h

end

theorem transpose_eq {nqpt ndof : Nat} {table : Array α} (hsize : table.size = nqpt * ndof)
    (hfits : nonemptyVolume [nqpt, ndof] < Size.bufferBound) :
    transpose nqpt ndof table = .ok (transposed nqpt ndof table) := by
  have hv : volume [nqpt, ndof] ≤ table.size := by simp [volume, hsize]
  rw [transpose, View.ofBuffer_ok hv hfits, ok_bind, View.entries_matrix rfl, ok_bind, pure_eq_ok]
  refine congrArg _ (Array.ext (by simp [transposed]) fun k hk _ => ?_)
  simp [transposed, View.entry, flat]

omit [Zero α] in
theorem count_of_fits {ndof nqpt : Nat} (hfits : nonemptyVolume [nqpt, ndof] < Size.bufferBound) :
    Size.mul nqpt ndof = .ok (nqpt * ndof) := by
  have hle := volume_le_nonemptyVolume [nqpt, ndof]
  simp only [volume, Nat.mul_one] at hle
  exact Size.mul_ok (Nat.lt_of_le_of_lt hle hfits)

/-- Tables of the right size are accepted. -/
theorem ofTables_eq {ndof nqpt : Nat} {b g : Array α} (hb : b.size = nqpt * ndof)
    (hg : g.size = nqpt * ndof) (hfits : nonemptyVolume [nqpt, ndof] < Size.bufferBound) :
    ofTables ndof nqpt b g =
      .ok ⟨ndof, nqpt, b, g, transposed nqpt ndof b, transposed nqpt ndof g⟩ := by
  rw [ofTables, count_of_fits hfits, ok_bind, require_eq_ok.2 hb, ok_bind,
    require_eq_ok.2 hg, ok_bind, transpose_eq hb hfits, ok_bind, transpose_eq hg hfits, ok_bind]
  rfl

/-- Tables of another size are reported, the table of values first. -/
theorem ofTables_eq_error {ndof nqpt : Nat} {b g : Array α} {fault : Fault}
    (hfits : nonemptyVolume [nqpt, ndof] < Size.bufferBound) :
    ofTables ndof nqpt b g = .error fault ↔
      b.size ≠ nqpt * ndof ∧ fault = .violated (.tableShape "B") ∨
        b.size = nqpt * ndof ∧ g.size ≠ nqpt * ndof ∧ fault = .violated (.tableShape "G") := by
  by_cases hb : b.size = nqpt * ndof
  · by_cases hg : g.size = nqpt * ndof
    · simp [ofTables_eq hb hg hfits, hb, hg]
    · have hrun : ofTables ndof nqpt b g = .error (.violated (.tableShape "G")) := by
        rw [ofTables, count_of_fits hfits, ok_bind, require_eq_ok.2 hb, ok_bind, require_of_not hg]
        rfl
      simp [hrun, hb, hg, eq_comm]
  · have hrun : ofTables ndof nqpt b g = .error (.violated (.tableShape "B")) := by
      rw [ofTables, count_of_fits hfits, ok_bind, require_of_not hb]
      rfl
    simp [hrun, hb, eq_comm]

/-- Tables together with their transposes. -/
structure Paired (tables : Tables α) : Prop extends Sized tables where
  transposedB : tables.bt = transposed tables.nqpt tables.ndof tables.b
  transposedG : tables.gt = transposed tables.nqpt tables.ndof tables.g

/-- Tables that are accepted are paired with their transposes. -/
theorem ofTables_paired {ndof nqpt : Nat} {b g : Array α} (hb : b.size = nqpt * ndof)
    (hg : g.size = nqpt * ndof) :
    (⟨ndof, nqpt, b, g, transposed nqpt ndof b, transposed nqpt ndof g⟩ : Tables α).Paired where
  b := hb
  g := hg
  bt := Array.size_ofFn
  gt := Array.size_ofFn
  transposedB := rfl
  transposedG := rfl

end Tables

end TensorDiffusion
