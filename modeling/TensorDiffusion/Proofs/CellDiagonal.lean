import Mathlib.Tactic.Ring
import TensorDiffusion.Proofs.FaceDiagonal

/-!
# The diagonal on cells, in closed form

A diagonal on cells is collected from the nine entries of the forms, one after the other: each
contributes to every entry of the output a value that depends on that entry's node and element
only (`cellTerm`), whatever the scratch buffer held.
-/

namespace TensorDiffusion

theorem symmetricIndex_lt : ∀ i < 3, ∀ j < 3, symmetricIndex i j < 6 := by decide

namespace Diagonal

variable {α : Type}

/-- The views of a plan for cells have the shapes they are read with. -/
structure CellShapes (plan : Plan α) (d1d q1d ne : Nat) : Prop
    extends TableShapes plan d1d q1d where
  op : plan.op.shape = [q1d * q1d * q1d, 6, ne]

/-- What the checks of a diagonal on cells establish. -/
structure CellPlanned (plan : Plan α) (fixed : FixedSizes) (ne : Nat) (tables : Tables α)
    (op : Array α) (diagLen : Nat) : Prop extends HoldsTables plan tables where
  shapes : CellShapes plan plan.d1d plan.q1d ne
  d1d_pos : 0 < plan.d1d
  q1d_pos : 0 < plan.q1d
  fixedD1d : fixed.d1d = 0 ∨ fixed.d1d = plan.d1d
  fixedQ1d : fixed.q1d = 0 ∨ fixed.q1d = plan.q1d
  chunk : plan.chunk = plan.d1d * plan.d1d * plan.d1d * 3
  room : plan.room = plan.q1d * plan.q1d * plan.d1d + plan.q1d * plan.d1d * plan.d1d
  diagLen : diagLen = ne * plan.chunk
  op : plan.op.data = op

theorem cellPlanned {fixed : FixedSizes} {limits : Limits} {ne : Nat} {tables : Tables α}
    {op : Array α} {diagLen : Nat} {plan : Plan α}
    (h : cellPlan fixed limits ne tables op diagLen = .ok plan) :
    CellPlanned plan fixed ne tables op diagLen := by
  simp only [cellPlan, bind_eq_ok, pure_eq_ok, FixedSizes.check_eq, checkBuffer_eq, require_eq,
    Limits.check_eq, Size.mul_eq_ok, Size.add_eq_ok, View.ofBuffer_eq_ok, Except.ok.injEq,
    exists_const] at h
  obtain ⟨hd, hq, -, ⟨hd₀, hq₀⟩, nd, hnd, -, -, -, n, hn, hy, b, ⟨-, hb, hbs⟩, g, ⟨-, hg, hgs⟩,
    nq, hnq, op', ⟨-, ho, hos⟩, r, hr, t, ht, room, ⟨-, hroom⟩, chunk, ⟨-, hchunk⟩, rfl⟩ := h
  have hnd := Size.product_eq hnd
  have hnq := Size.product_eq hnq
  have hn := Size.product_eq hn
  have hr := Size.product_eq hr
  have ht := Size.product_eq ht
  simp only [volume, Nat.mul_one, ← Nat.mul_assoc] at hnd hnq hn hr ht
  subst hnd hnq
  exact {
    shapes := ⟨⟨hbs, hgs⟩, hos⟩
    d1d := rfl, q1d := rfl, d1d_pos := hd₀, q1d_pos := hq₀
    fixedD1d := hd, fixedQ1d := hq
    chunk := hchunk.symm
    room := by rw [← hroom, hr, ht]
    diagLen := by
      show diagLen = ne * chunk
      rw [hy, hn, ← hchunk, Nat.mul_comm ne]
    b := hb, g := hg, op := ho }

theorem CellPlanned.chunk_pos {plan : Plan α} {fixed : FixedSizes} {ne : Nat} {tables : Tables α}
    {op : Array α} {diagLen : Nat} (hp : CellPlanned plan fixed ne tables op diagLen) :
    0 < plan.chunk := by
  rw [hp.chunk]
  exact Nat.mul_pos (Nat.mul_pos (Nat.mul_pos hp.d1d_pos hp.d1d_pos) hp.d1d_pos) (by decide)

/-- The two boxes of a workspace are no larger than the two cubes. -/
theorem boxes_le_cubes (q d : Nat) : q * q * d + q * d * d ≤ q * q * q + d * d * d := by
  have key : ∀ m t : Nat, m * m * (m + t) + m * (m + t) * (m + t) ≤
      m * m * m + (m + t) * (m + t) * (m + t) := fun m t =>
    calc m * m * (m + t) + m * (m + t) * (m + t)
        = m * m * m + m * m * t + m * (m + t) * (m + t) := by ring
      _ ≤ m * m * m + (m + t) * (m + t) * t + m * (m + t) * (m + t) := by
        have : m * m ≤ (m + t) * (m + t) := Nat.mul_le_mul (by omega) (by omega)
        have := Nat.mul_le_mul_right t this
        omega
      _ = m * m * m + (m + t) * (m + t) * (m + t) := by ring
  rcases Nat.le_total q d with h | h
  · obtain ⟨t, rfl⟩ := Nat.exists_eq_add_of_le h
    exact key q t
  · obtain ⟨t, rfl⟩ := Nat.exists_eq_add_of_le h
    have := key d t
    calc (d + t) * (d + t) * d + (d + t) * d * d
        = d * d * (d + t) + d * (d + t) * (d + t) := by ring
      _ ≤ (d + t) * (d + t) * (d + t) + d * d * d := by omega

/-- **The sizes of a diagonal on cells are accepted**, and its workspace has room. -/
theorem cellPlan_ok [Stored α] {fixed : FixedSizes} {limits : Limits} {ne : Nat}
    {tables : Tables α} {op : Array α} {diagLen : Nat} (hs : tables.Sized)
    (hf : fixed.Agrees tables.ndof tables.nqpt 3)
    (h : KernelSizes α 3 3 tables.ndof tables.nqpt ne limits op.size diagLen) :
    ∃ plan, cellPlan fixed limits ne tables op diagLen = .ok plan ∧
      Stored.bytes α * plan.room < Size.bufferBound := by
  have hd := h.d1d_pos
  have hq := h.q1d_pos
  have hnd := h.nodes_lt
  have hnq := h.points_lt (by decide)
  have hchunk := h.chunk_lt
  have hlen := h.len_ok
  have hopLen : Size.product [tables.nqpt, tables.nqpt, tables.nqpt, 6, ne] = .ok op.size :=
    h.pointsLen_ok (by decide)
  have hopFits := h.opFits.one
  have hdFits := h.vectorFits.one
  obtain ⟨b, g, -, -, hb, hg, -, -⟩ := hs.views hd hq (h.table_lt (by decide))
  obtain ⟨o, ho⟩ := h.op_view (by decide)
  rw [show symmetricEntries 3 = 6 from rfl] at hopFits ho
  simp only [Nat.pow_succ, Nat.pow_zero, Nat.one_mul] at *
  -- The mixed boxes of the workspace are no larger than the cubes of points and nodes together.
  have hroom : Stored.bytes α * (tables.nqpt * tables.nqpt * tables.ndof +
      tables.nqpt * tables.ndof * tables.ndof) < Size.bufferBound := by
    have hle := Nat.mul_le_mul_left (Stored.bytes α) (boxes_le_cubes tables.nqpt tables.ndof)
    rw [Nat.mul_add _ (tables.nqpt * tables.nqpt * tables.nqpt)] at hle
    rw [← Nat.mul_assoc] at hopFits hdFits
    omega
  have hroomLen := lt_of_bytes hroom
  refine ⟨⟨tables.ndof, tables.nqpt, 3, tables.ndof * tables.ndof * tables.ndof * 3, _, b, g, o⟩,
    ?_, hroom⟩
  simp only [cellPlan]
  rw [FixedSizes.check_ok hf.d1d, ok_bind, FixedSizes.check_ok hf.q1d, ok_bind,
    Limits.check_ok h.maxD1d h.maxQ1d, ok_bind, require_eq_ok.2 ⟨hd, hq⟩, ok_bind,
    Size.product_three hd hd hd hnd, ok_bind, hopLen, ok_bind, checkBuffer_ok rfl, ok_bind, hlen,
    ok_bind, checkBuffer_ok rfl, ok_bind, hb, ok_bind, hg, ok_bind,
    Size.product_three hq hq hq hnq, ok_bind, ho, ok_bind,
    Size.product_three hq hq hd (by omega), ok_bind, Size.product_three hq hd hd (by omega),
    ok_bind, Size.add_ok hroomLen, ok_bind, Size.mul_ok hchunk]
  rfl

/-! ### One entry of the forms -/

variable [Zero α] [Add α] [Mul α]

/-- A contraction along one axis, between the tables of row `i` and column `j`. -/
def axisSum (plan : Plan α) (q1d axis i j node : Nat) (t : Nat → α) : α :=
  leftSum 0 q1d fun k =>
    let b := plan.b.entry [k, node]
    let g := plan.g.entry [k, node]
    (if i = axis then g else b) * t k * (if j = axis then g else b)

/-- Entry `(i, j)` of the forms contracted along z. -/
def cellAlongZ (plan : Plan α) (q1d e i j k : Nat) : α :=
  axisSum plan q1d 2 i j (k / (q1d * q1d)) fun qz =>
    plan.op.entry [k % (q1d * q1d) + qz * (q1d * q1d), symmetricIndex i j, e]

/-- Entry `(i, j)` of the forms contracted along z and y. -/
def cellAlongZY (plan : Plan α) (d1d q1d e i j k : Nat) : α :=
  axisSum plan q1d 1 i j (k / q1d % d1d) fun qy =>
    cellAlongZ plan q1d e i j (k % q1d + q1d * (qy + q1d * (k / (q1d * d1d))))

/-- What entry `(i, j)` of the forms contributes at place `n` of the chunk. -/
def cellTerm (plan : Plan α) (d1d q1d e i j n : Nat) : α :=
  axisSum plan q1d 0 i j (n % d1d) fun qx =>
    cellAlongZY plan d1d q1d e i j (qx + q1d * (n % (d1d * d1d * d1d) / d1d))

/-- What the diagonal makes of entry `v` at place `n` of the chunk. -/
def cellUpdate (plan : Plan α) (d1d q1d e n : Nat) (v : α) : α :=
  (List.range 3).foldl (fun v i => leftSum v 3 fun j => cellTerm plan d1d q1d e i j n) v

/-- The parts of the scratch buffer and the chunk have the lengths that a cell works on. -/
structure CellState.Fits (s : CellState α) (d1d q1d : Nat) : Prop where
  alongZ : s.alongZ.Exact [q1d, q1d, d1d]
  alongZY : s.alongZY.Exact [q1d, d1d, d1d]
  y : s.y.Exact [d1d, d1d, d1d, 3]

section

variable {plan : Plan α} {d1d q1d ne e i j : Nat} {alongZ alongZY y : View α}

theorem contractAxis_eq (hs : CellShapes plan d1d q1d ne) {axis node : Nat} (hnode : node < d1d)
    {term : Nat → Except Fault α} {t : Nat → α} (h : ∀ k < q1d, term k = .ok (t k)) :
    contractAxis plan q1d axis i j node term = .ok (axisSum plan q1d axis i j node t) :=
  total_eq fun k hk => by
    rw [View.get_matrix hs.b hk hnode, ok_bind, View.get_matrix hs.g hk hnode, ok_bind, h k hk]
    rfl

/-- The forms are contracted along z, whatever the view held. -/
theorem contractCellZ_ok (hs : CellShapes plan d1d q1d ne) (he : e < ne) (hi : i < 3) (hj : j < 3)
    (hZ : alongZ.Exact [q1d, q1d, d1d]) :
    ∃ w, contractCellZ plan d1d q1d e i j alongZ = .ok w ∧
      w.Holds [q1d, q1d, d1d] (cellAlongZ plan q1d e i j) := by
  refine hZ.holds.sets_nested (cellAlongZ plan q1d e i j)
    ((visits_line q1d).nested (visits_line d1d)) fun w qx hqx => ?_
  refine sweep_pairs_eq (fun (w : View α) qy dz =>
    w.set [qx, qy, dz] (cellAlongZ plan q1d e i j (qx + q1d * (qy + q1d * dz))))
    fun w qy hqy => sweep_congr (fun w dz hdz => ?_) w
  have hline : qx + q1d * qy < q1d * q1d := pair_lt hqx hqy
  have hpoint : qx + q1d * (qy + q1d * dz) = qx + q1d * qy + q1d * q1d * dz := by ring
  rw [contractAxis_eq hs hdz fun qz hqz => View.get_three hs.op ?_ (symmetricIndex_lt i hi j hj) he,
    ok_bind, cellAlongZ, hpoint, pair_div _ hline, pair_mod _ hline]
  · simp only [show ∀ qz, qx + q1d * qy + qz * (q1d * q1d) = qx + (qy + qz * q1d) * q1d by
      intro qz; ring]
  · rw [show qx + (qy + qz * q1d) * q1d = qx + q1d * qy + q1d * q1d * qz by ring]
    exact pair_lt hline hqz

/-- What is left is contracted along y. -/
theorem contractCellY_ok (hs : CellShapes plan d1d q1d ne)
    (hZ : alongZ.Holds [q1d, q1d, d1d] (cellAlongZ plan q1d e i j))
    (hZY : alongZY.Exact [q1d, d1d, d1d]) :
    ∃ w, contractCellY plan d1d q1d i j alongZ alongZY = .ok w ∧
      w.Holds [q1d, d1d, d1d] (cellAlongZY plan d1d q1d e i j) := by
  refine hZY.holds.sets_nested (cellAlongZY plan d1d q1d e i j) (visits_plane d1d d1d)
    fun w qx hqx => ?_
  refine sweep_pairs_eq (fun (w : View α) dz dy =>
    w.set [qx, dy, dz] (cellAlongZY plan d1d q1d e i j (qx + q1d * (dy + d1d * dz))))
    fun w dz hdz => sweep_congr (fun w dy hdy => ?_) w
  obtain ⟨hx, hy, hz⟩ := triple_positions dz hqx hdy
  rw [contractAxis_eq hs hdy fun qy hqy => hZ.get_three hqx hqy hdz, ok_bind, cellAlongZY]
  simp only [hx, hy, hz]

/-- What is left is contracted along x and added to every entry of a chunk. -/
theorem contractCellX_ok (hs : CellShapes plan d1d q1d ne)
    (hZY : alongZY.Holds [q1d, d1d, d1d] (cellAlongZY plan d1d q1d e i j))
    {f : Nat → α} (hy : y.Holds [d1d, d1d, d1d, 3] f) :
    ∃ w, contractCellX plan d1d q1d i j alongZY y = .ok w ∧
      w.Holds [d1d, d1d, d1d, 3] fun n => f n + cellTerm plan d1d q1d e i j n := by
  -- The places of a node on the axes other than x.
  have hplace : ∀ n, n % (d1d * d1d * d1d) / d1d = n / d1d % d1d + d1d * (n / (d1d * d1d) % d1d) := by
    intro n
    rw [Nat.mul_assoc, Nat.mod_mul_right_div_self, Nat.mod_mul, Nat.div_div_eq_div_mul]
  simp only [cellTerm, hplace]
  refine hy.adds_last_box (fun dx dy dz => axisSum plan q1d 0 i j dx fun qx =>
    cellAlongZY plan d1d q1d e i j (qx + q1d * (dy + d1d * dz))) fun w dz hdz =>
    sweep_congr (fun w dy hdy => sweep_congr (fun w dx hdx => ?_) w) w
  rw [contractAxis_eq hs hdx fun qx hqx => hZY.get_three hqx hdy hdz, ok_bind]

/-- **One entry of the forms**, whatever the scratch buffer held. -/
theorem cellEntry_ok (hs : CellShapes plan d1d q1d ne) (he : e < ne) (hi : i < 3) (hj : j < 3)
    {s : CellState α} (h : s.Fits d1d q1d) :
    ∃ s', cellEntry plan d1d q1d e i j s = .ok s' ∧ CellState.Fits s' d1d q1d ∧
      s'.y.data = s.y.data.mapIdx fun n v => v + cellTerm plan d1d q1d e i j n := by
  obtain ⟨alongZ, alongZY, y⟩ := s
  obtain ⟨hZ, hZY, hy⟩ := h
  simp only at hZ hZY hy
  obtain ⟨alongZ', hrunZ, hZ'⟩ := contractCellZ_ok hs he hi hj hZ
  obtain ⟨alongZY', hrunY, hZY'⟩ := contractCellY_ok hs hZ' hZY
  obtain ⟨y', hrunX, hy'⟩ := contractCellX_ok hs hZY' hy.holds
  refine ⟨⟨alongZ', alongZY', y'⟩, ?_, ⟨hZ'.exact, hZY'.exact, hy'.exact⟩,
    View.Holds.data_mapIdx hy (fun n v => v + cellTerm plan d1d q1d e i j n) hy'⟩
  simp only [cellEntry, hrunZ, hrunY, hrunX, ok_bind, pure_eq_ok]

/-- The three columns of one row of the forms. -/
theorem cellRow_ok (hs : CellShapes plan d1d q1d ne) (he : e < ne) (hi : i < 3)
    {s : CellState α} (h : s.Fits d1d q1d) :
    ∃ s', sweep 3 (fun s j => cellEntry plan d1d q1d e i j s) s = .ok s' ∧
      CellState.Fits s' d1d q1d ∧ s'.y.data = s.y.data.mapIdx fun n v =>
        leftSum v 3 fun j => cellTerm plan d1d q1d e i j n := by
  let P (m : Nat) (s' : CellState α) : Prop := s'.Fits d1d q1d ∧
    s'.y.data = s.y.data.mapIdx fun n v => leftSum v m fun j => cellTerm plan d1d q1d e i j n
  refine sweep_induction P ⟨h, (mapIdx_eq_self s.y.data).symm⟩ ?_
  rintro j s₁ hj ⟨hs₁, hdata⟩
  obtain ⟨s₂, hrun, hs₂, hdata₂⟩ := cellEntry_ok hs he hi hj hs₁
  refine ⟨s₂, hrun, hs₂, ?_⟩
  rw [hdata₂, hdata, mapIdx_mapIdx]
  rfl

/-- The nine entries of the forms. -/
theorem cellEntries_ok (hs : CellShapes plan d1d q1d ne) (he : e < ne) {s : CellState α}
    (h : s.Fits d1d q1d) :
    ∃ s', sweep 3 (fun s i => sweep 3 (fun s j => cellEntry plan d1d q1d e i j s) s) s = .ok s' ∧
      CellState.Fits s' d1d q1d ∧ s'.y.data = s.y.data.mapIdx (cellUpdate plan d1d q1d e) := by
  -- After `m` rows every entry has received the terms of these rows, in the order of the loop.
  let P (m : Nat) (s' : CellState α) : Prop := s'.Fits d1d q1d ∧
    s'.y.data = s.y.data.mapIdx fun n v => (List.range m).foldl (fun v i =>
      leftSum v 3 fun j => cellTerm plan d1d q1d e i j n) v
  refine sweep_induction P ⟨h, (mapIdx_eq_self s.y.data).symm⟩ ?_
  rintro i s₁ hi ⟨hs₁, hdata⟩
  obtain ⟨s₂, hrun, hs₂, hdata₂⟩ := cellRow_ok hs he hi hs₁
  refine ⟨s₂, hrun, hs₂, ?_⟩
  rw [hdata₂, hdata, mapIdx_mapIdx]
  simp only [List.range_succ, List.foldl_append, List.foldl_cons, List.foldl_nil]

end

section

variable {plan : Plan α} {fixed : FixedSizes} {ne : Nat} {tables : Tables α} {op : Array α}
  {diagLen : Nat}

omit [Zero α] [Add α] [Mul α] in
/-- The indices of a chunk. -/
theorem CellPlanned.chunk_volume (hp : CellPlanned plan fixed ne tables op diagLen) :
    (∀ k ∈ [plan.d1d, plan.d1d, plan.d1d, 3], 0 < k) ∧
      volume [plan.d1d, plan.d1d, plan.d1d, 3] = plan.chunk := by
  have hd := hp.d1d_pos
  exact ⟨by simp [hd], by simp [volume, hp.chunk, Nat.mul_assoc]⟩

/-- A cell replaces every entry of its chunk by the update of its node. -/
theorem cell_actsBy (hp : CellPlanned plan fixed ne tables op diagLen)
    (hroom : plan.room < Size.bufferBound) (hchunk : 0 < ne → plan.chunk < Size.bufferBound) :
    ActsBy plan.chunk ne (fun scratch : Array α => scratch.size = plan.room) (cell fixed plan)
      fun e => cellUpdate plan plan.d1d plan.q1d e := by
  intro scratch e chunk hscratch he hsize
  have hd := hp.d1d_pos
  have hq := hp.q1d_pos
  have hZpos : ∀ k ∈ [plan.q1d, plan.q1d, plan.d1d], 0 < k := by simp [hd, hq]
  have hZYpos : ∀ k ∈ [plan.q1d, plan.d1d, plan.d1d], 0 < k := by simp [hd, hq]
  obtain ⟨hnodes, hvolume⟩ := hp.chunk_volume
  have hZlen : volume [plan.q1d, plan.q1d, plan.d1d] = plan.q1d * plan.q1d * plan.d1d := by
    simp [volume, Nat.mul_assoc]
  have hZYlen : volume [plan.q1d, plan.d1d, plan.d1d] = plan.q1d * plan.d1d * plan.d1d := by
    simp [volume, Nat.mul_assoc]
  have hroomLen := hp.room
  have hproductZ := Size.product_three hq hq hd (by omega)
  have hproductZY := Size.product_three hq hd hd (by omega)
  -- The chunk and the scratch buffer are taken apart,
  obtain ⟨y, hyView, hy, rfl⟩ := View.ofBuffer_exact hnodes (hsize.trans hvolume.symm)
    (hvolume ▸ hchunk (Nat.zero_lt_of_lt he))
  obtain ⟨first, second, hcut, hfirst, hsecond⟩ := cut_ok (hscratch.trans hroomLen)
  obtain ⟨alongZ, hZView, hZ, -⟩ :=
    View.ofBuffer_exact hZpos (hfirst.trans hZlen.symm) (by omega)
  obtain ⟨alongZY, rest, hwindow, hZY, hjoin⟩ :=
    View.window_ok hZYpos hZYlen (Nat.le_of_eq hsecond.symm) (by omega)
  -- the entries of the forms are worked on,
  have hfits : CellState.Fits ⟨alongZ, alongZY, y⟩ plan.d1d plan.q1d := ⟨hZ, hZY, hy⟩
  obtain ⟨s, hrun, hs, hdata⟩ := cellEntries_ok hp.shapes he hfits
  -- and they are put together again.
  refine ⟨s.alongZ.data ++ s.alongZY.data ++ rest, ?_, ?_⟩
  · show Array.size _ = plan.room
    rw [Array.append_assoc, Array.size_append, hjoin _ hs.alongZY, hs.alongZ.size_eq, hZlen,
      hsecond, hroomLen]
  · simp only [cell, FixedSizes.pick_eq hp.fixedD1d, FixedSizes.pick_eq hp.fixedQ1d, hyView,
      hproductZ, hcut, hZView, hproductZY, hwindow, hrun, hdata, ok_bind, pure_eq_ok]

/-- A chunk that is too long for a view is refused before anything else. -/
theorem cell_overflow (hp : CellPlanned plan fixed ne tables op diagLen)
    (hchunk : ¬ plan.chunk < Size.bufferBound) (scratch : Array α) (e : Nat) {chunk : Array α}
    (hsize : chunk.size = plan.chunk) :
    cell fixed plan scratch e chunk = .error (.violated (.shapeOverflow plan.chunk)) := by
  obtain ⟨hnodes, hvolume⟩ := hp.chunk_volume
  have hview : View.ofBuffer chunk [plan.d1d, plan.d1d, plan.d1d, 3] =
      .error (.violated (.shapeOverflow plan.chunk)) := by
    rw [View.ofBuffer_of_overflow (by rwa [nonemptyVolume_of_pos hnodes, hvolume]), hsize]
  rw [cell, FixedSizes.pick_eq hp.fixedD1d, hview]
  rfl

end

variable [Stored α]

/-- **The diagonal on cells**, whatever the settings: every entry is updated once. -/
theorem onCells_eq {fixed : FixedSizes} {config : Execution} {ne : Nat} {tables : Tables α}
    {op : Array α} {diag : Array α} {plan : Plan α}
    (hplan : cellPlan fixed config.limits ne tables op diag.size = .ok plan)
    (hroom : Stored.bytes α * plan.room < Size.bufferBound)
    (hchunk : 0 < ne → plan.chunk < Size.bufferBound) :
    (onCells fixed config ne tables op).run diag = .ok () (diag.mapIdx fun n =>
      cellUpdate plan plan.d1d plan.q1d (n / plan.chunk) (n % plan.chunk)) := by
  have hp := cellPlanned hplan
  rw [onCells, run_bind_ok (run_get diag), run_bind_ok (run_ofExcept hplan diag)]
  exact forElements_eq (cell_actsBy hp (lt_of_bytes hroom) hchunk) hp.chunk_pos
    (Size.reserve_eq_ok.2 hroom) Array.size_replicate hp.diagLen

end Diagonal

end TensorDiffusion
