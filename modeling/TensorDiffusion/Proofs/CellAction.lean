import TensorDiffusion.Proofs.FaceAction

/-!
# The action on cells, in closed form

An action on cells whose sizes are accepted adds to every entry of the output a value that depends
on that entry's node, component and element only (`cellUpdate`).  Points take the place of nodes axis
by axis on the way forward and give it back on the way back; lines and planes of both kinds use the
same entries of the scratch buffer, of which nothing is known but the number.
-/

namespace TensorDiffusion

namespace Action

variable {α : Type}

/-- The views of a plan for cells have the shapes they are read with. -/
structure CellShapes (plan : Plan α) (d1d q1d ne : Nat) : Prop
    extends TableShapes plan d1d q1d where
  op : plan.op.shape = [q1d * q1d * q1d, 6, ne]
  x : plan.x.shape = [d1d, d1d, d1d, 3, ne]

/-- What the checks of an action on cells establish. -/
structure CellPlanned (plan : Plan α) (fixed : FixedSizes) (ne : Nat) (tables : Tables α)
    (op x : Array α) (yLen : Nat) : Prop extends HoldsTables plan tables where
  shapes : CellShapes plan plan.d1d plan.q1d ne
  d1d_pos : 0 < plan.d1d
  q1d_pos : 0 < plan.q1d
  fixedD1d : fixed.d1d = 0 ∨ fixed.d1d = plan.d1d
  fixedQ1d : fixed.q1d = 0 ∨ fixed.q1d = plan.q1d
  chunk : plan.chunk = 3 * (plan.d1d * plan.d1d * plan.d1d)
  chunk_lt : plan.chunk < Size.bufferBound
  room : plan.room = 3 * (plan.q1d * plan.q1d * plan.q1d) +
    3 * (max plan.d1d plan.q1d * max plan.d1d plan.q1d) + 3 * max plan.d1d plan.q1d
  yLen : yLen = ne * plan.chunk
  op : plan.op.data = op
  x : plan.x.data = x

theorem cellPlanned {fixed : FixedSizes} {limits : Limits} {ne : Nat} {tables : Tables α}
    {op x : Array α} {yLen : Nat} {plan : Plan α}
    (h : cellPlan fixed limits ne tables op x yLen = .ok plan) :
    CellPlanned plan fixed ne tables op x yLen := by
  simp only [cellPlan, bind_eq_ok, pure_eq_ok, FixedSizes.check_eq, checkBuffer_eq, require_eq,
    Limits.check_eq, Size.mul_eq_ok, Size.add_eq_ok, View.ofBuffer_eq_ok, Except.ok.injEq,
    exists_const] at h
  obtain ⟨hd, hq, -, ⟨hd₀, hq₀⟩, nd, hnd, nq, hnq, -, -, -, -, -, -, n, hn, hy,
    b, ⟨-, hb, hbs⟩, g, ⟨-, hg, hgs⟩, bt, ⟨-, hbt, hbts⟩, gt, ⟨-, hgt, hgts⟩, op', ⟨-, ho, hos⟩,
    x', ⟨hxFits, hx, hxs⟩, p, ⟨-, rfl⟩, m, hm, r, ⟨-, rfl⟩, l, ⟨-, rfl⟩, room, ⟨-, hroom⟩,
    chunk, ⟨-, hchunk⟩, rfl⟩ := h
  have hnd := Size.product_eq hnd
  have hnq := Size.product_eq hnq
  have hm := Size.product_eq hm
  have hn := Size.product_eq hn
  simp only [volume, Nat.mul_one, ← Nat.mul_assoc] at hnd hnq hm hn
  subst hnd hnq
  exact {
    shapes := ⟨⟨hbs, hgs, hbts, hgts⟩, hos, hxs⟩
    d1d := rfl, q1d := rfl, d1d_pos := hd₀, q1d_pos := hq₀
    fixedD1d := hd, fixedQ1d := hq
    chunk := by rw [← hchunk, Nat.mul_comm]
    chunk_lt := by
      refine Nat.lt_of_le_of_lt ?_ hxFits
      have hle := volume_take_le_nonemptyVolume [tables.ndof, tables.ndof, tables.ndof, 3, ne] 4
      rwa [show volume ([tables.ndof, tables.ndof, tables.ndof, 3, ne].take 4) = chunk by
        rw [← hchunk]; simp [volume, Nat.mul_assoc]] at hle
    room := by rw [← hroom, hm, Nat.mul_assoc 3]
    yLen := by
      show yLen = ne * chunk
      rw [hy, hn, ← hchunk, Nat.mul_comm ne]
    b := hb, g := hg, bt := hbt, gt := hgt, op := ho, x := hx }

theorem CellPlanned.chunk_pos {plan : Plan α} {fixed : FixedSizes} {ne : Nat} {tables : Tables α}
    {op x : Array α} {yLen : Nat} (hp : CellPlanned plan fixed ne tables op x yLen) :
    0 < plan.chunk := by
  rw [hp.chunk]
  exact Nat.mul_pos (by decide) (Nat.mul_pos (Nat.mul_pos hp.d1d_pos hp.d1d_pos) hp.d1d_pos)

/-- The workspace of a cell has room where its operator data and its vector have. -/
theorem cellRoom_lt {w d q : Nat} (hw : w ≤ 64) (hop : w * (q * q * q * 6) < Size.bufferBound)
    (hd : d * d * d < Size.bufferBound) (hq : q * q * q < Size.bufferBound) :
    w * (3 * (q * q * q) + 3 * (max d q * max d q) + 3 * max d q) < Size.bufferBound := by
  have hbound : Size.bufferBound = 2097152 * 2097152 * 2097152 := rfl
  -- A side is below `2 ^ 21`, since its cube is below `2 ^ 63`.
  have hm : max d q < 2097152 := by
    have hd' : d < 2097152 := lt_of_cube hd
    have hq' : q < 2097152 := lt_of_cube hq
    omega
  have hsquare : max d q * max d q ≤ 2097152 * 2097152 :=
    Nat.mul_le_mul (Nat.le_of_lt hm) (Nat.le_of_lt hm)
  have hplane : w * (3 * (max d q * max d q)) ≤ 64 * (3 * (2097152 * 2097152)) :=
    Nat.mul_le_mul hw (Nat.mul_le_mul_left 3 hsquare)
  have hside : w * (3 * max d q) ≤ 64 * (3 * 2097152) := Nat.mul_le_mul hw (by omega)
  have hpoints : w * (q * q * q * 6) = 6 * (w * (q * q * q)) := by
    rw [Nat.mul_comm (q * q * q), Nat.mul_left_comm]
  rw [Nat.mul_add, Nat.mul_add, Nat.mul_left_comm w 3 (q * q * q)]
  omega

/-- **The sizes of an action on cells are accepted**, and its workspace has room. -/
theorem cellPlan_ok [Stored α] {fixed : FixedSizes} {limits : Limits} {ne : Nat}
    {tables : Tables α} {op x : Array α} {yLen : Nat} (hs : tables.Sized)
    (hf : fixed.Agrees tables.ndof tables.nqpt 3)
    (h : KernelSizes α 3 3 tables.ndof tables.nqpt ne limits op.size yLen)
    (hx : x.size = yLen) :
    ∃ plan, cellPlan fixed limits ne tables op x yLen = .ok plan ∧
      Stored.bytes α * plan.room < Size.bufferBound := by
  have hd := h.d1d_pos
  have hq := h.q1d_pos
  have hnd := h.nodes_lt
  have hnq := h.points_lt (by decide)
  have hchunk := h.chunk_lt
  have hopLen := h.opLen_ok (by decide)
  have hlen := h.len_ok
  have hopFits := h.opFits.one
  obtain ⟨b, g, bt, gt, hb, hg, hbt, hgt⟩ := hs.views hd hq (h.table_lt (by decide))
  obtain ⟨o, ho⟩ := h.op_view (by decide)
  obtain ⟨u, hu⟩ : ∃ u, View.ofBuffer x [tables.ndof, tables.ndof, tables.ndof, 3, ne] = .ok u :=
    (hx ▸ h).vector_view
  have hsix : tables.nqpt ^ 3 * symmetricEntries 3 < Size.bufferBound := h.opFits.one_lt
  rw [show symmetricEntries 3 = 6 from rfl] at hopLen hopFits ho hsix
  simp only [Nat.pow_succ, Nat.pow_zero, Nat.one_mul] at *
  have hroom := cellRoom_lt Stored.bytes_le hopFits hnd hnq
  have hroomLen := lt_of_bytes hroom
  have hm : 0 < max tables.ndof tables.nqpt := by omega
  have hplane : 3 * max tables.ndof tables.nqpt * max tables.ndof tables.nqpt <
      Size.bufferBound := by
    rw [Nat.mul_assoc]
    omega
  refine ⟨⟨tables.ndof, tables.nqpt, 3, tables.ndof * tables.ndof * tables.ndof * 3, _,
    b, g, bt, gt, o, u⟩, ?_, hroom⟩
  -- One step for each check, in the order in which they are made.
  simp only [cellPlan]
  rw [FixedSizes.check_ok hf.d1d, ok_bind, FixedSizes.check_ok hf.q1d, ok_bind,
    Limits.check_ok h.maxD1d h.maxQ1d, ok_bind, require_eq_ok.2 ⟨hd, hq⟩, ok_bind,
    Size.product_three hd hd hd hnd, ok_bind, Size.product_three hq hq hq hnq, ok_bind, hopLen,
    ok_bind, checkBuffer_ok rfl, ok_bind, hlen, ok_bind, checkBuffer_ok hx, ok_bind, ok_bind,
    checkBuffer_ok rfl, ok_bind, hb, ok_bind, hg, ok_bind, hbt, ok_bind, hgt, ok_bind, ho, ok_bind,
    hu, ok_bind, Size.mul_ok (by omega), ok_bind, Size.product_three (by decide) hm hm hplane,
    ok_bind, Nat.mul_assoc 3 (max _ _), Size.add_ok (by omega), ok_bind, Size.mul_ok (by omega),
    ok_bind, Size.add_ok hroomLen, ok_bind, Size.mul_ok hchunk]
  rfl

/-! ### One component -/

variable [Zero α] [Add α] [Mul α]

/-- The field of a component at a point of the x axis and a node of each other axis. -/
def cellLine (plan : Plan α) (d1d q1d e c k : Nat) : Jet1 α :=
  Jet1.of d1d plan.b plan.g (k % q1d) fun dx =>
    plan.x.entry [dx, k / q1d % d1d, k / (q1d * d1d), c, e]

/-- The field of a component at points of the x and y axes and a node of the z axis. -/
def cellPlane (plan : Plan α) (d1d q1d e c k : Nat) : Jet2 α :=
  Jet2.of d1d plan.b plan.g (k / q1d % q1d) fun dy =>
    cellLine plan d1d q1d e c (k % q1d + q1d * (dy + d1d * (k / (q1d * q1d))))

/-- The flux at a quadrature point. -/
def cellFlux (plan : Plan α) (d1d q1d e c q : Nat) : Vec3 α :=
  (Form3.of plan.op q e).apply <| Vec3.gradient d1d plan.b plan.g (q / (q1d * q1d)) fun dz =>
    cellPlane plan d1d q1d e c (q % (q1d * q1d) + q1d * q1d * dz)

/-- The flux tested along x. -/
def cellTestedX (plan : Plan α) (d1d q1d e c k : Nat) : Vec3 α :=
  Vec3.testX q1d plan.bt plan.gt (k % d1d) fun qx =>
    cellFlux plan d1d q1d e c (qx + q1d * (k / d1d))

/-- The flux tested along x and y. -/
def cellTestedXY (plan : Plan α) (d1d q1d e c k : Nat) : Vec3 α :=
  Vec3.testY q1d plan.bt plan.gt (k / d1d % d1d) fun qy =>
    cellTestedX plan d1d q1d e c (k % d1d + d1d * (qy + q1d * (k / (d1d * d1d))))

/-- What the action makes of entry `v` at node `i`. -/
def cellUpdate (plan : Plan α) (d1d q1d e c i : Nat) (v : α) : α :=
  leftSum v q1d fun qz =>
    let t := cellTestedXY plan d1d q1d e c (i % (d1d * d1d) + d1d * d1d * qz)
    let wz := plan.bt.entry [i / (d1d * d1d), qz]
    t.x * wz + t.y * wz + t.z * plan.gt.entry [i / (d1d * d1d), qz]

section

open View (columns)

variable {plan : Plan α} {d1d q1d ne e c : Nat} {line plane grad y : View α}

/-! ### The way to the points -/

/-- A line of nodes contributes to every point of a plane. -/
theorem gatherPlaneLine_ok (hs : TableShapes plan d1d q1d) {dy : Nat} (hdy : dy < d1d)
    {L : Nat → Jet1 α} {T : Nat → Nat → α}
    (hline : line.Holds [2, q1d] (columns 2 fun qx => (L qx).entry))
    (hplane : plane.Holds [3, q1d, q1d] (columns 3 T)) :
    ∃ w, gatherPlaneLine plan q1d dy line plane = .ok w ∧
      w.Holds [3, q1d, q1d] (columns 3 fun q i => T q i +
        tripleAt (L (q % q1d)).dx (L (q % q1d)).value (L (q % q1d)).value i *
          (tripleAt plan.b plan.g plan.b i).entry [q / q1d, dy]) := by
  refine hplane.addColumns_plane (fun qx qy i => tripleAt (L qx).dx (L qx).value (L qx).value i *
    (tripleAt plan.b plan.g plan.b i).entry [qy, dy]) fun v qy hqy => ?_
  rw [View.get_matrix hs.b hqy hdy, ok_bind, View.get_matrix hs.g hqy hdy, ok_bind]
  refine sweep_congr (fun v qx hqx => ?_) v
  rw [hline.get_line (by decide) hqx, ok_bind, hline.get_line (by decide) hqx]
  rfl

theorem cellLine_pair {qx dy : Nat} (hqx : qx < q1d) (hdy : dy < d1d) (dz : Nat) :
    cellLine plan d1d q1d e c (qx + q1d * (dy + d1d * dz)) =
      Jet1.of d1d plan.b plan.g qx fun dx => plan.x.entry [dx, dy, dz, c, e] := by
  obtain ⟨hx, hy, hz⟩ := triple_positions dz hqx hdy
  simp only [cellLine, hx, hy, hz]

theorem cellPlane_pair {q : Nat} (hq : q < q1d * q1d) (dz : Nat) :
    cellPlane plan d1d q1d e c (q + q1d * q1d * dz) =
      Jet2.of d1d plan.b plan.g (q / q1d) fun dy =>
        Jet1.of d1d plan.b plan.g (q % q1d) fun dx => plan.x.entry [dx, dy, dz, c, e] := by
  obtain ⟨hx, hy, hz⟩ := triple_positions dz (mod_lt_left hq) (div_lt_right hq)
  have hk : q + q1d * q1d * dz = q % q1d + q1d * (q / q1d + q1d * dz) := by
    rw [Nat.mul_add, ← Nat.add_assoc, Nat.mod_add_div, Nat.mul_assoc]
  simp only [cellPlane, hk, hx, hy, hz]
  exact Jet2.of_congr fun dy hdy => cellLine_pair (mod_lt_left hq) hdy dz

/-- A plane of nodes is taken to its points, whatever the scratch buffer held. -/
theorem gatherPlane_ok (hs : CellShapes plan d1d q1d ne) (hc : c < 3) (he : e < ne) (hq : 0 < q1d)
    {dz : Nat} (hdz : dz < d1d) {room : Array α} (hroom : 2 * q1d ≤ room.size)
    (hfits : room.size < Size.bufferBound) (hplane : plane.Exact [3, q1d, q1d]) :
    ∃ w room', gatherPlane plan d1d q1d e c dz plane room = .ok (w, room') ∧
      room'.size = room.size ∧ w.Holds [3, q1d, q1d]
        (columns 3 fun q => (cellPlane plan d1d q1d e c (q + q1d * q1d * dz)).entry) := by
  have hlen : 2 * q1d < Size.bufferBound := Nat.lt_of_le_of_lt hroom hfits
  have hpos : ∀ k ∈ [2, q1d], 0 < k := by simp [hq]
  -- What the line `dy` of the plane is at the points.
  let L (dy qx : Nat) : Jet1 α :=
    Jet1.of d1d plan.b plan.g qx fun dx => plan.x.entry [dx, dy, dz, c, e]
  suffices h : ∃ w room', gatherPlane plan d1d q1d e c dz plane room = .ok (w, room') ∧
      room'.size = room.size ∧ w.Holds [3, q1d, q1d] (columns 3 fun q =>
        (Jet2.of d1d plan.b plan.g (q / q1d) fun dy => L dy (q % q1d)).entry) by
    obtain ⟨w, room', hrun, hsize, hw⟩ := h
    refine ⟨w, room', hrun, hsize, hw.congr_columns fun q hq' => ?_⟩
    simp only [volume, Nat.mul_one] at hq'
    rw [cellPlane_pair hq']
  simp only [Jet2.entry_of]
  refine sweep_contract (fun r : Array α => r.size = room.size)
    (tripleAt plan.b plan.g plan.b) (· / q1d) (fun dy q =>
      tripleAt (L dy (q % q1d)).dx (L dy (q % q1d)).value (L dy (q % q1d)).value) hplane rfl
    fun dy w r T hdy hw hr => ?_
  obtain ⟨line, rest, hwindow, hline, hjoin⟩ :=
    View.window_ok hpos (by simp [volume]) (hr ▸ hroom) hlen
  obtain ⟨line', hgather, hline'⟩ := gatherLine_ok hs.toTableShapes
    (fun dx hdx => View.get_five hs.x hdx hdy hdz hc he) hline
  obtain ⟨w', hadd, hw'⟩ := gatherPlaneLine_ok hs.toTableShapes hdy hline' hw
  refine ⟨w', line'.data ++ rest, ?_, (hjoin _ hline'.exact).trans hr, hw'⟩
  simp only [Size.mul_ok hlen, hwindow, hgather, hadd, ok_bind, pure_eq_ok]

/-- A plane of nodes contributes to the gradient at every point. -/
theorem gatherCell_ok (hs : TableShapes plan d1d q1d) {dz : Nat} (hdz : dz < d1d)
    {J : Nat → Jet2 α} {T : Nat → Nat → α}
    (hplane : plane.Holds [3, q1d, q1d] (columns 3 fun q => (J q).entry))
    (hgrad : grad.Holds [3, q1d, q1d, q1d] (columns 3 T)) :
    ∃ w, gatherCell plan q1d dz plane grad = .ok w ∧
      w.Holds [3, q1d, q1d, q1d] (columns 3 fun q i => T q i + (J (q % (q1d * q1d))).entry i *
        (tripleAt plan.b plan.b plan.g i).entry [q / (q1d * q1d), dz]) := by
  simp only [Nat.mod_mul]
  refine hgrad.addColumns_box (fun qx qy qz i => (J (qx + q1d * qy)).entry i *
    (tripleAt plan.b plan.b plan.g i).entry [qz, dz]) fun v qz hqz => ?_
  rw [View.get_matrix hs.b hqz hdz, ok_bind, View.get_matrix hs.g hqz hdz, ok_bind]
  refine sweep_congr (fun v qy hqy => sweep_congr (fun v qx hqx => ?_) v) v
  rw [hplane.get_plane (by decide) hqx hqy, ok_bind, hplane.get_plane (by decide) hqx hqy, ok_bind,
    hplane.get_plane (by decide) hqx hqy]
  rfl

/-- The gradient at the points, whatever the scratch buffer held. -/
theorem cellGradients_ok (hs : CellShapes plan d1d q1d ne) (hc : c < 3) (he : e < ne)
    (hq : 0 < q1d) {planes lines : Array α} (hplanes : 3 * q1d * q1d ≤ planes.size)
    (hplanesFit : planes.size < Size.bufferBound) (hlines : 2 * q1d ≤ lines.size)
    (hlinesFit : lines.size < Size.bufferBound) (hgrad : grad.Exact [3, q1d, q1d, q1d]) :
    ∃ w planes' lines', cellGradients plan d1d q1d e c grad planes lines =
        .ok (w, planes', lines') ∧
      (planes'.size = planes.size ∧ lines'.size = lines.size) ∧
      w.Holds [3, q1d, q1d, q1d] (columns 3 fun q =>
        (Vec3.gradient d1d plan.b plan.g (q / (q1d * q1d)) fun dz =>
          cellPlane plan d1d q1d e c (q % (q1d * q1d) + q1d * q1d * dz)).entry) := by
  have hlen : 3 * q1d * q1d < Size.bufferBound := Nat.lt_of_le_of_lt hplanes hplanesFit
  have hproduct := Size.product_three (by decide) hq hq hlen
  have hpos : ∀ k ∈ [3, q1d, q1d], 0 < k := by simp [hq]
  have hvolume : volume [3, q1d, q1d] = 3 * q1d * q1d := by simp [volume, Nat.mul_assoc]
  simp only [Vec3.entry_gradient]
  suffices h : ∃ w rooms, cellGradients plan d1d q1d e c grad planes lines = .ok (w, rooms) ∧
      (rooms.1.size = planes.size ∧ rooms.2.size = lines.size) ∧
      w.Holds [3, q1d, q1d, q1d] (columns 3 fun q i =>
        dot d1d (tripleAt plan.b plan.b plan.g i) (q / (q1d * q1d)) fun dz =>
          (cellPlane plan d1d q1d e c (q % (q1d * q1d) + q1d * q1d * dz)).entry i) by
    obtain ⟨w, ⟨planes', lines'⟩, hrun, hsize, hw⟩ := h
    exact ⟨w, planes', lines', hrun, hsize, hw⟩
  refine sweep_contract
    (fun r : Array α × Array α => r.1.size = planes.size ∧ r.2.size = lines.size)
    (tripleAt plan.b plan.b plan.g) (· / (q1d * q1d))
    (fun dz q => (cellPlane plan d1d q1d e c (q % (q1d * q1d) + q1d * q1d * dz)).entry) hgrad
    ⟨rfl, rfl⟩ ?_
  rintro dz w ⟨ps, ls⟩ T hdz hw ⟨hps, hls⟩
  simp only at hps hls
  obtain ⟨plane, rest, hwindow, hplane, hjoin⟩ :=
    View.window_ok hpos hvolume (hps ▸ hplanes) hlen
  obtain ⟨plane', ls', hgather, hls', hplane'⟩ :=
    gatherPlane_ok hs hc he hq hdz (hls ▸ hlines) (hls ▸ hlinesFit) hplane
  obtain ⟨w', hadd, hw'⟩ := gatherCell_ok hs.toTableShapes hdz hplane' hw
  refine ⟨w', (plane'.data ++ rest, ls'), ?_,
    ⟨(hjoin _ hplane'.exact).trans hps, hls'.trans hls⟩, hw'⟩
  simp only [hproduct, hwindow, hgather, hadd, ok_bind, pure_eq_ok]

/-! ### Fluxes -/

/-- Every point has its flux. -/
theorem cellFluxes_ok (hs : CellShapes plan d1d q1d ne) (he : e < ne) {G : Nat → Vec3 α}
    (hgrad : grad.Holds [3, q1d, q1d, q1d] (columns 3 fun q => (G q).entry)) :
    ∃ w, cellFluxes plan q1d e grad = .ok w ∧ w.Holds [3, q1d, q1d, q1d] (columns 3 fun q =>
      ((Form3.of plan.op q e).apply (G q)).entry) := by
  refine hgrad.mapColumns_box _ fun w qx hqx qy hqy qz hqz hget => ?_
  have hpoint : qx + q1d * (qy + q1d * qz) < q1d * q1d * q1d := by
    rw [Nat.mul_assoc]
    exact pair_lt hqx (pair_lt hqy hqz)
  rw [Nat.mul_comm qz, Nat.mul_comm (qy + _), Form3.read_eq hs.op hpoint he, ok_bind,
    hget 0 (by decide), ok_bind, hget 1 (by decide), ok_bind, hget 2 (by decide), ok_bind]
  rfl

/-! ### The way back to the nodes -/

/-- The flux on a line of points is tested along x, whatever the room for the line held. -/
theorem testCellLine_ok (hs : TableShapes plan d1d q1d) {qy qz : Nat} (hqy : qy < q1d)
    (hqz : qz < q1d) {F : Nat → Vec3 α}
    (hgrad : grad.Holds [3, q1d, q1d, q1d] (columns 3 fun q => (F q).entry))
    (hline : line.Exact [3, d1d]) :
    ∃ w, testCellLine plan d1d q1d qy qz grad line = .ok w ∧
      w.Holds [3, d1d] (columns 3 fun dx => (Vec3.testX q1d plan.bt plan.gt dx fun qx =>
        F (qx + q1d * (qy + q1d * qz))).entry) := by
  simp only [Vec3.entry_testX]
  refine sweep_contract_view (tripleAt plan.gt plan.bt plan.bt) id
    (fun qx _ => (F (qx + q1d * (qy + q1d * qz))).entry) hline fun qx w T hqx hw => ?_
  rw [hgrad.get_box (by decide) hqx hqy hqz, ok_bind, hgrad.get_box (by decide) hqx hqy hqz,
    ok_bind, hgrad.get_box (by decide) hqx hqy hqz, ok_bind]
  refine hw.addColumns_line (fun dx i => (F (qx + q1d * (qy + q1d * qz))).entry i *
    (tripleAt plan.gt plan.bt plan.bt i).entry [dx, qx]) fun v dx hdx => ?_
  rw [View.get_matrix hs.bt hdx hqx, ok_bind, View.get_matrix hs.gt hdx hqx]
  rfl

/-- A line of points contributes to every entry of a plane of nodes. -/
theorem testCellPlaneLine_ok (hs : TableShapes plan d1d q1d) {qy : Nat} (hqy : qy < q1d)
    {L : Nat → Vec3 α} {T : Nat → Nat → α}
    (hline : line.Holds [3, d1d] (columns 3 fun dx => (L dx).entry))
    (hplane : plane.Holds [3, d1d, d1d] (columns 3 T)) :
    ∃ w, testCellPlaneLine plan d1d qy line plane = .ok w ∧
      w.Holds [3, d1d, d1d] (columns 3 fun k i => T k i + (L (k % d1d)).entry i *
        (tripleAt plan.bt plan.gt plan.bt i).entry [k / d1d, qy]) := by
  refine hplane.addColumns_plane (fun dx dy i => (L dx).entry i *
    (tripleAt plan.bt plan.gt plan.bt i).entry [dy, qy]) fun v dy hdy => ?_
  rw [View.get_matrix hs.bt hdy hqy, ok_bind, View.get_matrix hs.gt hdy hqy, ok_bind]
  refine sweep_congr (fun v dx hdx => ?_) v
  rw [hline.get_line (by decide) hdx, ok_bind, hline.get_line (by decide) hdx, ok_bind,
    hline.get_line (by decide) hdx]
  rfl

theorem cellTestedX_pair {dx : Nat} (hdx : dx < d1d) (qy qz : Nat) :
    cellTestedX plan d1d q1d e c (dx + d1d * (qy + q1d * qz)) =
      Vec3.testX q1d plan.bt plan.gt dx fun qx =>
        cellFlux plan d1d q1d e c (qx + q1d * (qy + q1d * qz)) := by
  simp only [cellTestedX, pair_mod _ hdx, pair_div _ hdx]

theorem cellTestedXY_pair {k : Nat} (hk : k < d1d * d1d) (qz : Nat) :
    cellTestedXY plan d1d q1d e c (k + d1d * d1d * qz) =
      Vec3.testY q1d plan.bt plan.gt (k / d1d) fun qy =>
        cellTestedX plan d1d q1d e c (k % d1d + d1d * (qy + q1d * qz)) := by
  obtain ⟨hx, hy, hz⟩ := triple_positions qz (mod_lt_left hk) (div_lt_right hk)
  have hpoint : k + d1d * d1d * qz = k % d1d + d1d * (k / d1d + d1d * qz) := by
    rw [Nat.mul_add, ← Nat.add_assoc, Nat.mod_add_div, Nat.mul_assoc]
  simp only [cellTestedXY, hpoint, hx, hy, hz]

/-- The flux on a plane of points is tested along x and y, whatever the scratch buffer held. -/
theorem testCellPlane_ok (hs : TableShapes plan d1d q1d) (hd : 0 < d1d) {qz : Nat}
    (hqz : qz < q1d) {room : Array α} (hroom : 3 * d1d ≤ room.size)
    (hfits : room.size < Size.bufferBound)
    (hgrad : grad.Holds [3, q1d, q1d, q1d] (columns 3 fun q =>
      (cellFlux plan d1d q1d e c q).entry))
    (hplane : plane.Exact [3, d1d, d1d]) :
    ∃ w room', testCellPlane plan d1d q1d qz grad plane room = .ok (w, room') ∧
      room'.size = room.size ∧ w.Holds [3, d1d, d1d]
        (columns 3 fun k => (cellTestedXY plan d1d q1d e c (k + d1d * d1d * qz)).entry) := by
  have hlen : 3 * d1d < Size.bufferBound := Nat.lt_of_le_of_lt hroom hfits
  have hpos : ∀ k ∈ [3, d1d], 0 < k := by simp [hd]
  -- What is left at the nodes of the line `qy` of the plane.
  let L (qy dx : Nat) : Vec3 α := Vec3.testX q1d plan.bt plan.gt dx fun qx =>
    cellFlux plan d1d q1d e c (qx + q1d * (qy + q1d * qz))
  suffices h : ∃ w room', testCellPlane plan d1d q1d qz grad plane room = .ok (w, room') ∧
      room'.size = room.size ∧ w.Holds [3, d1d, d1d] (columns 3 fun k =>
        (Vec3.testY q1d plan.bt plan.gt (k / d1d) fun qy => L qy (k % d1d)).entry) by
    obtain ⟨w, room', hrun, hsize, hw⟩ := h
    refine ⟨w, room', hrun, hsize, hw.congr_columns fun k hk => ?_⟩
    simp only [volume, Nat.mul_one] at hk
    simp only [cellTestedXY_pair hk, cellTestedX_pair (mod_lt_left hk), L]
  simp only [Vec3.entry_testY]
  refine sweep_contract (fun r : Array α => r.size = room.size)
    (tripleAt plan.bt plan.gt plan.bt) (· / d1d) (fun qy k => (L qy (k % d1d)).entry) hplane rfl
    fun qy w r T hqy hw hr => ?_
  obtain ⟨line, rest, hwindow, hline, hjoin⟩ :=
    View.window_ok hpos (by simp [volume]) (hr ▸ hroom) hlen
  obtain ⟨line', htest, hline'⟩ := testCellLine_ok hs hqy hqz hgrad hline
  obtain ⟨w', hadd, hw'⟩ := testCellPlaneLine_ok hs hqy hline' hw
  refine ⟨w', line'.data ++ rest, ?_, (hjoin _ hline'.exact).trans hr, hw'⟩
  simp only [Size.mul_ok hlen, hwindow, htest, hadd, ok_bind, pure_eq_ok]

/-- A plane of points contributes to every entry of a component. -/
theorem testCell_ok (hs : TableShapes plan d1d q1d) {qz : Nat} (hqz : qz < q1d) (hc : c < 3)
    {J : Nat → Vec3 α} (hplane : plane.Holds [3, d1d, d1d] (columns 3 fun k => (J k).entry))
    {f : Nat → α} (hy : y.Holds [d1d, d1d, d1d, 3] f) :
    ∃ w, testCell plan d1d qz c plane y = .ok w ∧ w.Holds [d1d, d1d, d1d, 3] fun p =>
      if p / (d1d * d1d * d1d) = c then
        let i := p % (d1d * d1d * d1d)
        let wz := plan.bt.entry [i / (d1d * d1d), qz]
        f p + ((J (i % (d1d * d1d))).x * wz + (J (i % (d1d * d1d))).y * wz +
          (J (i % (d1d * d1d))).z * plan.gt.entry [i / (d1d * d1d), qz])
      else f p := by
  simp only [Nat.mod_mul (x := _ % (d1d * d1d * d1d))]
  refine hy.adds_box hc (fun dx dy dz => (J (dx + d1d * dy)).x * plan.bt.entry [dz, qz] +
    (J (dx + d1d * dy)).y * plan.bt.entry [dz, qz] + (J (dx + d1d * dy)).z * plan.gt.entry [dz, qz])
    fun v dz hdz => ?_
  rw [View.get_matrix hs.bt hdz hqz, ok_bind, View.get_matrix hs.gt hdz hqz, ok_bind]
  refine sweep_congr (fun v dy hdy => sweep_congr (fun v dx hdx => ?_) v) v
  rw [hplane.get_plane (by decide) hdx hdy, ok_bind, hplane.get_plane (by decide) hdx hdy, ok_bind,
    hplane.get_plane (by decide) hdx hdy]
  rfl

/-- The tested flux is added to every entry of a component, whatever the scratch buffer held. -/
theorem cellResults_ok (hs : TableShapes plan d1d q1d) (hc : c < 3) (hd : 0 < d1d)
    {planes lines : Array α} (hplanes : 3 * d1d * d1d ≤ planes.size)
    (hplanesFit : planes.size < Size.bufferBound) (hlines : 3 * d1d ≤ lines.size)
    (hlinesFit : lines.size < Size.bufferBound)
    (hgrad : grad.Holds [3, q1d, q1d, q1d] (columns 3 fun q =>
      (cellFlux plan d1d q1d e c q).entry))
    {f : Nat → α} (hy : y.Holds [d1d, d1d, d1d, 3] f) :
    ∃ planes' lines' w, cellResults plan d1d q1d c grad planes lines y =
        .ok (planes', lines', w) ∧
      (planes'.size = planes.size ∧ lines'.size = lines.size) ∧
      w.Holds [d1d, d1d, d1d, 3] fun p =>
        if p / (d1d * d1d * d1d) = c then
          cellUpdate plan d1d q1d e c (p % (d1d * d1d * d1d)) (f p)
        else f p := by
  have hlen : 3 * d1d * d1d < Size.bufferBound := Nat.lt_of_le_of_lt hplanes hplanesFit
  have hproduct := Size.product_three (by decide) hd hd hlen
  have hpos : ∀ k ∈ [3, d1d, d1d], 0 < k := by simp [hd]
  have hvolume : volume [3, d1d, d1d] = 3 * d1d * d1d := by simp [volume, Nat.mul_assoc]
  let t (p qz : Nat) : α :=
    let i := p % (d1d * d1d * d1d)
    let t := cellTestedXY plan d1d q1d e c (i % (d1d * d1d) + d1d * d1d * qz)
    let wz := plan.bt.entry [i / (d1d * d1d), qz]
    t.x * wz + t.y * wz + t.z * plan.gt.entry [i / (d1d * d1d), qz]
  -- After `k` planes of points the first `k` terms are added.
  let P (k : Nat) (s : Array α × Array α × View α) : Prop :=
    (s.1.size = planes.size ∧ s.2.1.size = lines.size) ∧ s.2.2.Holds [d1d, d1d, d1d, 3] fun p =>
      if p / (d1d * d1d * d1d) = c then leftSum (f p) k (t p) else f p
  have hstart : P 0 (planes, lines, y) := ⟨⟨rfl, rfl⟩, hy.congr fun p _ => (ite_self _).symm⟩
  suffices h : ∃ s, cellResults plan d1d q1d c grad planes lines y = .ok s ∧ P q1d s by
    obtain ⟨⟨planes', lines', w⟩, hrun, hsize, hw⟩ := h
    exact ⟨planes', lines', w, hrun, hsize, hw⟩
  refine sweep_induction P hstart ?_
  rintro qz ⟨ps, ls, w⟩ hqz ⟨⟨hps, hls⟩, hw⟩
  simp only at hps hls
  obtain ⟨plane, rest, hwindow, hplane, hjoin⟩ :=
    View.window_ok hpos hvolume (hps ▸ hplanes) hlen
  obtain ⟨plane', ls', htest, hls', hplane'⟩ :=
    testCellPlane_ok hs hd hqz (hls ▸ hlines) (hls ▸ hlinesFit) hgrad hplane
  obtain ⟨w', hadd, hw'⟩ := testCell_ok hs hqz hc hplane' hw
  refine ⟨(plane'.data ++ rest, ls', w'), ?_,
    ⟨(hjoin _ hplane'.exact).trans hps, hls'.trans hls⟩, hw'.congr fun p hp => ?_⟩
  · simp only [hproduct, hwindow, htest, hadd, ok_bind, pure_eq_ok]
  · by_cases hpart : p / (d1d * d1d * d1d) = c
    · simp only [hpart, if_true, leftSum, t]
    · simp only [hpart, if_false]

/-! ### Cells -/

/-- The parts of the scratch buffer and the chunk have the lengths that a cell works on. -/
structure CellState.Fits (s : CellState α) (d1d q1d : Nat) : Prop where
  grad : s.grad.Exact [3, q1d, q1d, q1d]
  plane : s.plane.size = 3 * max d1d q1d * max d1d q1d
  line : s.line.size = 3 * max d1d q1d
  y : s.y.Exact [d1d, d1d, d1d, 3]

/-- **One component of a cell**, whatever the scratch buffer held. -/
theorem cellComponent_ok (hs : CellShapes plan d1d q1d ne) (hc : c < 3) (he : e < ne)
    (hd : 0 < d1d) (hq : 0 < q1d)
    (hplaneFits : 3 * max d1d q1d * max d1d q1d < Size.bufferBound)
    (hlineFits : 3 * max d1d q1d < Size.bufferBound) {s : CellState α} (h : s.Fits d1d q1d) :
    ∃ s', cellComponent plan d1d q1d e c s = .ok s' ∧ CellState.Fits s' d1d q1d ∧
      s'.y.data = s.y.data.mapIdx fun i v => if i / (d1d * d1d * d1d) = c then
        cellUpdate plan d1d q1d e c (i % (d1d * d1d * d1d)) v else v := by
  obtain ⟨grad, plane, line, y⟩ := s
  obtain ⟨hgrad, hplane, hline, hy⟩ := h
  simp only at hgrad hplane hline hy
  -- Planes and lines of points and of nodes all find room.
  have hside : ∀ n ≤ max d1d q1d, 3 * n * n ≤ plane.size := fun n hn => by
    rw [hplane]
    exact Nat.mul_le_mul (Nat.mul_le_mul_left 3 hn) hn
  have hpointLine : 2 * q1d ≤ line.size := by omega
  obtain ⟨grad₁, plane₁, line₁, hgradients, ⟨hplane₁, hline₁⟩, hgrad₁⟩ :=
    cellGradients_ok hs hc he hq (hside q1d (Nat.le_max_right _ _)) (hplane ▸ hplaneFits)
      hpointLine (hline ▸ hlineFits) hgrad
  obtain ⟨grad₂, hfluxes, hgrad₂⟩ := cellFluxes_ok hs he hgrad₁
  have hnodeLine : 3 * d1d ≤ line₁.size := by omega
  obtain ⟨plane₂, line₂, y₂, hresults, ⟨hplane₂, hline₂⟩, hy₂⟩ :=
    cellResults_ok hs.toTableShapes hc hd (hplane₁ ▸ hside d1d (Nat.le_max_left _ _))
      (by omega) hnodeLine (by omega) hgrad₂ hy.holds
  refine ⟨⟨grad₂, plane₂, line₂, y₂⟩, ?_, ⟨hgrad₂.exact, by rw [hplane₂, hplane₁, hplane],
    by rw [hline₂, hline₁, hline], hy₂.exact⟩, View.Holds.data_mapIdx hy (fun i v =>
      if i / (d1d * d1d * d1d) = c then
        cellUpdate plan d1d q1d e c (i % (d1d * d1d * d1d)) v else v) hy₂⟩
  simp only [cellComponent, hgradients, hfluxes, hresults, ok_bind, pure_eq_ok]

end

/-! ### The element loop -/

/-- A cell replaces every entry of its chunk by the update of its node and component. -/
theorem cell_actsBy {plan : Plan α} {fixed : FixedSizes} {ne : Nat} {tables : Tables α}
    {op x : Array α} {yLen : Nat} (hp : CellPlanned plan fixed ne tables op x yLen)
    (hroom : plan.room < Size.bufferBound) :
    ActsBy plan.chunk ne (fun scratch : Array α => scratch.size = plan.room) (cell fixed plan)
      fun e i => cellUpdate plan plan.d1d plan.q1d e (i / (plan.d1d * plan.d1d * plan.d1d))
        (i % (plan.d1d * plan.d1d * plan.d1d)) := by
  intro scratch e chunk hscratch he hsize
  have hd := hp.d1d_pos
  have hq := hp.q1d_pos
  have hm : 0 < max plan.d1d plan.q1d := by omega
  have hnodes : ∀ k ∈ [plan.d1d, plan.d1d, plan.d1d, 3], 0 < k := by simp [hd]
  have hpoints : ∀ k ∈ [3, plan.q1d, plan.q1d, plan.q1d], 0 < k := by simp [hq]
  have hvolume : volume [plan.d1d, plan.d1d, plan.d1d, 3] = plan.chunk := by
    simp [volume, hp.chunk, Nat.mul_comm 3, Nat.mul_assoc]
  have hgradLen : volume [3, plan.q1d, plan.q1d, plan.q1d] =
      3 * plan.q1d * plan.q1d * plan.q1d := by simp [volume, Nat.mul_assoc]
  have hcutLen : plan.room = 3 * plan.q1d * plan.q1d * plan.q1d +
      (3 * max plan.d1d plan.q1d * max plan.d1d plan.q1d + 3 * max plan.d1d plan.q1d) := by
    rw [hp.room]
    simp only [Nat.mul_assoc, Nat.add_assoc]
  rw [hcutLen] at hroom
  have hpointsLen := Size.product_of_pos hpoints (hgradLen ▸ by omega)
  rw [hgradLen] at hpointsLen
  have hplaneLen := Size.product_three (by decide : 0 < 3) hm hm (by omega)
  have hlineLen := Size.mul_ok (a := 3) (b := max plan.d1d plan.q1d) (by omega)
  -- The chunk and the scratch buffer are taken apart,
  obtain ⟨y, hyView, hy, rfl⟩ :=
    View.ofBuffer_exact hnodes (hsize.trans hvolume.symm) (hvolume ▸ hp.chunk_lt)
  obtain ⟨first, rest, hcut, hfirst, hrest⟩ := cut_ok (hscratch.trans hcutLen)
  obtain ⟨plane, line, hcut', hplane, hline⟩ := cut_ok hrest
  obtain ⟨grad, hgradView, hgrad, -⟩ :=
    View.ofBuffer_exact hpoints (hfirst.trans hgradLen.symm) (by omega)
  have hslice : slice line 0 (3 * max plan.d1d plan.q1d) = .ok line := by
    rw [slice_eq (Nat.zero_le _) (Nat.le_of_eq hline.symm), ← hline, Array.extract_size]
  -- every component is worked on,
  have hparts : y.data.size = 3 * (plan.d1d * plan.d1d * plan.d1d) := hsize.trans hp.chunk
  have hplaneFits : 3 * max plan.d1d plan.q1d * max plan.d1d plan.q1d < Size.bufferBound := by
    omega
  have hlineFits : 3 * max plan.d1d plan.q1d < Size.bufferBound := by omega
  obtain ⟨s, hrun, hs, hsData⟩ := sweep_parts (fun s : CellState α => s.y.data)
    ⟨grad, plane, line, y⟩ ⟨hgrad, hplane, hline, hy⟩ hparts
    fun c s hc hs => cellComponent_ok hp.shapes hc he hd hq hplaneFits hlineFits hs
  -- and they are put together again.
  refine ⟨s.grad.data ++ s.plane ++ s.line ++ line.extract (3 * max plan.d1d plan.q1d) line.size,
    ?_, ?_⟩
  · show Array.size _ = plan.room
    simp only [Array.size_append, Array.size_extract, hs.grad.size_eq, hs.plane, hs.line, hgradLen,
      hcutLen, hline]
    omega
  · simp only [cell, FixedSizes.pick_eq hp.fixedD1d, FixedSizes.pick_eq hp.fixedQ1d, hyView,
      hpointsLen, hcut, hplaneLen, hcut', hlineLen, hslice, hgradView, hrun, ok_bind, pure_eq_ok,
      hsData]

variable [Stored α]

/-- **The action on cells**, whatever the settings: every entry is updated once. -/
theorem onCells_eq {fixed : FixedSizes} {config : Execution} {ne : Nat} {tables : Tables α}
    {op x : Array α} {y : Array α} {plan : Plan α}
    (hplan : cellPlan fixed config.limits ne tables op x y.size = .ok plan)
    (hroom : Stored.bytes α * plan.room < Size.bufferBound) :
    (onCells fixed config ne tables op x).run y = .ok () (y.mapIdx fun k =>
      cellUpdate plan plan.d1d plan.q1d (k / plan.chunk)
        (k % plan.chunk / (plan.d1d * plan.d1d * plan.d1d))
        (k % plan.chunk % (plan.d1d * plan.d1d * plan.d1d))) := by
  have hp := cellPlanned hplan
  rw [onCells, run_bind_ok (run_get y), run_bind_ok (run_ofExcept hplan y)]
  exact forElements_eq (cell_actsBy hp (lt_of_bytes hroom)) hp.chunk_pos
    (Size.reserve_eq_ok.2 hroom) Array.size_replicate hp.yLen

end Action

end TensorDiffusion
