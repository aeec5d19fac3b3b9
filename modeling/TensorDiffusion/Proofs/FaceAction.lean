import TensorDiffusion.Proofs.Contraction
import TensorDiffusion.Proofs.Elements
import TensorDiffusion.Proofs.Kernels

/-!
# The action on faces, in closed form

An action on faces whose sizes are accepted adds to every entry of the output a value that depends
on that entry's node, component and element only (`faceUpdate`).  No law of arithmetic is used, so
this holds of rounded scalars, of every workspace and of every schedule.
-/

namespace TensorDiffusion

namespace Action

variable {α : Type}

/-- The tables of a plan have the shapes they are read with. -/
structure TableShapes (plan : Plan α) (d1d q1d : Nat) : Prop where
  b : plan.b.shape = [q1d, d1d]
  g : plan.g.shape = [q1d, d1d]
  bt : plan.bt.shape = [d1d, q1d]
  gt : plan.gt.shape = [d1d, q1d]

/-- A plan reads its tables and their sizes from `tables`. -/
structure HoldsTables (plan : Plan α) (tables : Tables α) : Prop where
  d1d : plan.d1d = tables.ndof
  q1d : plan.q1d = tables.nqpt
  b : plan.b.data = tables.b
  g : plan.g.data = tables.g
  bt : plan.bt.data = tables.bt
  gt : plan.gt.data = tables.gt

/-- The views of a plan for faces have the shapes they are read with. -/
structure FaceShapes (plan : Plan α) (d1d q1d vdim ne : Nat) : Prop
    extends TableShapes plan d1d q1d where
  op : plan.op.shape = [q1d * q1d, 3, ne]
  x : plan.x.shape = [d1d, d1d, vdim, ne]

/-- What the checks of an action on faces establish. -/
structure FacePlanned (plan : Plan α) (fixed : FixedSizes) (ne : Nat) (tables : Tables α)
    (op x : Array α) (yLen vdim : Nat) : Prop extends HoldsTables plan tables where
  shapes : FaceShapes plan plan.d1d plan.q1d plan.vdim ne
  vdim : plan.vdim = vdim
  d1d_pos : 0 < plan.d1d
  q1d_pos : 0 < plan.q1d
  vdim_pos : 0 < plan.vdim
  fixedD1d : fixed.d1d = 0 ∨ fixed.d1d = plan.d1d
  fixedQ1d : fixed.q1d = 0 ∨ fixed.q1d = plan.q1d
  fixedVdim : fixed.vdim = 0 ∨ fixed.vdim = plan.vdim
  chunk : plan.chunk = plan.vdim * (plan.d1d * plan.d1d)
  chunk_lt : plan.chunk < Size.bufferBound
  room : plan.room = 2 * (plan.q1d * plan.q1d) + 2 * max plan.d1d plan.q1d
  yLen : yLen = ne * plan.chunk
  op : plan.op.data = op
  x : plan.x.data = x

theorem facePlanned {fixed : FixedSizes} {limits : Limits} {ne : Nat} {tables : Tables α}
    {op x : Array α} {yLen vdim : Nat} {plan : Plan α}
    (h : facePlan fixed limits ne tables op x yLen vdim = .ok plan) :
    FacePlanned plan fixed ne tables op x yLen vdim := by
  simp only [facePlan, bind_eq_ok, pure_eq_ok, FixedSizes.check_eq, checkBuffer_eq, require_eq,
    Limits.check_eq, Size.mul_eq_ok, Size.add_eq_ok, View.ofBuffer_eq_ok, Except.ok.injEq,
    exists_const] at h
  obtain ⟨hd, hq, hv, -, ⟨hd₀, hq₀, hv₀⟩, nd, ⟨-, rfl⟩, nq, ⟨-, rfl⟩, -, -, -, -, -, -, n, hn, hy,
    b, ⟨-, hb, hbs⟩, g, ⟨-, hg, hgs⟩, bt, ⟨-, hbt, hbts⟩, gt, ⟨-, hgt, hgts⟩, op', ⟨-, ho, hos⟩,
    x', ⟨hxFits, hx, hxs⟩, r, hr, m, ⟨-, rfl⟩, room, ⟨-, hroom⟩, chunk, ⟨-, hchunk⟩, rfl⟩ := h
  have hr := Size.product_eq hr
  have hn := Size.product_eq hn
  simp only [volume, Nat.mul_one] at hr hn
  exact {
    shapes := ⟨⟨hbs, hgs, hbts, hgts⟩, hos, hxs⟩
    d1d := rfl, q1d := rfl, vdim := rfl, d1d_pos := hd₀, q1d_pos := hq₀, vdim_pos := hv₀
    fixedD1d := hd, fixedQ1d := hq, fixedVdim := hv
    chunk := by rw [← hchunk, Nat.mul_comm]
    chunk_lt := by
      refine Nat.lt_of_le_of_lt ?_ hxFits
      have hle := volume_take_le_nonemptyVolume [tables.ndof, tables.ndof, vdim, ne] 3
      rwa [show volume ([tables.ndof, tables.ndof, vdim, ne].take 3) = chunk by
        rw [← hchunk]; simp [volume, Nat.mul_assoc]] at hle
    room := by rw [← hroom, hr]
    yLen := by
      show yLen = ne * chunk
      rw [hy, hn, ← hchunk, Nat.mul_comm ne, Nat.mul_assoc (tables.ndof * tables.ndof)]
    b := hb, g := hg, bt := hbt, gt := hgt, op := ho, x := hx }

theorem FacePlanned.chunk_pos {plan : Plan α} {fixed : FixedSizes} {ne : Nat} {tables : Tables α}
    {op x : Array α} {yLen vdim : Nat} (hp : FacePlanned plan fixed ne tables op x yLen vdim) :
    0 < plan.chunk := by
  rw [hp.chunk]
  exact Nat.mul_pos hp.vdim_pos (Nat.mul_pos hp.d1d_pos hp.d1d_pos)

/-- The workspace of a face has room where its operator data and its vector have. -/
theorem faceRoom_lt {w d q : Nat} (hw : w ≤ 64) (hop : w * (q * q * 3) < Size.bufferBound)
    (hd : d * d < Size.bufferBound) (hq : q * q < Size.bufferBound) :
    w * (2 * (q * q) + 2 * max d q) < Size.bufferBound := by
  have hbound : Size.bufferBound = 9223372036854775808 := rfl
  -- A side is below `2 ^ 32`, since its square is below `2 ^ 63`; lines hardly count beside points.
  have hm : max d q < 4294967296 := by
    have hd' : d < 4294967296 := Nat.mul_self_lt_mul_self_iff.1 (Nat.lt_trans hd (by decide))
    have hq' : q < 4294967296 := Nat.mul_self_lt_mul_self_iff.1 (Nat.lt_trans hq (by decide))
    omega
  have hside : w * (2 * max d q) ≤ 64 * (2 * 4294967296) := Nat.mul_le_mul hw (by omega)
  have hpoints : w * (q * q * 3) = 3 * (w * (q * q)) := by
    rw [Nat.mul_comm (q * q), Nat.mul_left_comm]
  rw [Nat.mul_add, Nat.mul_left_comm w 2]
  omega

/-- **The sizes of an action on faces are accepted**, and its workspace has room. -/
theorem facePlan_ok [Stored α] {fixed : FixedSizes} {limits : Limits} {ne : Nat}
    {tables : Tables α} {op x : Array α} {yLen vdim : Nat} (hs : tables.Sized)
    (hf : fixed.Agrees tables.ndof tables.nqpt vdim)
    (h : KernelSizes α 2 vdim tables.ndof tables.nqpt ne limits op.size yLen)
    (hx : x.size = yLen) :
    ∃ plan, facePlan fixed limits ne tables op x yLen vdim = .ok plan ∧
      Stored.bytes α * plan.room < Size.bufferBound := by
  have hd := h.d1d_pos
  have hq := h.q1d_pos
  have hnd := h.nodes_lt
  have hnq := h.points_lt (Nat.le_refl 2)
  have hchunk := h.chunk_lt
  have hopLen := h.opLen_ok (Nat.le_refl 2)
  have hlen := h.len_ok
  have hopFits := h.opFits.one
  obtain ⟨b, g, bt, gt, hb, hg, hbt, hgt⟩ := hs.views hd hq (h.table_lt (Nat.le_refl 2))
  obtain ⟨o, ho⟩ := h.op_view (Nat.le_refl 2)
  obtain ⟨u, hu⟩ : ∃ u, View.ofBuffer x [tables.ndof, tables.ndof, vdim, ne] = .ok u :=
    (hx ▸ h).vector_view
  rw [Nat.pow_two] at hnd hnq hchunk hopLen hlen hopFits ho
  rw [show symmetricEntries 2 = 3 from rfl] at hopLen hopFits ho
  have hroom := faceRoom_lt Stored.bytes_le hopFits hnd hnq
  have hroomLen := lt_of_bytes hroom
  have hpoints : 2 * tables.nqpt * tables.nqpt < Size.bufferBound := by
    rw [Nat.mul_assoc]
    omega
  refine ⟨⟨tables.ndof, tables.nqpt, vdim, tables.ndof * tables.ndof * vdim,
    2 * (tables.nqpt * tables.nqpt) + 2 * max tables.ndof tables.nqpt, b, g, bt, gt, o, u⟩,
    ?_, hroom⟩
  -- One step for each check, in the order in which they are made.
  simp only [facePlan]
  rw [FixedSizes.check_ok hf.d1d, ok_bind, FixedSizes.check_ok hf.q1d, ok_bind,
    FixedSizes.check_ok hf.vdim, ok_bind, Limits.check_ok h.maxD1d h.maxQ1d, ok_bind,
    require_eq_ok.2 ⟨hd, hq, h.vdim_pos⟩, ok_bind, Size.mul_ok hnd, ok_bind, Size.mul_ok hnq,
    ok_bind, hopLen, ok_bind, checkBuffer_ok rfl, ok_bind, hlen, ok_bind, checkBuffer_ok hx,
    ok_bind, ok_bind, checkBuffer_ok rfl, ok_bind, hb, ok_bind, hg, ok_bind, hbt, ok_bind, hgt,
    ok_bind, ho, ok_bind, hu, ok_bind, Size.product_three (by decide) hq hq hpoints, ok_bind,
    Size.mul_ok (by omega), ok_bind, Nat.mul_assoc 2, Size.add_ok hroomLen, ok_bind,
    Size.mul_ok hchunk]
  rfl

/-! ### One component -/

variable [Zero α] [Add α] [Mul α]

/-- The field of a component at the point `k % q1d` of the line `k / q1d`. -/
def faceLine (plan : Plan α) (d1d q1d e c k : Nat) : Jet1 α :=
  Jet1.of d1d plan.b plan.g (k % q1d) fun dx => plan.x.entry [dx, k / q1d, c, e]

/-- The flux at a quadrature point. -/
def faceFlux (plan : Plan α) (d1d q1d e c q : Nat) : Vec2 α :=
  (Form2.of plan.op q e).apply <| Vec2.gradient d1d plan.b plan.g (q / q1d) fun dy =>
    faceLine plan d1d q1d e c (q % q1d + q1d * dy)

/-- The flux tested along x at the node `k % d1d`, on the line `k / d1d` of points. -/
def faceTested (plan : Plan α) (d1d q1d e c k : Nat) : Vec2 α :=
  Vec2.testX q1d plan.bt plan.gt (k % d1d) fun qx =>
    faceFlux plan d1d q1d e c (qx + q1d * (k / d1d))

/-- What the action makes of entry `v` at node `i`. -/
def faceUpdate (plan : Plan α) (d1d q1d e c i : Nat) (v : α) : α :=
  leftSum v q1d fun qy =>
    let t := faceTested plan d1d q1d e c (i % d1d + d1d * qy)
    t.x * plan.bt.entry [i / d1d, qy] + t.y * plan.gt.entry [i / d1d, qy]

section

open View (columns)

variable {plan : Plan α} {d1d q1d vdim ne e c : Nat} {line grad y : View α}

/-! ### The way to the points -/

/-- A line of nodes is taken to its points, whatever the room for it held. -/
theorem gatherLine_ok (hs : TableShapes plan d1d q1d) {field : Nat → Except Fault α} {t : Nat → α}
    (hfield : ∀ dx < d1d, field dx = .ok (t dx)) (hline : line.Exact [2, q1d]) :
    ∃ w, gatherLine plan d1d q1d field line = .ok w ∧
      w.Holds [2, q1d] (columns 2 fun qx => (Jet1.of d1d plan.b plan.g qx t).entry) := by
  simp only [Jet1.entry_of]
  refine sweep_contract_view (pairAt plan.b plan.g) id (fun dx _ _ => t dx) hline
    fun dx w T hdx hw => ?_
  rw [hfield dx hdx, ok_bind]
  refine hw.addColumns_line (fun qx i => t dx * (pairAt plan.b plan.g i).entry [qx, dx])
    fun v qx hqx => ?_
  rw [View.get_matrix hs.b hqx hdx, View.get_matrix hs.g hqx hdx]
  rfl

/-- A line of nodes contributes to the gradient at every point. -/
theorem gatherFace_ok (hs : TableShapes plan d1d q1d) {dy : Nat} (hdy : dy < d1d)
    {L : Nat → Jet1 α} {T : Nat → Nat → α}
    (hline : line.Holds [2, q1d] (columns 2 fun qx => (L qx).entry))
    (hgrad : grad.Holds [2, q1d, q1d] (columns 2 T)) :
    ∃ w, gatherFace plan q1d dy line grad = .ok w ∧ w.Holds [2, q1d, q1d] (columns 2 fun q i =>
      T q i + pairAt (L (q % q1d)).dx (L (q % q1d)).value i *
        (pairAt plan.b plan.g i).entry [q / q1d, dy]) := by
  refine hgrad.addColumns_plane (fun qx qy i => pairAt (L qx).dx (L qx).value i *
    (pairAt plan.b plan.g i).entry [qy, dy]) fun v qy hqy => ?_
  rw [View.get_matrix hs.b hqy hdy, ok_bind, View.get_matrix hs.g hqy hdy, ok_bind]
  refine sweep_congr (fun v qx hqx => ?_) v
  rw [hline.get_line (by decide) hqx, ok_bind, hline.get_line (by decide) hqx]
  rfl

theorem faceLine_pair {qx : Nat} (hqx : qx < q1d) (dy : Nat) :
    faceLine plan d1d q1d e c (qx + q1d * dy) =
      Jet1.of d1d plan.b plan.g qx fun dx => plan.x.entry [dx, dy, c, e] := by
  simp only [faceLine, pair_mod _ hqx, pair_div _ hqx]

theorem faceTested_pair {dx : Nat} (hdx : dx < d1d) (qy : Nat) :
    faceTested plan d1d q1d e c (dx + d1d * qy) =
      Vec2.testX q1d plan.bt plan.gt dx fun qx => faceFlux plan d1d q1d e c (qx + q1d * qy) := by
  simp only [faceTested, pair_mod _ hdx, pair_div _ hdx]

/-- The gradient at the points, whatever the scratch buffer held. -/
theorem faceGradients_ok (hs : FaceShapes plan d1d q1d vdim ne) (hc : c < vdim) (he : e < ne)
    (hq : 0 < q1d) {room : Array α} (hroom : 2 * q1d ≤ room.size)
    (hfits : room.size < Size.bufferBound) (hgrad : grad.Exact [2, q1d, q1d]) :
    ∃ w room', faceGradients plan d1d q1d e c grad room = .ok (w, room') ∧
      room'.size = room.size ∧ w.Holds [2, q1d, q1d] (columns 2 fun q =>
        (Vec2.gradient d1d plan.b plan.g (q / q1d) fun dy =>
          faceLine plan d1d q1d e c (q % q1d + q1d * dy)).entry) := by
  have hlen : 2 * q1d < Size.bufferBound := Nat.lt_of_le_of_lt hroom hfits
  have hpos : ∀ k ∈ [2, q1d], 0 < k := by simp [hq]
  -- What the line `dy` of nodes is at the points.
  let L (dy qx : Nat) : Jet1 α :=
    Jet1.of d1d plan.b plan.g qx fun dx => plan.x.entry [dx, dy, c, e]
  suffices h : ∃ w room', faceGradients plan d1d q1d e c grad room = .ok (w, room') ∧
      room'.size = room.size ∧ w.Holds [2, q1d, q1d] (columns 2 fun q =>
        (Vec2.gradient d1d plan.b plan.g (q / q1d) fun dy => L dy (q % q1d)).entry) by
    obtain ⟨w, room', hrun, hsize, hw⟩ := h
    refine ⟨w, room', hrun, hsize, hw.congr_columns fun q hq' => ?_⟩
    simp only [volume, Nat.mul_one] at hq'
    simp only [faceLine_pair (mod_lt_left hq'), L]
  simp only [Vec2.entry_gradient]
  refine sweep_contract (fun r : Array α => r.size = room.size) (pairAt plan.b plan.g) (· / q1d)
    (fun dy q => pairAt (L dy (q % q1d)).dx (L dy (q % q1d)).value) hgrad rfl
    fun dy w r T hdy hw hr => ?_
  obtain ⟨line, rest, hwindow, hline, hjoin⟩ :=
    View.window_ok hpos (by simp [volume]) (hr ▸ hroom) hlen
  obtain ⟨line', hgather, hline'⟩ := gatherLine_ok hs.toTableShapes
    (fun dx hdx => View.get_four hs.x hdx hdy hc he) hline
  obtain ⟨w', hadd, hw'⟩ := gatherFace_ok hs.toTableShapes hdy hline' hw
  refine ⟨w', line'.data ++ rest, ?_, (hjoin _ hline'.exact).trans hr, hw'⟩
  simp only [Size.mul_ok hlen, hwindow, hgather, hadd, ok_bind, pure_eq_ok]

/-! ### Fluxes -/

/-- Every point has its flux. -/
theorem faceFluxes_ok (hs : FaceShapes plan d1d q1d vdim ne) (he : e < ne) {G : Nat → Vec2 α}
    (hgrad : grad.Holds [2, q1d, q1d] (columns 2 fun q => (G q).entry)) :
    ∃ w, faceFluxes plan q1d e grad = .ok w ∧ w.Holds [2, q1d, q1d] (columns 2 fun q =>
      ((Form2.of plan.op q e).apply (G q)).entry) := by
  refine hgrad.mapColumns_plane _ fun w qx hqx qy hqy hget => ?_
  have hpoint : qx + q1d * qy < q1d * q1d := pair_lt hqx hqy
  rw [Nat.mul_comm qy, Form2.read_eq hs.op hpoint he, ok_bind, hget 0 (by decide), ok_bind,
    hget 1 (by decide), ok_bind]
  rfl

/-! ### The way back to the nodes -/

/-- The flux on a line of points is tested along x, whatever the room for the line held. -/
theorem testFaceLine_ok (hs : TableShapes plan d1d q1d) {qy : Nat} (hqy : qy < q1d)
    {F : Nat → Vec2 α} (hgrad : grad.Holds [2, q1d, q1d] (columns 2 fun q => (F q).entry))
    (hline : line.Exact [2, d1d]) :
    ∃ w, testFaceLine plan d1d q1d qy grad line = .ok w ∧ w.Holds [2, d1d] (columns 2 fun dx =>
      (Vec2.testX q1d plan.bt plan.gt dx fun qx => F (qx + q1d * qy)).entry) := by
  simp only [Vec2.entry_testX]
  refine sweep_contract_view (pairAt plan.gt plan.bt) id (fun qx _ => (F (qx + q1d * qy)).entry)
    hline fun qx w T hqx hw => ?_
  rw [hgrad.get_plane (by decide) hqx hqy, ok_bind, hgrad.get_plane (by decide) hqx hqy, ok_bind]
  refine hw.addColumns_line (fun dx i => (F (qx + q1d * qy)).entry i *
    (pairAt plan.gt plan.bt i).entry [dx, qx]) fun v dx hdx => ?_
  rw [View.get_matrix hs.bt hdx hqx, ok_bind, View.get_matrix hs.gt hdx hqx]
  rfl

/-- A line of points contributes to every entry of a component. -/
theorem testFace_ok (hs : TableShapes plan d1d q1d) {qy : Nat} (hqy : qy < q1d) (hc : c < vdim)
    {L : Nat → Vec2 α} (hline : line.Holds [2, d1d] (columns 2 fun dx => (L dx).entry))
    {f : Nat → α} (hy : y.Holds [d1d, d1d, vdim] f) :
    ∃ w, testFace plan d1d qy c line y = .ok w ∧ w.Holds [d1d, d1d, vdim] fun p =>
      if p / (d1d * d1d) = c then
        f p + ((L (p % (d1d * d1d) % d1d)).x * plan.bt.entry [p % (d1d * d1d) / d1d, qy] +
          (L (p % (d1d * d1d) % d1d)).y * plan.gt.entry [p % (d1d * d1d) / d1d, qy])
      else f p := by
  refine hy.adds_plane hc
    (fun dx dy => (L dx).x * plan.bt.entry [dy, qy] + (L dx).y * plan.gt.entry [dy, qy])
    fun v dy hdy => ?_
  rw [View.get_matrix hs.bt hdy hqy, ok_bind, View.get_matrix hs.gt hdy hqy, ok_bind]
  refine sweep_congr (fun v dx hdx => ?_) v
  rw [hline.get_line (by decide) hdx, ok_bind, hline.get_line (by decide) hdx]
  rfl

/-- The tested flux is added to every entry of a component, whatever the scratch buffer held. -/
theorem faceResults_ok (hs : TableShapes plan d1d q1d) (hc : c < vdim) (hd : 0 < d1d)
    {room : Array α} (hroom : 2 * d1d ≤ room.size) (hfits : room.size < Size.bufferBound)
    (hgrad : grad.Holds [2, q1d, q1d] (columns 2 fun q => (faceFlux plan d1d q1d e c q).entry))
    {f : Nat → α} (hy : y.Holds [d1d, d1d, vdim] f) :
    ∃ room' w, faceResults plan d1d q1d c grad room y = .ok (room', w) ∧
      room'.size = room.size ∧ w.Holds [d1d, d1d, vdim] fun p =>
        if p / (d1d * d1d) = c then faceUpdate plan d1d q1d e c (p % (d1d * d1d)) (f p)
        else f p := by
  have hlen : 2 * d1d < Size.bufferBound := Nat.lt_of_le_of_lt hroom hfits
  have hpos : ∀ k ∈ [2, d1d], 0 < k := by simp [hd]
  let t (p qy : Nat) : α :=
    let i := p % (d1d * d1d)
    let t := faceTested plan d1d q1d e c (i % d1d + d1d * qy)
    t.x * plan.bt.entry [i / d1d, qy] + t.y * plan.gt.entry [i / d1d, qy]
  -- After `k` lines of points the first `k` terms are added.
  let P (k : Nat) (s : Array α × View α) : Prop :=
    s.1.size = room.size ∧ s.2.Holds [d1d, d1d, vdim] fun p =>
      if p / (d1d * d1d) = c then leftSum (f p) k (t p) else f p
  have hstart : P 0 (room, y) := ⟨rfl, hy.congr fun p _ => (ite_self _).symm⟩
  suffices h : ∃ s, faceResults plan d1d q1d c grad room y = .ok s ∧ P q1d s by
    obtain ⟨⟨room', w⟩, hrun, hsize, hw⟩ := h
    exact ⟨room', w, hrun, hsize, hw⟩
  refine sweep_induction P hstart ?_
  rintro qy ⟨r, w⟩ hqy ⟨hr, hw⟩
  obtain ⟨line, rest, hwindow, hline, hjoin⟩ :=
    View.window_ok hpos (by simp [volume]) (hr ▸ hroom) hlen
  obtain ⟨line', htest, hline'⟩ := testFaceLine_ok hs hqy hgrad hline
  obtain ⟨w', hadd, hw'⟩ := testFace_ok hs hqy hc hline' hw
  refine ⟨(line'.data ++ rest, w'), ?_, (hjoin _ hline'.exact).trans hr, hw'.congr fun p hp => ?_⟩
  · simp only [Size.mul_ok hlen, hwindow, htest, hadd, ok_bind, pure_eq_ok]
  · by_cases hpart : p / (d1d * d1d) = c
    · have hdx : p % (d1d * d1d) % d1d < d1d := Nat.mod_lt _ hd
      simp only [hpart, if_true, leftSum, t, faceTested_pair hdx]
    · simp only [hpart, if_false]

/-! ### Faces -/

/-- The parts of the scratch buffer and the chunk have the lengths that a face works on. -/
structure FaceState.Fits (s : FaceState α) (d1d q1d vdim : Nat) : Prop where
  grad : s.grad.Exact [2, q1d, q1d]
  line : s.line.size = 2 * max d1d q1d
  y : s.y.Exact [d1d, d1d, vdim]

/-- **One component of a face**, whatever the scratch buffer held. -/
theorem faceComponent_ok (hs : FaceShapes plan d1d q1d vdim ne) (hc : c < vdim) (he : e < ne)
    (hd : 0 < d1d) (hq : 0 < q1d) (hfits : 2 * max d1d q1d < Size.bufferBound) {s : FaceState α}
    (h : s.Fits d1d q1d vdim) :
    ∃ s', faceComponent plan d1d q1d e c s = .ok s' ∧ FaceState.Fits s' d1d q1d vdim ∧
      s'.y.data = s.y.data.mapIdx fun i v =>
        if i / (d1d * d1d) = c then faceUpdate plan d1d q1d e c (i % (d1d * d1d)) v else v := by
  obtain ⟨grad, line, y⟩ := s
  obtain ⟨hgrad, hline, hy⟩ := h
  simp only at hgrad hline hy
  have hpoints : 2 * q1d ≤ line.size := by omega
  obtain ⟨grad₁, line₁, hgradients, hline₁, hgrad₁⟩ :=
    faceGradients_ok hs hc he hq hpoints (hline ▸ hfits) hgrad
  obtain ⟨grad₂, hfluxes, hgrad₂⟩ := faceFluxes_ok hs he hgrad₁
  have hnodes : 2 * d1d ≤ line₁.size := by omega
  obtain ⟨line₂, y₂, hresults, hline₂, hy₂⟩ :=
    faceResults_ok hs.toTableShapes hc hd hnodes (by omega) hgrad₂ hy.holds
  refine ⟨⟨grad₂, line₂, y₂⟩, ?_, ⟨hgrad₂.exact, by rw [hline₂, hline₁, hline], hy₂.exact⟩,
    View.Holds.data_mapIdx hy (fun i v =>
      if i / (d1d * d1d) = c then faceUpdate plan d1d q1d e c (i % (d1d * d1d)) v else v) hy₂⟩
  simp only [faceComponent, hgradients, hfluxes, hresults, ok_bind, pure_eq_ok]

end

/-! ### The element loop -/

/-- A face replaces every entry of its chunk by the update of its node and component. -/
theorem face_actsBy {plan : Plan α} {fixed : FixedSizes} {ne : Nat} {tables : Tables α}
    {op x : Array α} {yLen vdim : Nat} (hp : FacePlanned plan fixed ne tables op x yLen vdim)
    (hroom : plan.room < Size.bufferBound) :
    ActsBy plan.chunk ne (fun scratch : Array α => scratch.size = plan.room) (face fixed plan)
      fun e i => faceUpdate plan plan.d1d plan.q1d e (i / (plan.d1d * plan.d1d))
        (i % (plan.d1d * plan.d1d)) := by
  intro scratch e chunk hscratch he hsize
  have hd := hp.d1d_pos
  have hq := hp.q1d_pos
  have hv := hp.vdim_pos
  have hnodes : ∀ k ∈ [plan.d1d, plan.d1d, plan.vdim], 0 < k := by simp [hd, hv]
  have hpoints : ∀ k ∈ [2, plan.q1d, plan.q1d], 0 < k := by simp [hq]
  have hvolume : volume [plan.d1d, plan.d1d, plan.vdim] = plan.chunk := by
    simp [volume, hp.chunk, Nat.mul_comm, Nat.mul_left_comm]
  have hgradLen : volume [2, plan.q1d, plan.q1d] = 2 * plan.q1d * plan.q1d := by
    simp [volume, Nat.mul_assoc]
  have hcutLen : plan.room = 2 * plan.q1d * plan.q1d + 2 * max plan.d1d plan.q1d := by
    rw [hp.room, Nat.mul_assoc]
  rw [hcutLen] at hroom
  have hpointsLen : Size.product [2, plan.q1d, plan.q1d] = .ok (2 * plan.q1d * plan.q1d) :=
    Size.product_three (by decide) hq hq (by omega)
  -- The chunk and the scratch buffer are taken apart,
  obtain ⟨y, hyView, hy, rfl⟩ :=
    View.ofBuffer_exact hnodes (hsize.trans hvolume.symm) (hvolume ▸ hp.chunk_lt)
  obtain ⟨first, line, hcut, hfirst, hline⟩ := cut_ok (hscratch.trans hcutLen)
  obtain ⟨grad, hgradView, hgrad, -⟩ :=
    View.ofBuffer_exact hpoints (hfirst.trans hgradLen.symm) (by omega)
  -- every component is worked on,
  have hparts : y.data.size = plan.vdim * (plan.d1d * plan.d1d) := hsize.trans hp.chunk
  have hfits : 2 * max plan.d1d plan.q1d < Size.bufferBound := by omega
  obtain ⟨s, hrun, hs, hsData⟩ := sweep_parts (fun s : FaceState α => s.y.data) ⟨grad, line, y⟩
    ⟨hgrad, hline, hy⟩ hparts
    fun c s hc hs => faceComponent_ok hp.shapes hc he hd hq hfits hs
  -- and they are put together again.
  refine ⟨s.grad.data ++ s.line, ?_, ?_⟩
  · show (s.grad.data ++ s.line).size = plan.room
    rw [Array.size_append, hs.grad.size_eq, hs.line, hgradLen, hcutLen]
  · simp only [face, FixedSizes.pick_eq hp.fixedD1d, FixedSizes.pick_eq hp.fixedQ1d,
      FixedSizes.pick_eq hp.fixedVdim, hyView, hpointsLen, hcut, hgradView, hrun, ok_bind,
      pure_eq_ok, hsData]

variable [Stored α]

/-- **The action on faces**, whatever the settings: every entry is updated once. -/
theorem onFaces_eq {fixed : FixedSizes} {config : Execution} {ne : Nat} {tables : Tables α}
    {op x : Array α} {vdim : Nat} {y : Array α} {plan : Plan α}
    (hplan : facePlan fixed config.limits ne tables op x y.size vdim = .ok plan)
    (hroom : Stored.bytes α * plan.room < Size.bufferBound) :
    (onFaces fixed config ne tables op x vdim).run y = .ok () (y.mapIdx fun k =>
      faceUpdate plan plan.d1d plan.q1d (k / plan.chunk)
        (k % plan.chunk / (plan.d1d * plan.d1d)) (k % plan.chunk % (plan.d1d * plan.d1d))) := by
  have hp := facePlanned hplan
  rw [onFaces, run_bind_ok (run_get y), run_bind_ok (run_ofExcept hplan y)]
  exact forElements_eq (face_actsBy hp (lt_of_bytes hroom)) hp.chunk_pos
    (Size.reserve_eq_ok.2 hroom) Array.size_replicate hp.yLen

end Action

end TensorDiffusion
