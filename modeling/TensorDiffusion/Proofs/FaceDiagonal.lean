import TensorDiffusion.Diffusion.Diagonal
import TensorDiffusion.Proofs.Contraction
import TensorDiffusion.Proofs.Elements
import TensorDiffusion.Proofs.Kernels

/-!
# The diagonal on faces, in closed form

A diagonal on faces whose sizes are accepted adds to every entry of the output a value that depends
on that entry's node and element only (`faceUpdate`), whatever the scratch buffer held.  The
components of a vector have the same diagonal.
-/

namespace TensorDiffusion.Diagonal

variable {α : Type}

/-- The tables of a plan have the shapes they are read with. -/
structure TableShapes (plan : Plan α) (d1d q1d : Nat) : Prop where
  b : plan.b.shape = [q1d, d1d]
  g : plan.g.shape = [q1d, d1d]

/-- A plan reads its tables and their sizes from `tables`. -/
structure HoldsTables (plan : Plan α) (tables : Tables α) : Prop where
  d1d : plan.d1d = tables.ndof
  q1d : plan.q1d = tables.nqpt
  b : plan.b.data = tables.b
  g : plan.g.data = tables.g

/-- The views of a plan for faces have the shapes they are read with. -/
structure FaceShapes (plan : Plan α) (d1d q1d ne : Nat) : Prop
    extends TableShapes plan d1d q1d where
  op : plan.op.shape = [q1d * q1d, 3, ne]

/-- What the checks of a diagonal on faces establish. -/
structure FacePlanned (plan : Plan α) (fixed : FixedSizes) (ne : Nat) (tables : Tables α)
    (op : Array α) (diagLen vdim : Nat) : Prop extends HoldsTables plan tables where
  shapes : FaceShapes plan plan.d1d plan.q1d ne
  vdim : plan.vdim = vdim
  d1d_pos : 0 < plan.d1d
  q1d_pos : 0 < plan.q1d
  vdim_pos : 0 < plan.vdim
  fixedD1d : fixed.d1d = 0 ∨ fixed.d1d = plan.d1d
  fixedQ1d : fixed.q1d = 0 ∨ fixed.q1d = plan.q1d
  chunk : plan.chunk = plan.d1d * plan.d1d * plan.vdim
  room : plan.room = 3 * plan.q1d * plan.d1d
  diagLen : diagLen = ne * plan.chunk
  op : plan.op.data = op

theorem facePlanned {fixed : FixedSizes} {limits : Limits} {ne : Nat} {tables : Tables α}
    {op : Array α} {diagLen vdim : Nat} {plan : Plan α}
    (h : facePlan fixed limits ne tables op diagLen vdim = .ok plan) :
    FacePlanned plan fixed ne tables op diagLen vdim := by
  simp only [facePlan, bind_eq_ok, pure_eq_ok, FixedSizes.check_eq, checkBuffer_eq, require_eq,
    Limits.check_eq, Size.mul_eq_ok, View.ofBuffer_eq_ok, Except.ok.injEq, exists_const] at h
  obtain ⟨hd, hq, -, ⟨hd₀, hq₀, hv₀⟩, nd, ⟨-, rfl⟩, -, -, -, n, hn, hy, b, ⟨-, hb, hbs⟩,
    g, ⟨-, hg, hgs⟩, nq, ⟨-, rfl⟩, op', ⟨-, ho, hos⟩, room, hroom, chunk, ⟨-, hchunk⟩, rfl⟩ := h
  have hn := Size.product_eq hn
  have hroom := Size.product_eq hroom
  simp only [volume, Nat.mul_one, ← Nat.mul_assoc] at hn hroom
  exact {
    shapes := ⟨⟨hbs, hgs⟩, hos⟩
    d1d := rfl, q1d := rfl, vdim := rfl, d1d_pos := hd₀, q1d_pos := hq₀, vdim_pos := hv₀
    fixedD1d := hd, fixedQ1d := hq
    chunk := hchunk.symm
    room := hroom
    diagLen := by
      show diagLen = ne * chunk
      rw [hy, hn, ← hchunk, Nat.mul_comm ne]
    b := hb, g := hg, op := ho }

theorem FacePlanned.chunk_pos {plan : Plan α} {fixed : FixedSizes} {ne : Nat} {tables : Tables α}
    {op : Array α} {diagLen vdim : Nat} (hp : FacePlanned plan fixed ne tables op diagLen vdim) :
    0 < plan.chunk := by
  rw [hp.chunk]
  exact Nat.mul_pos (Nat.mul_pos hp.d1d_pos hp.d1d_pos) hp.vdim_pos

/-- **The sizes of a diagonal on faces are accepted**, if its workspace has room. -/
theorem facePlan_ok [Stored α] {fixed : FixedSizes} {limits : Limits} {ne : Nat}
    {tables : Tables α} {op : Array α} {diagLen vdim : Nat} (hs : tables.Sized)
    (hf : fixed.Agrees tables.ndof tables.nqpt vdim)
    (h : KernelSizes α 2 vdim tables.ndof tables.nqpt ne limits op.size diagLen)
    (hroom : Stored.bytes α * (3 * tables.nqpt * tables.ndof) < Size.bufferBound) :
    ∃ plan, facePlan fixed limits ne tables op diagLen vdim = .ok plan ∧
      Stored.bytes α * plan.room < Size.bufferBound := by
  have hd := h.d1d_pos
  have hq := h.q1d_pos
  have hnd := h.nodes_lt
  have hnq := h.points_lt (Nat.le_refl 2)
  have hchunk := h.chunk_lt
  have hlen := h.len_ok
  have hopLen : Size.product [tables.nqpt, tables.nqpt, 3, ne] = .ok op.size :=
    h.pointsLen_ok (Nat.le_refl 2)
  have hroomLen := lt_of_bytes hroom
  obtain ⟨b, g, -, -, hb, hg, -, -⟩ := hs.views hd hq (h.table_lt (Nat.le_refl 2))
  obtain ⟨o, ho⟩ := h.op_view (Nat.le_refl 2)
  rw [Nat.pow_two] at hnd hnq hchunk hlen ho
  rw [show symmetricEntries 2 = 3 from rfl] at ho
  refine ⟨⟨tables.ndof, tables.nqpt, vdim, tables.ndof * tables.ndof * vdim,
    3 * tables.nqpt * tables.ndof, b, g, o⟩, ?_, hroom⟩
  simp only [facePlan]
  rw [FixedSizes.check_ok hf.d1d, ok_bind, FixedSizes.check_ok hf.q1d, ok_bind,
    Limits.check_ok h.maxD1d h.maxQ1d, ok_bind, require_eq_ok.2 ⟨hd, hq, h.vdim_pos⟩, ok_bind,
    Size.mul_ok hnd, ok_bind, hopLen, ok_bind, checkBuffer_ok rfl, ok_bind, hlen, ok_bind,
    checkBuffer_ok rfl, ok_bind, hb, ok_bind, hg, ok_bind, Size.mul_ok hnq, ok_bind, ho, ok_bind,
    Size.product_three (by decide) hq hd hroomLen, ok_bind, Size.mul_ok hchunk]
  rfl

/-! ### One face -/

variable [Zero α] [Add α] [Mul α]

/-- The forms of a line of points, contracted along y with the squares of the tables. -/
def faceForms (plan : Plan α) (q1d e k : Nat) : Form2 α :=
  let b (qy : Nat) := plan.b.entry [qy, k / q1d]
  let g (qy : Nat) := plan.g.entry [qy, k / q1d]
  let op (i qy : Nat) := plan.op.entry [k % q1d + qy * q1d, i, e]
  { xx := leftSum 0 q1d fun qy => b qy * b qy * op 0 qy
    xy := leftSum 0 q1d fun qy => b qy * g qy * op 1 qy
    yy := leftSum 0 q1d fun qy => g qy * g qy * op 2 qy }

/-- The diagonal entry of the node at `dx` and `dy`. -/
def faceSum (plan : Plan α) (q1d e dx dy : Nat) : α :=
  (List.range q1d).foldl (fun sum qx =>
    let b := plan.b.entry [qx, dx]
    let g := plan.g.entry [qx, dx]
    let m := faceForms plan q1d e (qx + q1d * dy)
    sum + g * g * m.xx + g * b * m.xy + b * g * m.xy + b * b * m.yy) 0

/-- What the diagonal makes of entry `v` at place `n` of the chunk. -/
def faceUpdate (plan : Plan α) (d1d q1d e n : Nat) (v : α) : α :=
  v + faceSum plan q1d e (n % d1d) (n / d1d % d1d)

section

open View (columns)

variable {plan : Plan α} {d1d q1d ne e : Nat} {forms y : View α}

theorem contractForms_eq (hs : FaceShapes plan d1d q1d ne) (he : e < ne) {qx dy : Nat}
    (hqx : qx < q1d) (hdy : dy < d1d) :
    contractForms plan q1d e qx dy = .ok (faceForms plan q1d e (qx + q1d * dy)) := by
  have hb : ∀ qy < q1d, plan.b.get [qy, dy] = .ok (plan.b.entry [qy, dy]) :=
    fun qy hqy => View.get_matrix hs.b hqy hdy
  have hg : ∀ qy < q1d, plan.g.get [qy, dy] = .ok (plan.g.entry [qy, dy]) :=
    fun qy hqy => View.get_matrix hs.g hqy hdy
  have hop : ∀ i < 3, ∀ qy < q1d, plan.op.get [qx + qy * q1d, i, e] =
      .ok (plan.op.entry [qx + qy * q1d, i, e]) := by
    intro i hi qy hqy
    refine View.get_three hs.op ?_ hi he
    rw [Nat.mul_comm qy]
    exact pair_lt hqx hqy
  simp only [contractForms, faceForms, pair_mod _ hqx, pair_div _ hqx]
  rw [total_eq fun qy hqy => by rw [hb qy hqy, ok_bind, hop 0 (by decide) qy hqy]; rfl,
    total_eq fun qy hqy => by
      rw [hb qy hqy, ok_bind, hg qy hqy, ok_bind, hop 1 (by decide) qy hqy]; rfl,
    total_eq fun qy hqy => by rw [hg qy hqy, ok_bind, hop 2 (by decide) qy hqy]; rfl]
  rfl

/-- The forms are contracted along y, whatever the view held. -/
theorem contractFaceY_ok (hs : FaceShapes plan d1d q1d ne) (he : e < ne)
    (hforms : forms.Exact [3, q1d, d1d]) :
    ∃ w, contractFaceY plan d1d q1d e forms = .ok w ∧
      w.Holds [3, q1d, d1d] (columns 3 fun k => (faceForms plan q1d e k).entry) := by
  -- Points come before nodes in the loop, but after them in the buffer.
  have hvisits := (visits_line q1d).nested (visits_line d1d)
  rw [contractFaceY, sweep_pairs q1d d1d]
  refine hforms.columns.mapColumns hvisits fun k w hk _ => ?_
  obtain ⟨hqx, hdy, -⟩ := hvisits.inShape k hk
  rw [contractForms_eq hs he hqx hdy, ok_bind]
  rfl

theorem faceEntry_eq (hs : FaceShapes plan d1d q1d ne) {dx dy : Nat} (hdx : dx < d1d)
    (hdy : dy < d1d)
    (hforms : forms.Holds [3, q1d, d1d] (columns 3 fun k => (faceForms plan q1d e k).entry)) :
    faceEntry plan q1d dx dy forms = .ok (faceSum plan q1d e dx dy) :=
  sweep_eq fun qx _ hqx => by
    rw [View.get_matrix hs.b hqx hdx, ok_bind, View.get_matrix hs.g hqx hdx, ok_bind,
      hforms.get_plane (by decide) hqx hdy, ok_bind, hforms.get_plane (by decide) hqx hdy, ok_bind,
      hforms.get_plane (by decide) hqx hdy]
    rfl

/-- Every entry of a chunk receives the diagonal entry of its node. -/
theorem contractFaceX_ok (hs : FaceShapes plan d1d q1d ne)
    (hforms : forms.Holds [3, q1d, d1d] (columns 3 fun k => (faceForms plan q1d e k).entry))
    {f : Nat → α} (hy : y.Holds [d1d, d1d, plan.vdim] f) :
    ∃ w, contractFaceX plan d1d q1d forms y = .ok w ∧
      w.Holds [d1d, d1d, plan.vdim] fun n => faceUpdate plan d1d q1d e n (f n) := by
  refine hy.adds_last_plane (faceSum plan q1d e) fun w dy hdy =>
    sweep_congr (fun w dx hdx => ?_) w
  rw [faceEntry_eq hs hdx hdy hforms, ok_bind]

end

/-- A chunk is no longer than the output it is a part of. -/
theorem chunk_lt_of_len {diagLen ne chunk : Nat} (hlen : diagLen = ne * chunk)
    (hdiag : diagLen < Size.bufferBound) (hne : 0 < ne) : chunk < Size.bufferBound :=
  Nat.lt_of_le_of_lt (hlen ▸ Nat.le_mul_of_pos_left chunk hne) hdiag

section

variable {plan : Plan α} {fixed : FixedSizes} {ne : Nat} {tables : Tables α} {op : Array α}
  {diagLen vdim : Nat}

omit [Zero α] [Add α] [Mul α] in
/-- The indices of a chunk. -/
theorem FacePlanned.chunk_volume (hp : FacePlanned plan fixed ne tables op diagLen vdim) :
    (∀ k ∈ [plan.d1d, plan.d1d, plan.vdim], 0 < k) ∧
      volume [plan.d1d, plan.d1d, plan.vdim] = plan.chunk := by
  have hd := hp.d1d_pos
  have hv := hp.vdim_pos
  exact ⟨by simp [hd, hv], by simp [volume, hp.chunk, Nat.mul_assoc]⟩

/-- A face replaces every entry of its chunk by the update of its node. -/
theorem face_actsBy (hp : FacePlanned plan fixed ne tables op diagLen vdim)
    (hroom : plan.room < Size.bufferBound) (hchunk : 0 < ne → plan.chunk < Size.bufferBound) :
    ActsBy plan.chunk ne (fun scratch : Array α => scratch.size = plan.room) (face fixed plan)
      fun e => faceUpdate plan plan.d1d plan.q1d e := by
  intro scratch e chunk hscratch he hsize
  have hd := hp.d1d_pos
  have hq := hp.q1d_pos
  have hpoints : ∀ k ∈ [3, plan.q1d, plan.d1d], 0 < k := by simp [hd, hq]
  obtain ⟨hnodes, hvolume⟩ := hp.chunk_volume
  have hroomLen : volume [3, plan.q1d, plan.d1d] = plan.room := by
    simp [volume, hp.room, Nat.mul_assoc]
  obtain ⟨y, hyView, hy, rfl⟩ := View.ofBuffer_exact hnodes (hsize.trans hvolume.symm)
    (hvolume ▸ hchunk (Nat.zero_lt_of_lt he))
  obtain ⟨forms, hformsView, hforms, -⟩ :=
    View.ofBuffer_exact hpoints (hscratch.trans hroomLen.symm) (hroomLen ▸ hroom)
  obtain ⟨forms', hY, hforms'⟩ := contractFaceY_ok hp.shapes he hforms
  obtain ⟨y', hX, hy'⟩ := contractFaceX_ok hp.shapes hforms' hy.holds
  refine ⟨forms'.data, hforms'.size.trans hroomLen, ?_⟩
  have hdata := View.Holds.data_mapIdx hy (faceUpdate plan plan.d1d plan.q1d e) hy'
  simp only [face, FixedSizes.pick_eq hp.fixedD1d, FixedSizes.pick_eq hp.fixedQ1d, hyView,
    hformsView, hY, hX, hdata, ok_bind, pure_eq_ok]

/-- A chunk that is too long for a view is refused before anything else. -/
theorem face_overflow (hp : FacePlanned plan fixed ne tables op diagLen vdim)
    (hchunk : ¬ plan.chunk < Size.bufferBound) (scratch : Array α) (e : Nat) {chunk : Array α}
    (hsize : chunk.size = plan.chunk) :
    face fixed plan scratch e chunk = .error (.violated (.shapeOverflow plan.chunk)) := by
  obtain ⟨hnodes, hvolume⟩ := hp.chunk_volume
  have hview : View.ofBuffer chunk [plan.d1d, plan.d1d, plan.vdim] =
      .error (.violated (.shapeOverflow plan.chunk)) := by
    rw [View.ofBuffer_of_overflow (by rwa [nonemptyVolume_of_pos hnodes, hvolume]), hsize]
  rw [face, FixedSizes.pick_eq hp.fixedD1d, hview]
  rfl

end

variable [Stored α]

/-- **The diagonal on faces**, whatever the settings: every entry is updated once. -/
theorem onFaces_eq {fixed : FixedSizes} {config : Execution} {ne : Nat} {tables : Tables α}
    {op : Array α} {vdim : Nat} {diag : Array α} {plan : Plan α}
    (hplan : facePlan fixed config.limits ne tables op diag.size vdim = .ok plan)
    (hroom : Stored.bytes α * plan.room < Size.bufferBound)
    (hchunk : 0 < ne → plan.chunk < Size.bufferBound) :
    (onFaces fixed config ne tables op vdim).run diag = .ok () (diag.mapIdx fun n =>
      faceUpdate plan plan.d1d plan.q1d (n / plan.chunk) (n % plan.chunk)) := by
  have hp := facePlanned hplan
  rw [onFaces, run_bind_ok (run_get diag), run_bind_ok (run_ofExcept hplan diag)]
  exact forElements_eq (face_actsBy hp (lt_of_bytes hroom) hchunk) hp.chunk_pos
    (Size.reserve_eq_ok.2 hroom) Array.size_replicate hp.diagLen

end TensorDiffusion.Diagonal
