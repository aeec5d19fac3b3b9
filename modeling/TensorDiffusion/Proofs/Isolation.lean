import Mathlib.Logic.Function.Basic
import TensorDiffusion.Proofs.Action
import TensorDiffusion.Proofs.Backends
import TensorDiffusion.Proofs.Preconditions

/-!
# Components and elements do not interfere

An action makes every block of its output — the nodes of one component of one element — from three
things: what the block held before, the same block of `x` and the operator data of the element.  All
blocks pass through the same workspace and the same flat buffers; still two blocks of whatever calls
with the same tables, which start from the same three things, end equal (`components_decoupled`).

No law of arithmetic is used.  What the other blocks hold, numbers or not, is of no account.

* `stretch_eq_iff`: what two stretches of two buffers have in common when they are equal.
* `faceUpdate_congr`, `cellUpdate_congr`: the stages of a kernel read the data of their block only.
* `onFaces_decoupled`, `onCells_decoupled`: two calls.
-/

namespace TensorDiffusion

/-! ### Stretches of a buffer -/

section

variable {β : Type}

/-- The `n`-th of the stretches of length `len` that make up a buffer. -/
def stretch (len : Nat) (buf : Array β) (n : Nat) : Array β :=
  buf.extract (len * n) (len * n + len)

theorem getElem?_stretch {len n i : Nat} {buf : Array β} (hi : i < len) :
    (stretch len buf n)[i]? = buf[i + len * n]? := by
  rw [stretch, Array.getElem?_extract, Nat.add_comm i]
  split
  · rfl
  · rename_i h
    exact (Array.getElem?_eq_none (by omega)).symm

/-- Two stretches are equal when their entries are. -/
theorem stretch_eq_iff {len n n' : Nat} {buf buf' : Array β} :
    stretch len buf n = stretch len buf' n' ↔
      ∀ i < len, buf[i + len * n]? = buf'[i + len * n']? := by
  constructor
  · intro h i hi
    rw [← getElem?_stretch hi, h, getElem?_stretch hi]
  · intro h
    refine Array.ext_getElem? fun i => ?_
    rcases Nat.lt_or_ge i len with hi | hi
    · rw [getElem?_stretch hi, getElem?_stretch hi, h i hi]
    · rw [Array.getElem?_eq_none, Array.getElem?_eq_none] <;>
        exact Nat.le_trans (by rw [stretch, Array.size_extract]; omega) hi

end

namespace View

variable {α : Type}

/-- The outer indices of an entry give the stretch that it lies in, the inner ones its place there:
views with equal stretches read the same. -/
theorem entry_of_stretch [Zero α] {v v' : View α} (idx shape : List Nat)
    {outer outer' rest rest' : List Nat} (hs : v.shape = shape ++ rest)
    (hs' : v'.shape = shape ++ rest') (hidx : InShape idx shape)
    (h : stretch (volume shape) v.data (flat outer rest) =
      stretch (volume shape) v'.data (flat outer' rest')) :
    v.entry (idx ++ outer) = v'.entry (idx ++ outer') := by
  have hlt : flat idx shape < volume shape := flat_lt hidx
  rw [entry_eq hs, entry_eq hs', flat_append hidx, flat_append hidx, Array.getD_eq_getD_getElem?,
    Array.getD_eq_getD_getElem?, stretch_eq_iff.1 h _ hlt]

/-- Views of one buffer with one shape are the same. -/
theorem eq_of_data {v w : View α} (hdata : v.data = w.data) (hshape : v.shape = w.shape) :
    v = w := by
  cases v
  cases w
  cases hdata
  cases hshape
  rfl

/-- A shape fits all buffers of one length, or none. -/
theorem ofBuffer_of_size {data data' : Array α} {shape : List Nat} {v : View α}
    (h : ofBuffer data shape = .ok v) (hsize : data'.size = data.size) :
    ∃ v', ofBuffer data' shape = .ok v' := by
  obtain ⟨hshape, rfl, rfl⟩ := ofBuffer_eq_ok.1 h
  exact ⟨⟨data', v.shape, hsize ▸ v.fits⟩, ofBuffer_eq_ok.2 ⟨hshape, rfl, rfl⟩⟩

end View

namespace Action

variable {α : Type}

/-! ### The data of a block -/

/-- What of the data of a call belongs to one component of one element. -/
structure Owned (α : Type) where
  /-- The block of the output before the call. -/
  before : Array α
  /-- The block of `x`. -/
  x : Array α
  /-- The operator data of the element. -/
  op : Array α

/-- The data of component `c` of element `e`, in vectors of layout `(nd, vdim, NE)` and operator
data of `len` entries for every element. -/
def owned (nd vdim len : Nat) (op x y : Array α) (e c : Nat) : Owned α where
  before := stretch nd y (c + vdim * e)
  x := stretch nd x (c + vdim * e)
  op := stretch len op e

/-- Two plans read the same tables. -/
structure SameTables (p p' : Plan α) : Prop where
  b : p.b = p'.b
  g : p.g = p'.g
  bt : p.bt = p'.bt
  gt : p.gt = p'.gt

theorem sameTables {p p' : Plan α} {tables : Tables α} {d1d q1d : Nat} (h : HoldsTables p tables)
    (h' : HoldsTables p' tables) (hs : TableShapes p d1d q1d) (hs' : TableShapes p' d1d q1d) :
    SameTables p p' where
  b := View.eq_of_data (h.b.trans h'.b.symm) (hs.b.trans hs'.b.symm)
  g := View.eq_of_data (h.g.trans h'.g.symm) (hs.g.trans hs'.g.symm)
  bt := View.eq_of_data (h.bt.trans h'.bt.symm) (hs.bt.trans hs'.bt.symm)
  gt := View.eq_of_data (h.gt.trans h'.gt.symm) (hs.gt.trans hs'.gt.symm)

/-- The element, component and node of an entry, by its place in its block. -/
theorem block_positions {nd vdim e c i : Nat} (hi : i < nd) (hc : c < vdim) :
    (i + nd * (c + vdim * e)) / (vdim * nd) = e ∧
      (i + nd * (c + vdim * e)) % (vdim * nd) / nd = c ∧
      (i + nd * (c + vdim * e)) % (vdim * nd) % nd = i := by
  obtain ⟨hnode, hcomponent, helement⟩ := triple_positions e hi hc
  exact ⟨by rw [Nat.mul_comm vdim nd, helement], chunk_positions.1.trans hcomponent,
    chunk_positions.2.trans hnode⟩

/-- Two blocks that are equal before and updated alike are equal after. -/
theorem stretch_updated {nd vdim vdim' e c e' c' : Nat} {y y' : Array α}
    {update update' : Nat → Nat → Nat → α → α} (hc : c < vdim) (hc' : c' < vdim')
    (hbefore : stretch nd y (c + vdim * e) = stretch nd y' (c' + vdim' * e'))
    (h : ∀ i < nd, ∀ v, update e c i v = update' e' c' i v) :
    stretch nd (y.mapIdx fun k => update (k / (vdim * nd)) (k % (vdim * nd) / nd)
        (k % (vdim * nd) % nd)) (c + vdim * e) =
      stretch nd (y'.mapIdx fun k => update' (k / (vdim' * nd)) (k % (vdim' * nd) / nd)
        (k % (vdim' * nd) % nd)) (c' + vdim' * e') := by
  refine stretch_eq_iff.2 fun i hi => ?_
  obtain ⟨he, hcomponent, hnode⟩ := block_positions (e := e) hi hc
  obtain ⟨he', hcomponent', hnode'⟩ := block_positions (e := e') hi hc'
  rw [Array.getElem?_mapIdx, Array.getElem?_mapIdx, stretch_eq_iff.1 hbefore i hi, he, hcomponent,
    hnode, he', hcomponent', hnode']
  exact congrArg (Option.map · _) (funext fun v => h i hi v)

/-! ### Faces -/

section

variable [Zero α] [Add α] [Mul α] {p p' : Plan α} {d1d q1d e c e' c' : Nat}

/-- The plans read the same tables, component `c` of `e` and component `c'` of `e'` hold the same
field, and the forms of both faces are the same. -/
structure FaceAgrees (p p' : Plan α) (d1d q1d e c e' c' : Nat) : Prop extends SameTables p p' where
  x : ∀ i < d1d, ∀ j < d1d, p.x.entry [i, j, c, e] = p'.x.entry [i, j, c', e']
  op : ∀ q < q1d * q1d, Form2.of p.op q e = Form2.of p'.op q e'

theorem faceLine_congr (h : FaceAgrees p p' d1d q1d e c e' c') {k : Nat} (hk : k < q1d * d1d) :
    faceLine p d1d q1d e c k = faceLine p' d1d q1d e' c' k := by
  rw [faceLine, faceLine, h.b, h.g]
  exact Jet1.of_congr fun dx hdx => h.x dx hdx _ (div_lt_right hk)

theorem faceFlux_congr (h : FaceAgrees p p' d1d q1d e c e' c') {q : Nat} (hq : q < q1d * q1d) :
    faceFlux p d1d q1d e c q = faceFlux p' d1d q1d e' c' q := by
  rw [faceFlux, faceFlux, h.op q hq, h.b, h.g]
  refine congrArg _ (Vec2.gradient_congr fun dy hdy => ?_)
  exact faceLine_congr h (pair_lt (mod_lt_left hq) hdy)

theorem faceTested_congr (h : FaceAgrees p p' d1d q1d e c e' c') {k : Nat} (hk : k < d1d * q1d) :
    faceTested p d1d q1d e c k = faceTested p' d1d q1d e' c' k := by
  rw [faceTested, faceTested, h.bt, h.gt]
  exact Vec2.testX_congr fun qx hqx => faceFlux_congr h (pair_lt hqx (div_lt_right hk))

/-- **A face reads the data of its block only.** -/
theorem faceUpdate_congr (h : FaceAgrees p p' d1d q1d e c e' c') {i : Nat} (hi : i < d1d * d1d)
    (v : α) : faceUpdate p d1d q1d e c i v = faceUpdate p' d1d q1d e' c' i v := by
  rw [faceUpdate, faceUpdate, h.bt, h.gt]
  refine leftSum_congr v fun qy hqy => ?_
  rw [faceTested_congr h (pair_lt (mod_lt_left hi) hqy)]

omit [Add α] [Mul α] in
/-- Components with the same data are read alike by the plans of their calls. -/
theorem faceAgrees_of_owned {fixed fixed' : FixedSizes} {ne ne' vdim vdim' : Nat}
    {tables : Tables α} {op op' x x' y y' : Array α}
    (hp : FacePlanned p fixed ne tables op x y.size vdim)
    (hp' : FacePlanned p' fixed' ne' tables op' x' y'.size vdim')
    (h : owned (tables.ndof ^ 2) vdim (tables.nqpt ^ 2 * 3) op x y e c =
      owned (tables.ndof ^ 2) vdim' (tables.nqpt ^ 2 * 3) op' x' y' e' c') :
    FaceAgrees p p' tables.ndof tables.nqpt e c e' c' := by
  have hs := hp.shapes
  have hs' := hp'.shapes
  rw [hp.d1d, hp.q1d, hp.vdim] at hs
  rw [hp'.d1d, hp'.q1d, hp'.vdim] at hs'
  refine ⟨sameTables hp.toHoldsTables hp'.toHoldsTables hs.toTableShapes hs'.toTableShapes, ?_, ?_⟩
  · have hx := congrArg Owned.x h
    simp only [owned, ← hp.x, ← hp'.x] at hx
    exact fun i hi j hj => View.entry_of_stretch [i, j] [tables.ndof, tables.ndof] hs.x hs'.x
      ⟨hi, hj, trivial⟩ (by simpa [volume, flat, pow_two] using hx)
  · have hop := congrArg Owned.op h
    simp only [owned, ← hp.op, ← hp'.op] at hop
    intro q hq
    have hentry : ∀ k < 3, p.op.entry [q, k, e] = p'.op.entry [q, k, e'] := fun k hk =>
      View.entry_of_stretch [q, k] [tables.nqpt * tables.nqpt, 3] hs.op hs'.op ⟨hq, hk, trivial⟩
        (by simpa [volume, flat, pow_two] using hop)
    rw [Form2.of, Form2.of, hentry 0 (by decide), hentry 1 (by decide), hentry 2 (by decide)]

end

/-- The checks of an action on faces look at the lengths of its data only. -/
theorem facePlan_of_sizes {fixed : FixedSizes} {limits : Limits} {ne : Nat} {tables : Tables α}
    {op op' x x' : Array α} {yLen vdim : Nat} {p : Plan α}
    (h : facePlan fixed limits ne tables op x yLen vdim = .ok p) (hop : op'.size = op.size)
    (hx : x'.size = x.size) :
    ∃ p', facePlan fixed limits ne tables op' x' yLen vdim = .ok p' ∧ p'.room = p.room := by
  simp only [facePlan, bind_eq_ok] at h
  obtain ⟨_, hd, _, hq, _, hv, _, hlimits, _, hzero, nd, hnd, nq, hnq, n₁, hn₁, _, hopLen, n₂, hn₂,
    _, hxLen, n₃, hn₃, _, hyLen, b, hb, g, hg, bt, hbt, gt, hgt, o, ho, u, hu, r, hr, m, hm, room,
    hroom, chunk, hchunk, hp⟩ := h
  obtain ⟨o', ho'⟩ := View.ofBuffer_of_size ho hop
  obtain ⟨u', hu'⟩ := View.ofBuffer_of_size hu hx
  -- `x` and `y` are checked against the same product.
  obtain rfl := Except.ok.inj (hn₂.symm.trans hn₃)
  obtain rfl := Except.ok.inj hp
  refine ⟨⟨tables.ndof, tables.nqpt, vdim, chunk, room, b, g, bt, gt, o', u'⟩, ?_, rfl⟩
  simp only [facePlan, hd, hq, hv, hlimits, hzero, hnd, hnq, hop, hn₁, hopLen, hx, hn₂, hxLen,
    hyLen, hb, hg, hbt, hgt, ho', hu', hr, hm, hroom, hchunk, ok_bind]
  rfl

section

variable [Zero α] [Add α] [Mul α] [Stored α] {tables : Tables α} {fixed fixed' : FixedSizes}
  {config config' : Execution} {ne ne' vdim vdim' : Nat} {op op' x x' y y' out out' : Array α}

/-- An action on faces that returns has passed its checks and found room. -/
theorem onFaces_eq_ok (h : (onFaces fixed config ne tables op x vdim).run y = .ok () out) :
    ∃ p, facePlan fixed config.limits ne tables op x y.size vdim = .ok p ∧
      Stored.bytes α * p.room < Size.bufferBound := by
  rw [onFaces, run_bind_ok (run_get y)] at h
  obtain ⟨p, _, hplan, hloop⟩ := run_bind_eq_ok.1 h
  exact ⟨p, (run_ofExcept_eq_ok.1 hplan).1, Size.reserve_eq_ok.1 (reserve_of_forElements hloop)⟩

/-- **Blocks of faces do not interfere**: two calls with the same tables make equal blocks of equal
data, wherever the blocks lie. -/
theorem onFaces_decoupled (h : (onFaces fixed config ne tables op x vdim).run y = .ok () out)
    (h' : (onFaces fixed' config' ne' tables op' x' vdim').run y' = .ok () out') {e c e' c' : Nat}
    (hc : c < vdim) (hc' : c' < vdim')
    (hdata : owned (tables.ndof ^ 2) vdim (tables.nqpt ^ 2 * 3) op x y e c =
      owned (tables.ndof ^ 2) vdim' (tables.nqpt ^ 2 * 3) op' x' y' e' c') :
    stretch (tables.ndof ^ 2) out (c + vdim * e) =
      stretch (tables.ndof ^ 2) out' (c' + vdim' * e') := by
  obtain ⟨p, hplan, hroom⟩ := onFaces_eq_ok h
  obtain ⟨p', hplan', hroom'⟩ := onFaces_eq_ok h'
  have hp := facePlanned hplan
  have hp' := facePlanned hplan'
  have hagrees := faceAgrees_of_owned hp hp' hdata
  have hbefore := congrArg Owned.before hdata
  simp only [owned, pow_two] at hbefore
  rw [onFaces_eq hplan hroom, hp.chunk, hp.d1d, hp.q1d, hp.vdim] at h
  rw [onFaces_eq hplan' hroom', hp'.chunk, hp'.d1d, hp'.q1d, hp'.vdim] at h'
  cases h
  cases h'
  rw [pow_two]
  exact stretch_updated hc hc' hbefore fun i hi v => faceUpdate_congr hagrees hi v

end

/-! ### Cells -/

section

variable [Zero α] [Add α] [Mul α] {p p' : Plan α} {d1d q1d e c e' c' : Nat}

/-- The plans read the same tables, component `c` of `e` and component `c'` of `e'` hold the same
field, and the forms of both cells are the same. -/
structure CellAgrees (p p' : Plan α) (d1d q1d e c e' c' : Nat) : Prop extends SameTables p p' where
  x : ∀ i < d1d, ∀ j < d1d, ∀ k < d1d, p.x.entry [i, j, k, c, e] = p'.x.entry [i, j, k, c', e']
  op : ∀ q < q1d * q1d * q1d, Form3.of p.op q e = Form3.of p'.op q e'

theorem cellLine_congr (h : CellAgrees p p' d1d q1d e c e' c') {k : Nat}
    (hk : k < q1d * d1d * d1d) : cellLine p d1d q1d e c k = cellLine p' d1d q1d e' c' k := by
  have hk' : k < q1d * (d1d * d1d) := by rwa [← Nat.mul_assoc]
  rw [cellLine, cellLine, h.b, h.g]
  exact Jet1.of_congr fun dx hdx =>
    h.x dx hdx _ (mod_lt_left (div_lt_right hk')) _ (div_lt_right hk)

theorem cellPlane_congr (h : CellAgrees p p' d1d q1d e c e' c') {k : Nat}
    (hk : k < q1d * q1d * d1d) : cellPlane p d1d q1d e c k = cellPlane p' d1d q1d e' c' k := by
  have hk' : k < q1d * (q1d * d1d) := by rwa [← Nat.mul_assoc]
  rw [cellPlane, cellPlane, h.b, h.g]
  refine Jet2.of_congr fun dy hdy => cellLine_congr h ?_
  rw [Nat.mul_assoc]
  exact pair_lt (mod_lt_left hk') (pair_lt hdy (div_lt_right hk))

theorem cellFlux_congr (h : CellAgrees p p' d1d q1d e c e' c') {q : Nat}
    (hq : q < q1d * q1d * q1d) : cellFlux p d1d q1d e c q = cellFlux p' d1d q1d e' c' q := by
  rw [cellFlux, cellFlux, h.op q hq, h.b, h.g]
  refine congrArg _ (Vec3.gradient_congr fun dz hdz => ?_)
  exact cellPlane_congr h (pair_lt (mod_lt_left hq) hdz)

theorem cellTestedX_congr (h : CellAgrees p p' d1d q1d e c e' c') {k : Nat}
    (hk : k < d1d * q1d * q1d) :
    cellTestedX p d1d q1d e c k = cellTestedX p' d1d q1d e' c' k := by
  have hk' : k < d1d * (q1d * q1d) := by rwa [← Nat.mul_assoc]
  rw [cellTestedX, cellTestedX, h.bt, h.gt]
  refine Vec3.testX_congr fun qx hqx => cellFlux_congr h ?_
  rw [Nat.mul_assoc]
  exact pair_lt hqx (div_lt_right hk')

theorem cellTestedXY_congr (h : CellAgrees p p' d1d q1d e c e' c') {k : Nat}
    (hk : k < d1d * d1d * q1d) :
    cellTestedXY p d1d q1d e c k = cellTestedXY p' d1d q1d e' c' k := by
  have hk' : k < d1d * (d1d * q1d) := by rwa [← Nat.mul_assoc]
  rw [cellTestedXY, cellTestedXY, h.bt, h.gt]
  refine Vec3.testY_congr fun qy hqy => cellTestedX_congr h ?_
  rw [Nat.mul_assoc]
  exact pair_lt (mod_lt_left hk') (pair_lt hqy (div_lt_right hk))

/-- **A cell reads the data of its block only.** -/
theorem cellUpdate_congr (h : CellAgrees p p' d1d q1d e c e' c') {i : Nat}
    (hi : i < d1d * d1d * d1d) (v : α) :
    cellUpdate p d1d q1d e c i v = cellUpdate p' d1d q1d e' c' i v := by
  rw [cellUpdate, cellUpdate, h.bt, h.gt]
  refine leftSum_congr v fun qz hqz => ?_
  rw [cellTestedXY_congr h (pair_lt (mod_lt_left hi) hqz)]

omit [Add α] [Mul α] in
/-- Components with the same data are read alike by the plans of their calls. -/
theorem cellAgrees_of_owned {fixed fixed' : FixedSizes} {ne ne' : Nat} {tables : Tables α}
    {op op' x x' y y' : Array α} (hp : CellPlanned p fixed ne tables op x y.size)
    (hp' : CellPlanned p' fixed' ne' tables op' x' y'.size)
    (h : owned (tables.ndof ^ 3) 3 (tables.nqpt ^ 3 * 6) op x y e c =
      owned (tables.ndof ^ 3) 3 (tables.nqpt ^ 3 * 6) op' x' y' e' c') :
    CellAgrees p p' tables.ndof tables.nqpt e c e' c' := by
  have hs := hp.shapes
  have hs' := hp'.shapes
  rw [hp.d1d, hp.q1d] at hs
  rw [hp'.d1d, hp'.q1d] at hs'
  refine ⟨sameTables hp.toHoldsTables hp'.toHoldsTables hs.toTableShapes hs'.toTableShapes, ?_, ?_⟩
  · have hx := congrArg Owned.x h
    simp only [owned, ← hp.x, ← hp'.x] at hx
    exact fun i hi j hj k hk =>
      View.entry_of_stretch [i, j, k] [tables.ndof, tables.ndof, tables.ndof] hs.x hs'.x
        ⟨hi, hj, hk, trivial⟩ (by simpa [volume, flat, pow_succ, Nat.mul_assoc] using hx)
  · have hop := congrArg Owned.op h
    simp only [owned, ← hp.op, ← hp'.op] at hop
    intro q hq
    have hentry : ∀ k < 6, p.op.entry [q, k, e] = p'.op.entry [q, k, e'] := fun k hk =>
      View.entry_of_stretch [q, k] [tables.nqpt * tables.nqpt * tables.nqpt, 6] hs.op hs'.op
        ⟨hq, hk, trivial⟩ (by simpa [volume, flat, pow_succ] using hop)
    rw [Form3.of, Form3.of, hentry 0 (by decide), hentry 1 (by decide), hentry 2 (by decide),
      hentry 3 (by decide), hentry 4 (by decide), hentry 5 (by decide)]

end

/-- The checks of an action on cells look at the lengths of its data only. -/
theorem cellPlan_of_sizes {fixed : FixedSizes} {limits : Limits} {ne : Nat} {tables : Tables α}
    {op op' x x' : Array α} {yLen : Nat} {p : Plan α}
    (h : cellPlan fixed limits ne tables op x yLen = .ok p) (hop : op'.size = op.size)
    (hx : x'.size = x.size) :
    ∃ p', cellPlan fixed limits ne tables op' x' yLen = .ok p' ∧ p'.room = p.room := by
  simp only [cellPlan, bind_eq_ok] at h
  obtain ⟨_, hd, _, hq, _, hlimits, _, hzero, nd, hnd, nq, hnq, n₁, hn₁, _, hopLen, n₂, hn₂,
    _, hxLen, n₃, hn₃, _, hyLen, b, hb, g, hg, bt, hbt, gt, hgt, o, ho, u, hu, r₁, hr₁, r₂, hr₂,
    r₃, hr₃, m, hm, room, hroom, chunk, hchunk, hp⟩ := h
  obtain ⟨o', ho'⟩ := View.ofBuffer_of_size ho hop
  obtain ⟨u', hu'⟩ := View.ofBuffer_of_size hu hx
  -- `x` and `y` are checked against the same product.
  obtain rfl := Except.ok.inj (hn₂.symm.trans hn₃)
  obtain rfl := Except.ok.inj hp
  refine ⟨⟨tables.ndof, tables.nqpt, 3, chunk, room, b, g, bt, gt, o', u'⟩, ?_, rfl⟩
  simp only [cellPlan, hd, hq, hlimits, hzero, hnd, hnq, hop, hn₁, hopLen, hx, hn₂, hxLen, hyLen,
    hb, hg, hbt, hgt, ho', hu', hr₁, hr₂, hr₃, hm, hroom, hchunk, ok_bind]
  rfl

section

variable [Zero α] [Add α] [Mul α] [Stored α] {tables : Tables α} {fixed fixed' : FixedSizes}
  {config config' : Execution} {ne ne' : Nat} {op op' x x' y y' out out' : Array α}

/-- An action on cells that returns has passed its checks and found room. -/
theorem onCells_eq_ok (h : (onCells fixed config ne tables op x).run y = .ok () out) :
    ∃ p, cellPlan fixed config.limits ne tables op x y.size = .ok p ∧
      Stored.bytes α * p.room < Size.bufferBound := by
  rw [onCells, run_bind_ok (run_get y)] at h
  obtain ⟨p, _, hplan, hloop⟩ := run_bind_eq_ok.1 h
  exact ⟨p, (run_ofExcept_eq_ok.1 hplan).1, Size.reserve_eq_ok.1 (reserve_of_forElements hloop)⟩

/-- **Blocks of cells do not interfere**: two calls with the same tables make equal blocks of equal
data, wherever the blocks lie. -/
theorem onCells_decoupled (h : (onCells fixed config ne tables op x).run y = .ok () out)
    (h' : (onCells fixed' config' ne' tables op' x').run y' = .ok () out') {e c e' c' : Nat}
    (hc : c < 3) (hc' : c' < 3)
    (hdata : owned (tables.ndof ^ 3) 3 (tables.nqpt ^ 3 * 6) op x y e c =
      owned (tables.ndof ^ 3) 3 (tables.nqpt ^ 3 * 6) op' x' y' e' c') :
    stretch (tables.ndof ^ 3) out (c + 3 * e) = stretch (tables.ndof ^ 3) out' (c' + 3 * e') := by
  obtain ⟨p, hplan, hroom⟩ := onCells_eq_ok h
  obtain ⟨p', hplan', hroom'⟩ := onCells_eq_ok h'
  have hp := cellPlanned hplan
  have hp' := cellPlanned hplan'
  have hagrees := cellAgrees_of_owned hp hp' hdata
  have hbefore := congrArg Owned.before hdata
  simp only [owned, pow_three'] at hbefore
  rw [onCells_eq hplan hroom, hp.chunk, hp.d1d, hp.q1d] at h
  rw [onCells_eq hplan' hroom', hp'.chunk, hp'.d1d, hp'.q1d] at h'
  cases h
  cases h'
  rw [pow_three']
  exact stretch_updated hc hc' hbefore fun i hi v => cellUpdate_congr hagrees hi v

end

/-! ### Both kernels -/

/-- If one call of `act` returns, so does every other with data of the same lengths, and the two
make equal blocks of equal data. -/
def Decoupled (nd vdim len : Nat) (act : Execution → Array α → Array α → Update α Unit) : Prop :=
  ∀ config config' op op' x x' y y' out, (act config op x).run y = .ok () out →
    config'.limits = config.limits → op'.size = op.size → x'.size = x.size → y'.size = y.size →
    ∃ out', (act config' op' x').run y' = .ok () out' ∧
      ∀ e c e' c', c < vdim → c' < vdim →
        owned nd vdim len op x y e c = owned nd vdim len op' x' y' e' c' →
        stretch nd out (c + vdim * e) = stretch nd out' (c' + vdim * e')

variable [Zero α] [Add α] [Mul α] [Stored α]

/-- A component of a face, in a call that returned. -/
structure FaceBlock (tables : Tables α) where
  fixed : FixedSizes
  config : Execution
  ne : Nat
  vdim : Nat
  op : Array α
  x : Array α
  y : Array α
  out : Array α
  returned : (onFaces fixed config ne tables op x vdim).run y = .ok () out
  e : Nat
  c : Nat
  c_lt : c < vdim

/-- The data that the block is made of. -/
def FaceBlock.data {tables : Tables α} (block : FaceBlock tables) : Owned α :=
  owned (tables.ndof ^ 2) block.vdim (tables.nqpt ^ 2 * 3) block.op block.x block.y block.e block.c

/-- The block after the call. -/
def FaceBlock.after {tables : Tables α} (block : FaceBlock tables) : Array α :=
  stretch (tables.ndof ^ 2) block.out (block.c + block.vdim * block.e)

/-- A component of a cell, in a call that returned. -/
structure CellBlock (tables : Tables α) where
  fixed : FixedSizes
  config : Execution
  ne : Nat
  op : Array α
  x : Array α
  y : Array α
  out : Array α
  returned : (onCells fixed config ne tables op x).run y = .ok () out
  e : Nat
  c : Nat
  c_lt : c < 3

/-- The data that the block is made of. -/
def CellBlock.data {tables : Tables α} (block : CellBlock tables) : Owned α :=
  owned (tables.ndof ^ 3) 3 (tables.nqpt ^ 3 * 6) block.op block.x block.y block.e block.c

/-- The block after the call. -/
def CellBlock.after {tables : Tables α} (block : CellBlock tables) : Array α :=
  stretch (tables.ndof ^ 3) block.out (block.c + 3 * block.e)

/-- **Components and elements never interfere.**  For every pair of tables, on faces and on cells:
a call returns if one with data of the same lengths does, and two blocks, of whatever components and
elements, are equal after the two calls if their data were equal before.  Hence one and the same
function makes every block, in all calls and whatever the number of elements and components. -/
theorem components_decoupled (tables : Tables α) :
    (∀ fixed ne vdim, Decoupled (tables.ndof ^ 2) vdim (tables.nqpt ^ 2 * 3)
      fun config op x => onFaces fixed config ne tables op x vdim) ∧
    (∃ f : Owned α → Array α, ∀ block : FaceBlock tables, block.after = f block.data) ∧
    (∀ fixed ne, Decoupled (tables.ndof ^ 3) 3 (tables.nqpt ^ 3 * 6)
      fun config op x => onCells fixed config ne tables op x) ∧
    ∃ f : Owned α → Array α, ∀ block : CellBlock tables, block.after = f block.data := by
  refine ⟨?_, ?_, ?_, ?_⟩
  · intro fixed ne vdim config config' op op' x x' y y' out h hlimits hop hx hy
    obtain ⟨p, hplan, hroom⟩ := onFaces_eq_ok h
    obtain ⟨p', hplan', hroom'⟩ := facePlan_of_sizes hplan hop hx
    rw [← hlimits, ← hy] at hplan'
    have h' := onFaces_eq hplan' (hroom' ▸ hroom)
    exact ⟨_, h', fun e c e' c' hc hc' hdata => onFaces_decoupled h h' hc hc' hdata⟩
  · -- Equal data makes equal blocks, so the block after a call is a function of its data.
    have hfactors : (FaceBlock.after : FaceBlock tables → Array α).FactorsThrough FaceBlock.data :=
      fun block block' hdata =>
        onFaces_decoupled block.returned block'.returned block.c_lt block'.c_lt hdata
    obtain ⟨f, hf⟩ := (Function.factorsThrough_iff _).1 hfactors
    exact ⟨f, congrFun hf⟩
  · intro fixed ne config config' op op' x x' y y' out h hlimits hop hx hy
    obtain ⟨p, hplan, hroom⟩ := onCells_eq_ok h
    obtain ⟨p', hplan', hroom'⟩ := cellPlan_of_sizes hplan hop hx
    rw [← hlimits, ← hy] at hplan'
    have h' := onCells_eq hplan' (hroom' ▸ hroom)
    exact ⟨_, h', fun e c e' c' hc hc' hdata => onCells_decoupled h h' hc hc' hdata⟩
  · have hfactors : (CellBlock.after : CellBlock tables → Array α).FactorsThrough CellBlock.data :=
      fun block block' hdata =>
        onCells_decoupled block.returned block'.returned block.c_lt block'.c_lt hdata
    obtain ⟨f, hf⟩ := (Function.factorsThrough_iff _).1 hfactors
    exact ⟨f, congrFun hf⟩

/-- One node and one point. -/
def oneNode : Tables Float :=
  ⟨1, 1, #[1], #[1], #[1], #[1]⟩

/-- No number. -/
def noNumber : Float :=
  0 / 0

/-- The first face of one call and the second of another, whose first face holds no number; and the
first component of a cell and the second of another, whose neighbours hold no number. -/
theorem components_decoupled_beside_noNumber :
    (∃ out out',
      (onFaces {} {} 2 oneNode #[1, 2, 3, 4, 5, 6] #[2, 5] 1).run #[1, 0] = .ok () out ∧
      (onFaces {} {} 2 oneNode #[noNumber, noNumber, noNumber, 1, 2, 3] #[noNumber, 2] 1).run
        #[noNumber, 1] = .ok () out' ∧
      stretch 1 out 0 = stretch 1 out' 1) ∧
    ∃ out out',
      (onCells {} {} 1 oneNode #[1, 2, 3, 4, 5, 6] #[2, 5, 7]).run #[1, 0, 0] = .ok () out ∧
      (onCells {} {} 1 oneNode #[1, 2, 3, 4, 5, 6] #[noNumber, 2, noNumber]).run
        #[noNumber, 1, noNumber] = .ok () out' ∧
      stretch 1 out 0 = stretch 1 out' 1 := by
  have hsized : oneNode.Sized := ⟨rfl, rfl, rfl, rfl⟩
  have hfaceSizes : KernelSizes Float 2 1 1 1 2 ({} : Execution).limits 6 2 :=
    ⟨by decide, by decide, by decide, by decide, by decide, by decide, by decide, by decide,
      by decide⟩
  have hcellSizes : KernelSizes Float 3 3 1 1 1 ({} : Execution).limits 6 3 :=
    ⟨by decide, by decide, by decide, by decide, by decide, by decide, by decide, by decide,
      by decide⟩
  obtain ⟨hfaces, -, hcells, -⟩ := components_decoupled oneNode
  refine ⟨?_, ?_⟩
  · obtain ⟨update, hrun⟩ : ∃ update, (onFaces {} {} 2 oneNode #[1, 2, 3, 4, 5, 6] #[2, 5] 1).run
        #[(1 : Float), 0] = .ok () (#[(1 : Float), 0].mapIdx update) := by
      refine onFaces_returns hsized (FixedSizes.agrees_open 1 1 1) ?_ (by simp)
      exact hfaceSizes
    obtain ⟨out', hrun', hblocks⟩ := hfaces {} 2 1 {} {} _ #[noNumber, noNumber, noNumber, 1, 2, 3]
      _ #[noNumber, 2] _ #[noNumber, 1] _ hrun rfl (by simp) (by simp) (by simp)
    have hout := hblocks 0 0 1 0 (by decide) (by decide) (by simp [owned, stretch, oneNode])
    exact ⟨_, out', hrun, hrun', hout⟩
  · obtain ⟨update, hrun⟩ : ∃ update, (onCells {} {} 1 oneNode #[1, 2, 3, 4, 5, 6] #[2, 5, 7]).run
        #[(1 : Float), 0, 0] = .ok () (#[(1 : Float), 0, 0].mapIdx update) := by
      refine onCells_returns hsized (FixedSizes.agrees_open 1 1 3) ?_ (by simp)
      exact hcellSizes
    obtain ⟨out', hrun', hblocks⟩ := hcells {} 1 {} {} _ #[1, 2, 3, 4, 5, 6] _
      #[noNumber, 2, noNumber] _ #[noNumber, 1, noNumber] _ hrun rfl (by simp) (by simp) (by simp)
    have hout := hblocks 0 0 0 1 (by decide) (by decide)
      (by simp [owned, stretch, oneNode, List.take])
    exact ⟨_, out', hrun, hrun', hout⟩

end Action

end TensorDiffusion
