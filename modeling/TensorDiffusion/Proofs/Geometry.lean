import TensorDiffusion.Geometry.Factors
import TensorDiffusion.Proofs.Interpolation
import TensorDiffusion.Proofs.Kernels

/-!
# Geometric factors, in closed form

An element of the loop replaces its chunk by the interpolation of its own nodes (`element_acts`), so
the factors are the same under all settings (`ofNodes_ok`).  The sizes for which they are computed
are `Accepted` (`exists_accepted_iff`).
-/

namespace TensorDiffusion.Geometry

variable {α : Type}

/-! ### Plans -/

/-- The layout of the chunk of an element. -/
abbrev layoutOf (dim sdim q1d : Nat) (want : Quantities) : ChunkLayout :=
  { want, nq := q1d ^ dim, sdim, dim }

/-- The plan of an interpolation of elements with `len` node coordinates in all. -/
def planOf (dim sdim d1d q1d len : Nat) (want : Quantities) : Plan where
  layout := layoutOf dim sdim q1d want
  nd := d1d ^ dim
  ne := len / (d1d ^ dim * sdim)
  chunk := (layoutOf dim sdim q1d want).len

/-- Sizes that pass the checks of an interpolation. -/
structure PlanSizes (dim sdim d1d q1d len : Nat) (want : Quantities) : Prop where
  dim_cases : dim = 2 ∨ dim = 3
  sdim_range : dim ≤ sdim ∧ sdim ≤ 3
  d1d_pos : 0 < d1d
  element_lt : d1d ^ dim * sdim < Size.bound
  whole : len % (d1d ^ dim * sdim) = 0
  points_lt : q1d ^ dim < Size.bound
  chunk_lt : (layoutOf dim sdim q1d want).len < Size.bound

/-- Three extents of which the last two are not empty, multiplied. -/
theorem product_three_ok {a b c : Nat} (hb : 0 < b) (hc : 0 < c) (h : a * b * c < Size.bound) :
    Size.product [a, b, c] = .ok (a * b * c) := by
  have hab : a * b < Size.bound := Nat.lt_of_le_of_lt (Nat.le_mul_of_pos_right _ hc) h
  have ha : 1 * a < Size.bound := by
    rw [Nat.one_mul]
    exact Nat.lt_of_le_of_lt (Nat.le_mul_of_pos_right _ hb) hab
  rw [Size.product, List.foldlM_cons, Size.mul_eq_ok.2 ⟨ha, rfl⟩, ok_bind, Nat.one_mul,
    List.foldlM_cons, Size.mul_eq_ok.2 ⟨hab, rfl⟩, ok_bind, List.foldlM_cons,
    Size.mul_eq_ok.2 ⟨h, rfl⟩, ok_bind, List.foldlM_nil, pure_eq_ok]

/-- Where a chunk has a size, so have its parts. -/
theorem parts_ok {dim sdim q1d : Nat} {want : Quantities} (hdim : 0 < dim) (hsdim : 0 < sdim)
    (h : (layoutOf dim sdim q1d want).len < Size.bound) :
    (if want.jacobians then discard (Size.product [q1d ^ dim, sdim, dim])
      else .ok () : Except Fault Unit) = .ok () ∧
    (if want.coordinates then discard (Size.mul (q1d ^ dim) sdim)
      else .ok () : Except Fault Unit) = .ok () := by
  rw [ChunkLayout.len, ChunkLayout.jacobiansLen, ChunkLayout.coordinatesLen] at h
  refine ⟨?_, ?_⟩
  · by_cases hwant : want.jacobians
    · rw [if_pos hwant] at h
      rw [if_pos hwant, product_three_ok hsdim hdim (Nat.lt_of_le_of_lt (Nat.le_add_right _ _) h)]
      rfl
    · rw [if_neg hwant]
  · by_cases hwant : want.coordinates
    · rw [if_pos hwant (t := _ * _)] at h
      rw [if_pos hwant, Size.mul_eq_ok.2 ⟨Nat.lt_of_le_of_lt (Nat.le_add_left _ _) h, rfl⟩]
      rfl
    · rw [if_neg hwant]

theorem plan_eq_ok {dim sdim len : Nat} {tables : Tables α} {want : Quantities} {p : Plan} :
    plan dim sdim tables len want = .ok p ↔
      PlanSizes dim sdim tables.ndof tables.nqpt len want ∧
        p = planOf dim sdim tables.ndof tables.nqpt len want := by
  have hplan : plan dim sdim tables len want = (do
      require (dim = 2 ∨ dim = 3) .geometryDimension
      require (dim ≤ sdim ∧ sdim ≤ 3) .geometrySpace
      let nd ← Size.pow tables.ndof dim
      let nq ← Size.pow tables.nqpt dim
      let elementSize ← Size.mul nd sdim
      let rest ← Size.rem len elementSize
      require (rest = 0) .nodesShape
      let _ ← (if want.jacobians then discard (Size.product [nq, sdim, dim]) else pure ())
      let _ ← (if want.coordinates then discard (Size.mul nq sdim) else pure ())
      let layout : ChunkLayout := { want, nq, sdim, dim }
      let chunk ← Size.add layout.jacobiansLen layout.coordinatesLen
      return { layout, nd, ne := len / elementSize, chunk }) := by
    obtain ⟨jacobians, coordinates⟩ := want
    cases jacobians <;> cases coordinates <;> rfl
  rw [hplan]
  simp only [bind_eq_ok, pure_eq_ok, require_eq, exists_const, Size.pow_eq_ok, Size.mul_eq_ok,
    Size.add_eq_ok, Size.rem_eq_ok, Except.ok.injEq]
  constructor
  · rintro ⟨hdim, hsdim, nd, ⟨-, rfl⟩, nq, ⟨hnq, rfl⟩, size, ⟨hsize, rfl⟩, rest, ⟨hne, rfl⟩, hrest,
      _, -, _, -, chunk, ⟨hchunk, rfl⟩, rfl⟩
    have hd : tables.ndof ≠ 0 := by
      rintro hd
      rw [hd, Nat.zero_pow (by omega), Nat.zero_mul] at hne
      exact hne rfl
    exact ⟨⟨hdim, hsdim, Nat.pos_of_ne_zero hd, hsize, hrest, hnq, hchunk⟩, rfl⟩
  · rintro ⟨h, rfl⟩
    have hdim : 0 < dim := by have := h.dim_cases; omega
    have hsdim : 0 < sdim := Nat.lt_of_lt_of_le hdim h.sdim_range.1
    have hnd : 0 < tables.ndof ^ dim := Nat.pow_pos h.d1d_pos
    obtain ⟨hjac, hcoord⟩ := parts_ok hdim hsdim h.chunk_lt
    exact ⟨h.dim_cases, h.sdim_range, _,
      ⟨Nat.lt_of_le_of_lt (Nat.le_mul_of_pos_right _ hsdim) h.element_lt, rfl⟩, _,
      ⟨h.points_lt, rfl⟩, _, ⟨h.element_lt, rfl⟩, _, ⟨Nat.ne_of_gt (Nat.mul_pos hnd hsdim), rfl⟩,
      h.whole, (), hjac, (), hcoord, _, ⟨h.chunk_lt, rfl⟩, rfl⟩

/-! ### Elements -/

/-- The coordinates of the nodes fill whole elements. -/
theorem PlanSizes.nodes_size {dim sdim d1d q1d len : Nat} {want : Quantities}
    (h : PlanSizes dim sdim d1d q1d len want) :
    len = (planOf dim sdim d1d q1d len want).ne * (d1d ^ dim * sdim) :=
  (Nat.div_mul_cancel (Nat.dvd_of_mod_eq_zero h.whole)).symm

theorem PlanSizes.sdim_pos {dim sdim d1d q1d len : Nat} {want : Quantities}
    (h : PlanSizes dim sdim d1d q1d len want) : 0 < sdim := by
  have := h.dim_cases
  have := h.sdim_range
  omega

/-- The nodes of an element, cut out of those of all elements. -/
def elementNodes (nodes : Array α) (nd sdim e : Nat) : Array α :=
  nodes.extract (e * nd * sdim) ((e + 1) * nd * sdim)

section

variable {nodes : Array α} {nd sdim ne e : Nat} (hsize : nodes.size = ne * (nd * sdim)) (he : e < ne)

include hsize he

theorem slice_nodes :
    slice nodes (e * nd * sdim) ((e + 1) * nd * sdim) = .ok (elementNodes nodes nd sdim e) := by
  have hle : e * (nd * sdim) + nd * sdim ≤ nodes.size := chunk_le hsize he
  have hstop : (e + 1) * nd * sdim = e * nd * sdim + nd * sdim := by
    rw [Nat.mul_assoc, Nat.succ_mul, Nat.mul_assoc]
  rw [← Nat.mul_assoc] at hle
  rw [elementNodes, hstop]
  exact slice_eq (Nat.le_add_right _ _) hle

theorem size_elementNodes : (elementNodes nodes nd sdim e).size = nd * sdim := by
  have hle : e * (nd * sdim) + nd * sdim ≤ nodes.size := chunk_le hsize he
  rw [elementNodes, Array.size_extract, Nat.mul_assoc, Nat.mul_assoc, Nat.succ_mul]
  omega

theorem getD_elementNodes [Zero α] {s j : Nat} (hs : s < sdim) (hj : j < nd) :
    (elementNodes nodes nd sdim e).getD (j + nd * s) 0 = nodal nd sdim nodes e s j := by
  have hlt : j + nd * s < nd * sdim := pair_lt hj hs
  have hle : e * (nd * sdim) + nd * sdim ≤ nodes.size := chunk_le hsize he
  rw [elementNodes, Nat.mul_assoc, Nat.mul_assoc, Nat.succ_mul, Array.getD_eq_getD_getElem?,
    Array.getElem?_extract, if_pos (by omega), nodal, Array.getD_eq_getD_getElem?]
  refine congrArg (Option.getD · 0) (congrArg (nodes[·]?) ?_)
  calc e * (nd * sdim) + (j + nd * s) = j + (nd * s + nd * (sdim * e)) := by
        rw [Nat.mul_comm e, Nat.mul_assoc]
        omega
    _ = j + nd * (s + sdim * e) := by rw [Nat.mul_add]

/-- The nodes of an element are viewed axis by axis. -/
theorem view_elementNodes [Zero α] {axes : List Nat} (hpos : ∀ n ∈ axes, 0 < n)
    (hnd : volume axes = nd) (hsdim : 0 < sdim) (hfits : nd * sdim < Size.bufferBound) :
    ∃ v, View.ofBuffer (elementNodes nodes nd sdim e) (axes ++ [sdim]) = .ok v ∧
      ∀ s < sdim, ∀ idx, InShape idx axes →
        v.get (idx ++ [s]) = .ok (nodal nd sdim nodes e s (flat idx axes)) := by
  have hshape : ∀ n ∈ axes ++ [sdim], 0 < n := by
    intro n hn
    rcases List.mem_append.1 hn with hn | hn
    · exact hpos n hn
    · rwa [List.mem_singleton.1 hn]
  have hvolume : volume (axes ++ [sdim]) = nd * sdim := by simp [volume_append, volume, hnd]
  obtain ⟨v, hv, hexact, hdata⟩ := View.ofBuffer_exact hshape
    ((size_elementNodes hsize he).trans hvolume.symm) (by rwa [hvolume])
  refine ⟨v, hv, fun s hs idx hidx => ?_⟩
  have hlt : flat idx axes < nd := hnd ▸ flat_lt hidx
  have hall : InShape (idx ++ [s]) (axes ++ [sdim]) := inShape_append hidx ⟨hs, trivial⟩
  have hlast : flat [s] [sdim] = s := by simp [flat]
  rw [hexact.holds.get hall, hdata, flat_append hidx, hnd, hlast,
    getD_elementNodes hsize he hs hlt]

end

variable [Zero α] [Add α] [Mul α] {dim sdim d1d q1d : Nat} {want : Quantities} {nodes : Array α}
  {tables : Tables α} {b g : View α}

/-- The number of entries of the scratch buffer of a worker. -/
def scratchSize (d1d q1d : Nat) : Nat :=
  2 * q1d * d1d * d1d + 3 * q1d * q1d * d1d

/-- An element is its nodes, interpolated to the two parts of its chunk. -/
theorem element_eq (h : PlanSizes dim sdim d1d q1d nodes.size want)
    {scratch chunk jacobians coordinates : Array α} {e : Nat}
    (he : e < (planOf dim sdim d1d q1d nodes.size want).ne)
    (hcut : cut chunk (layoutOf dim sdim q1d want).jacobiansLen = .ok (jacobians, coordinates)) :
    element tables (planOf dim sdim d1d q1d nodes.size want) nodes scratch e chunk =
      if dim = 2 then
        interpolateFace tables (layoutOf dim sdim q1d want)
          (elementNodes nodes (d1d ^ dim) sdim e) scratch jacobians coordinates
      else
        interpolateCell tables (layoutOf dim sdim q1d want)
          (elementNodes nodes (d1d ^ dim) sdim e) scratch jacobians coordinates := by
  show (slice nodes (e * d1d ^ dim * sdim) ((e + 1) * d1d ^ dim * sdim) >>= fun _ =>
    cut chunk (layoutOf dim sdim q1d want).jacobiansLen >>= fun _ => _) = _
  rw [slice_nodes h.nodes_size he, ok_bind, hcut]
  rfl

/-- **An element replaces its chunk** by the interpolation of its own nodes, whatever the scratch
buffer held. -/
theorem element_acts (hd1d : tables.ndof = d1d) (hq1d : tables.nqpt = q1d)
    (h : PlanSizes dim sdim d1d q1d nodes.size want) (hq : 0 < q1d)
    (hb : View.ofBuffer tables.b [q1d, d1d] = .ok b)
    (hg : View.ofBuffer tables.g [q1d, d1d] = .ok g)
    (hview : d1d ^ dim * sdim < Size.bufferBound)
    (hscratch : scratchSize d1d q1d < Size.bufferBound) :
    let p := planOf dim sdim d1d q1d nodes.size want
    p.chunk < Size.bufferBound →
    ActsBy p.chunk p.ne (fun scratch : Array α => scratch.size = scratchSize d1d q1d)
      (element tables p nodes)
      fun e n _ => interpolated dim d1d q1d b g p.layout (nodal p.nd sdim nodes e) n := by
  intro p hfits scratch e chunk hsize he hchunk
  have hnodes : nodes.size = p.ne * (d1d ^ dim * sdim) := h.nodes_size
  have hsdim := h.sdim_pos
  have hd := h.d1d_pos
  have hplanes : 2 * (q1d * d1d * d1d) + 3 * (q1d * q1d * d1d) ≤ scratchSize d1d q1d := by
    simp only [scratchSize, Nat.mul_assoc, Nat.le_refl]
  have hlines : 2 * (q1d * d1d) ≤ scratchSize d1d q1d := by
    have hle : q1d * d1d ≤ q1d * d1d * d1d := Nat.le_mul_of_pos_right _ hd
    omega
  obtain ⟨jacobians, coordinates, hcut, hjacobians, hcoordinates⟩ := cut_ok hchunk
  suffices hrun : ∃ scratch', scratch'.size = scratch.size ∧
      element tables p nodes scratch e chunk = .ok (scratch', Array.ofFn fun n : Fin p.chunk =>
        interpolated dim d1d q1d b g p.layout (nodal p.nd sdim nodes e) n) by
    obtain ⟨scratch', hkept, hrun⟩ := hrun
    exact ⟨scratch', hkept.trans hsize, hrun.trans (by rw [mapIdx_eq_ofFn hchunk])⟩
  have hroom : ∀ needed ≤ scratchSize d1d q1d,
      ElementRoom p.layout needed scratch jacobians coordinates :=
    fun needed hle => ⟨hsize ▸ hle, hsize ▸ hscratch, hjacobians, hcoordinates, hfits⟩
  rcases h.dim_cases with rfl | rfl
  · have hvolume : volume [d1d, d1d] = d1d ^ 2 := by simp [volume, Nat.pow_two]
    obtain ⟨v, hv, hget⟩ := view_elementNodes hnodes he (by simp [hd]) hvolume hsdim hview
    obtain ⟨scratch', hkept, hrun⟩ := interpolateFace_ok p.layout hd1d hq1d hb hg hsdim hq
      (Nat.pow_two _) rfl (hroom _ hlines) (Nat.pow_two q1d ▸ h.points_lt) hv fun s hs dx hdx dy hdy =>
        hget s hs [dx, dy] ⟨hdx, hdy, trivial⟩
    exact ⟨scratch', hkept, (element_eq h he hcut).trans hrun⟩
  · have hcube (n : Nat) : n ^ 3 = n * (n * n) := by rw [Nat.pow_succ, Nat.pow_two, Nat.mul_comm]
    have hvolume : volume [d1d, d1d, d1d] = d1d ^ 3 := by simp [volume, hcube]
    obtain ⟨v, hv, hget⟩ := view_elementNodes hnodes he (by simp [hd]) hvolume hsdim hview
    obtain ⟨scratch', hkept, hrun⟩ := interpolateCell_ok p.layout hd1d hq1d hb hg hsdim hq hd
      (hcube _) rfl (hroom _ hplanes) (hcube q1d ▸ h.points_lt) hv fun s hs dx hdx dy hdy dz hdz =>
        hget s hs [dx, dy, dz] ⟨hdx, hdy, hdz, trivial⟩
    exact ⟨scratch', hkept, (element_eq h he hcut).trans hrun⟩

/-! ### All elements -/

/-- What the loop over elements asks for: an element that can be viewed, room for a workspace, and
tables that are as large as they are read. -/
structure LoopSizes [Stored α] (dim sdim : Nat) (tables : Tables α) : Prop where
  element_lt : tables.ndof ^ dim * sdim < Size.bufferBound
  room : Stored.bytes α * scratchSize tables.ndof tables.nqpt < Size.bufferBound
  b : tables.nqpt * tables.ndof ≤ tables.b.size
  g : tables.nqpt * tables.ndof ≤ tables.g.size

section

variable [Stored α] (h : LoopSizes dim sdim tables) (hd : 0 < tables.ndof)
  (hq : 0 < tables.nqpt)

include h hd hq

omit [Zero α] [Add α] [Mul α] in
theorem LoopSizes.scratchLen_ok :
    scratchLen tables.ndof tables.nqpt = .ok (scratchSize tables.ndof tables.nqpt) := by
  have hlt := lt_of_bytes h.room
  rw [scratchSize] at hlt
  have hpos : ∀ k ∈ [2, tables.nqpt, tables.ndof], 0 < k := by simp [hd, hq]
  have hpos' : ∀ k ∈ [3, tables.nqpt, tables.nqpt], 0 < k := by simp [hq]
  have hmax : max 1 tables.ndof = tables.ndof := Nat.max_eq_right hd
  have hlines : Size.product [2, tables.nqpt, tables.ndof, tables.ndof] =
      .ok (2 * tables.nqpt * tables.ndof * tables.ndof) :=
    Size.product_elements hpos (by simp [volume, Nat.mul_assoc]) rfl (by rw [hmax]; omega)
  have hplanes : Size.product [3, tables.nqpt, tables.nqpt, tables.ndof] =
      .ok (3 * tables.nqpt * tables.nqpt * tables.ndof) :=
    Size.product_elements hpos' (by simp [volume, Nat.mul_assoc]) rfl (by rw [hmax]; omega)
  rw [scratchLen, hlines, ok_bind, hplanes, ok_bind, Size.add_ok hlt, scratchSize]

omit [Zero α] [Add α] [Mul α] in
/-- The tables are viewed point by node. -/
theorem LoopSizes.views :
    ∃ b g, View.ofBuffer tables.b [tables.nqpt, tables.ndof] = .ok b ∧
      View.ofBuffer tables.g [tables.nqpt, tables.ndof] = .ok g := by
  have hlt := lt_of_bytes h.room
  rw [scratchSize] at hlt
  have hvolume : volume [tables.nqpt, tables.ndof] = tables.nqpt * tables.ndof := by simp [volume]
  have hfits : nonemptyVolume [tables.nqpt, tables.ndof] < Size.bufferBound := by
    have hle : tables.nqpt * tables.ndof ≤ 2 * tables.nqpt * tables.ndof * tables.ndof := by
      rw [Nat.mul_assoc 2, Nat.mul_comm 2, Nat.mul_assoc]
      exact Nat.le_mul_of_pos_right _ (Nat.mul_pos (by decide) hd)
    rw [nonemptyVolume_cons, nonemptyVolume_cons, nonemptyVolume_nil, Nat.mul_one,
      Nat.max_eq_right hq, Nat.max_eq_right hd]
    omega
  have hb := View.ofBuffer_ok (hvolume ▸ h.b) hfits
  have hg := View.ofBuffer_ok (hvolume ▸ h.g) hfits
  exact ⟨_, _, hb, hg⟩

end

theorem fill_eq_ok {β : Type} {update : Update β Unit} {buf out : Array β} :
    update.fill buf = .ok out ↔ update.run buf = .ok () out := by
  rw [Update.fill]
  split
  · next h => rw [h]; exact ⟨fun h => by rw [Except.ok.inj h], fun h => by cases h; rfl⟩
  · next h => rw [h]; exact ⟨fun h => (nomatch h), fun h => (nomatch h)⟩

/-- The chunks of all elements. -/
def chunksOf (tables : Tables α) (b g : View α) (p : Plan) (nodes : Array α) : Array α :=
  Array.ofFn fun n : Fin (p.chunk * p.ne) =>
    interpolated p.layout.dim tables.ndof tables.nqpt b g p.layout
      (nodal p.nd p.layout.sdim nodes (n / p.chunk)) (n % p.chunk)

/-- Sizes that an interpolation of all elements accepts. -/
structure Accepted [Stored α] (dim sdim : Nat) (tables : Tables α) (len : Nat) (want : Quantities)
    (p : Plan) : Prop where
  plan : Geometry.plan dim sdim tables len want = .ok p
  wanted : want.jacobians ∨ want.coordinates → 0 < tables.nqpt
  room : Stored.bytes α * (p.chunk * p.ne) < Size.bufferBound
  loop : 0 < p.chunk → 0 < p.ne → LoopSizes dim sdim tables

omit [Zero α] [Add α] [Mul α] in
/-- Without points a chunk is empty. -/
theorem nqpt_pos {p : Plan} (h : PlanSizes dim sdim d1d q1d nodes.size want)
    (hp : p = planOf dim sdim d1d q1d nodes.size want) (hchunk : 0 < p.chunk) : 0 < q1d := by
  refine Nat.pos_of_ne_zero fun hq => Nat.ne_of_gt hchunk ?_
  have hdim : dim ≠ 0 := by have := h.dim_cases; omega
  simp [hp, planOf, ChunkLayout.len, ChunkLayout.jacobiansLen, ChunkLayout.coordinatesLen, hq, hdim]

section

variable [Stored α] {p : Plan}

/-- **The loop over elements** fills every chunk, whatever the settings. -/
theorem chunks_eq {config : Execution} (h : Accepted dim sdim tables nodes.size want p)
    (hchunk : 0 < p.chunk) (hne : 0 < p.ne)
    (hb : View.ofBuffer tables.b [tables.nqpt, tables.ndof] = .ok b)
    (hg : View.ofBuffer tables.g [tables.nqpt, tables.ndof] = .ok g) :
    chunks tables p nodes config = .ok (chunksOf tables b g p nodes) := by
  obtain ⟨hsizes, rfl⟩ := plan_eq_ok.1 h.plan
  have hq := nqpt_pos hsizes rfl hchunk
  have hloop := h.loop hchunk hne
  have hfits : (planOf dim sdim tables.ndof tables.nqpt nodes.size want).chunk < Size.bufferBound :=
    Nat.lt_of_le_of_lt (Nat.le_mul_of_pos_right _ hne) (lt_of_bytes h.room)
  have hacts := element_acts rfl rfl hsizes hq hb hg hloop.element_lt (lt_of_bytes hloop.room) hfits
  have hreserve : (Workspace.scratch (α := α) (scratchSize tables.ndof tables.nqpt)).reserve =
      .ok () := Size.reserve_eq_ok.2 hloop.room
  rw [chunks, Size.mul_ok (lt_of_bytes h.room), ok_bind, Size.reserve_eq_ok.2 h.room, ok_bind,
    if_pos ⟨hchunk, hne⟩, hloop.scratchLen_ok hsizes.d1d_pos hq, ok_bind]
  dsimp only
  rw [filled_ok h.room, ok_bind]
  refine (fill_eq_ok.2 (forElements_eq hacts hchunk hreserve Array.size_replicate ?_)).trans ?_
  · rw [Array.size_replicate, Nat.mul_comm]
  · rw [mapIdx_eq_ofFn Array.size_replicate]
    rfl

omit [Stored α] in
theorem size_chunksOf :
    (chunksOf tables b g p nodes).size = p.ne * p.chunk :=
  Array.size_ofFn.trans (Nat.mul_comm _ _)

/-- Interpolation returns the same chunks under all settings. -/
theorem chunks_ok (h : Accepted dim sdim tables nodes.size want p) :
    ∃ out, out.size = p.ne * p.chunk ∧ ∀ config, chunks tables p nodes config = .ok out := by
  by_cases hany : 0 < p.chunk ∧ 0 < p.ne
  · obtain ⟨hsizes, hp⟩ := plan_eq_ok.1 h.plan
    have hq := nqpt_pos hsizes hp hany.1
    obtain ⟨b, g, hb, hg⟩ := (h.loop hany.1 hany.2).views hsizes.d1d_pos hq
    exact ⟨_, size_chunksOf, fun config => chunks_eq h hany.1 hany.2 hb hg⟩
  · have hnone : p.ne * p.chunk = 0 := by
      rcases Nat.eq_zero_or_pos p.chunk with hchunk | hchunk
      · rw [hchunk, Nat.mul_zero]
      · rcases Nat.eq_zero_or_pos p.ne with hne | hne
        · rw [hne, Nat.zero_mul]
        · exact absurd ⟨hchunk, hne⟩ hany
    refine ⟨#[], hnone.symm, fun config => ?_⟩
    rw [chunks, Size.mul_ok (lt_of_bytes h.room), ok_bind, Size.reserve_eq_ok.2 h.room, ok_bind,
      if_neg hany]
    rfl

end

/-! ### Taking chunks apart -/

omit [Add α] [Mul α] in
theorem extract_eq_ofFn {buf : Array α} {start len : Nat} (h : start + len ≤ buf.size) :
    buf.extract start (start + len) = Array.ofFn fun k : Fin len => buf.getD (start + k) 0 := by
  refine Array.ext (by rw [Array.size_extract, Array.size_ofFn]; omega) fun k hk hk' => ?_
  have hlt : start + k < buf.size := by
    rw [Array.size_ofFn] at hk'
    omega
  rw [Array.getElem_extract, Array.getElem_ofFn, ← Array.getElem_eq_getD]

omit [Add α] [Mul α] in
/-- **A part of every chunk is taken**, one after the other. -/
theorem parts_eq {buf : Array α} {chunk ne start len : Nat} (hchunk : 0 < chunk)
    (hbuf : buf.size = ne * chunk) (hpart : start + len ≤ chunk) :
    parts buf chunk start len = .ok (Array.ofFn fun n : Fin (len * ne) =>
      buf.getD (n / len * chunk + start + n % len) 0) := by
  have hfold : ∀ m ≤ ne, (List.range m).foldlM (fun out e => do
      return out ++ (← slice buf (e * chunk + start) (e * chunk + start + len))) #[] =
      Except.ok (Array.ofFn fun n : Fin (len * m) =>
        buf.getD (n / len * chunk + start + n % len) 0) := by
    intro m
    induction m with
    | zero => exact fun _ => congrArg Except.ok (Array.ofFn_zero ..).symm
    | succ m ih =>
      intro hm
      have hstop : m * chunk + start + len ≤ buf.size := by
        have hle : m * chunk + chunk ≤ buf.size := chunk_le hbuf hm
        omega
      have hlast : (Array.ofFn fun k : Fin len => buf.getD (m * chunk + start + k) 0) =
          Array.ofFn fun k : Fin len =>
            buf.getD ((len * m + k) / len * chunk + start + (len * m + k) % len) 0 := by
        refine congrArg Array.ofFn (funext fun k => ?_)
        rw [Nat.add_comm (len * m), pair_div m k.isLt, pair_mod m k.isLt]
      rw [List.range_succ, List.foldlM_append, ih (Nat.le_of_succ_le hm), ok_bind,
        List.foldlM_cons, slice_eq (Nat.le_add_right _ _) hstop, ok_bind,
        extract_eq_ofFn hstop, hlast]
      exact congrArg Except.ok (Array.ofFn_add (f := fun n : Fin (len * m + len) =>
        buf.getD (n / len * chunk + start + n % len) 0)).symm
  rw [parts, require_eq_ok.2 (Nat.ne_of_gt hchunk), ok_bind, hbuf, Nat.mul_div_cancel _ hchunk]
  exact hfold ne (Nat.le_refl ne)

/-! ### The factors -/

/-- Factors with an entry for every point of every element. -/
structure Sized (geometry : Geometry α) (dim sdim nq ne : Nat) (want : Quantities) : Prop where
  jacobians : want.jacobians → ∃ j, geometry.jacobians = some j ∧ j.size = nq * sdim * dim * ne
  coordinates : want.coordinates → ∃ x, geometry.coordinates = some x ∧ x.size = nq * sdim * ne
  dim : geometry.dim = dim
  sdim : geometry.sdim = sdim
  nq : geometry.nq = nq
  ne : geometry.ne = ne

omit [Add α] [Mul α] in
/-- A quantity is taken from every chunk if it is wanted. -/
theorem wanted_ok {out : Array α} {chunk ne : Nat} (wanted : Bool) (start len : Nat)
    (hchunk : wanted → 0 < chunk) (hout : out.size = ne * chunk) (hpart : start + len ≤ chunk) :
    ∃ part, (if wanted then some <$> parts out chunk start len else pure none :
        Except Fault (Option (Array α))) = .ok part ∧
      (wanted → ∃ a, part = some a ∧ a.size = ne * len) := by
  cases wanted with
  | false => exact ⟨none, rfl, fun h => nomatch h⟩
  | true =>
    refine ⟨_, by rw [if_pos rfl, parts_eq (hchunk rfl) hout hpart]; rfl, fun _ => ⟨_, rfl, ?_⟩⟩
    rw [Array.size_ofFn, Nat.mul_comm]

/-- Takes the chunks of all elements apart. -/
def split (dim sdim : Nat) (want : Quantities) (p : Plan) (out : Array α) :
    Except Fault (Geometry α) := do
  let jacobians ← (if want.jacobians then some <$> parts out p.chunk 0 p.layout.jacobiansLen
    else pure none)
  let coordinates ← (if want.coordinates then
      some <$> parts out p.chunk p.layout.jacobiansLen p.layout.coordinatesLen
    else pure none)
  return { dim, sdim, nq := p.layout.nq, ne := p.ne, jacobians, coordinates }

/-- The factors are taken from the chunks of all elements. -/
theorem ofNodes_eq_split [Stored α] (tables : Tables α) (config : Execution) :
    ofNodes dim sdim tables nodes want config = (do
      let p ← plan dim sdim tables nodes.size want
      let out ← chunks tables p nodes config
      split dim sdim want p out) := by
  obtain ⟨jacobians, coordinates⟩ := want
  cases jacobians <;> cases coordinates <;> rfl

/-- **The factors of accepted sizes** are computed, and are the same under all settings. -/
theorem ofNodes_ok [Stored α] {p : Plan}
    (h : Accepted dim sdim tables nodes.size want p) :
    ∃ out geometry, geometry.Sized dim sdim (tables.nqpt ^ dim) p.ne want ∧
      split dim sdim want p out = .ok geometry ∧ ∀ config,
        chunks tables p nodes config = .ok out ∧
        ofNodes dim sdim tables nodes want config = .ok geometry := by
  obtain ⟨out, hout, hchunks⟩ := chunks_ok h
  obtain ⟨hsizes, hp⟩ := plan_eq_ok.1 h.plan
  have hlayout : p.layout = layoutOf dim sdim tables.nqpt want := by rw [hp]; rfl
  have hlen : p.chunk = p.layout.jacobiansLen + p.layout.coordinatesLen := by rw [hp]; rfl
  have hdim : 0 < dim := by have := hsizes.dim_cases; omega
  have hpos : want.jacobians ∨ want.coordinates → 0 < p.chunk := by
    intro hwant
    have hpoints : 0 < tables.nqpt ^ dim * sdim :=
      Nat.mul_pos (Nat.pow_pos (h.wanted hwant)) hsizes.sdim_pos
    rw [hlen, hlayout, ChunkLayout.jacobiansLen, ChunkLayout.coordinatesLen]
    rcases hwant with hj | hx
    · rw [if_pos hj]
      exact Nat.lt_of_lt_of_le (Nat.mul_pos hpoints hdim) (Nat.le_add_right _ _)
    · rw [if_pos hx (t := _ * _)]
      exact Nat.lt_of_lt_of_le hpoints (Nat.le_add_left _ _)
  obtain ⟨jacobians, hj, hjsize⟩ := wanted_ok want.jacobians 0
    p.layout.jacobiansLen (fun hw => hpos (.inl hw)) hout (by omega)
  obtain ⟨coordinates, hx, hxsize⟩ := wanted_ok want.coordinates
    p.layout.jacobiansLen p.layout.coordinatesLen (fun hw => hpos (.inr hw))
    hout (by omega)
  have hsplit : split dim sdim want p out =
      .ok ⟨dim, sdim, tables.nqpt ^ dim, p.ne, jacobians, coordinates⟩ := by
    rw [split, hj, ok_bind, hx, ok_bind, hlayout]
    rfl
  refine ⟨out, _, ⟨fun hw => ?_, fun hw => ?_, rfl, rfl, rfl, rfl⟩, hsplit, fun config =>
    ⟨hchunks config, ?_⟩⟩
  · obtain ⟨a, ha, hsize⟩ := hjsize hw
    refine ⟨a, ha, ?_⟩
    rw [hsize, hlayout, ChunkLayout.jacobiansLen, if_pos hw, Nat.mul_comm]
  · obtain ⟨a, ha, hsize⟩ := hxsize hw
    refine ⟨a, ha, ?_⟩
    rw [hsize, hlayout, ChunkLayout.coordinatesLen, if_pos hw, Nat.mul_comm]
  · rw [ofNodes_eq_split, h.plan, ok_bind, hchunks config, ok_bind, hsplit]

/-! ### Factors that were computed -/

omit [Zero α] [Add α] [Mul α] in
/-- A table that is viewed is as large as it is read. -/
theorem table_le_of_view {table : Array α} {v : View α}
    (h : View.ofBuffer table [q1d, d1d] = .ok v) : q1d * d1d ≤ table.size := by
  obtain ⟨-, rfl, hshape⟩ := View.ofBuffer_eq_ok.1 h
  simpa [hshape, volume] using v.fits

/-- An element that is interpolated is viewed, and so are the tables. -/
theorem element_sizes_of_ok {p : Plan}
    (h : PlanSizes dim sdim tables.ndof tables.nqpt nodes.size want)
    (hp : p = planOf dim sdim tables.ndof tables.nqpt nodes.size want) {scratch chunk : Array α}
    {e : Nat} {r : Array α × Array α} (hrun : element tables p nodes scratch e chunk = .ok r) :
    tables.ndof ^ dim * sdim < Size.bufferBound ∧
      tables.nqpt * tables.ndof ≤ tables.b.size ∧ tables.nqpt * tables.ndof ≤ tables.g.size := by
  subst hp
  have hd := h.d1d_pos
  have hsdim := h.sdim_pos
  obtain ⟨part, -, hrun⟩ := bind_eq_ok.1 hrun
  obtain ⟨⟨jacobians, coordinates⟩, -, hrun⟩ := bind_eq_ok.1 hrun
  rcases h.dim_cases with rfl | rfl
  · obtain ⟨b, hb, hrun⟩ := bind_eq_ok.1 (show interpolateFace tables _ part scratch jacobians
      coordinates = .ok r from hrun)
    obtain ⟨g, hg, hrun⟩ := bind_eq_ok.1 hrun
    obtain ⟨v, hv, -⟩ := bind_eq_ok.1 hrun
    have hlt : nonemptyVolume [tables.ndof, tables.ndof, sdim] < Size.bufferBound :=
      (View.ofBuffer_eq_ok.1 hv).1
    rw [nonemptyVolume_of_pos (by simp [hd, hsdim])] at hlt
    exact ⟨by simpa [volume, Nat.pow_two, Nat.mul_assoc] using hlt, table_le_of_view hb,
      table_le_of_view hg⟩
  · obtain ⟨nq, -, hrun⟩ := bind_eq_ok.1 (show interpolateCell tables _ part scratch jacobians
      coordinates = .ok r from hrun)
    obtain ⟨b, hb, hrun⟩ := bind_eq_ok.1 hrun
    obtain ⟨g, hg, hrun⟩ := bind_eq_ok.1 hrun
    obtain ⟨v, hv, -⟩ := bind_eq_ok.1 hrun
    have hlt : nonemptyVolume [tables.ndof, tables.ndof, tables.ndof, sdim] < Size.bufferBound :=
      (View.ofBuffer_eq_ok.1 hv).1
    rw [nonemptyVolume_of_pos (by simp [hd, hsdim])] at hlt
    exact ⟨by simpa [volume, Nat.pow_succ, Nat.mul_assoc] using hlt, table_le_of_view hb,
      table_le_of_view hg⟩

omit [Zero α] [Add α] [Mul α] in
theorem chunk_pos_of_parts {buf out : Array α} {chunk start len : Nat}
    (h : parts buf chunk start len = .ok out) : 0 < chunk := by
  obtain ⟨_, hchunk, -⟩ := bind_eq_ok.1 (show _ >>= _ = _ from h)
  exact Nat.pos_of_ne_zero (require_eq_ok.1 hchunk)

omit [Zero α] [Add α] [Mul α] in
theorem chunk_pos_of_split {p : Plan} {out : Array α} {geometry : Geometry α}
    (h : split dim sdim want p out = .ok geometry) (hwant : want.jacobians ∨ want.coordinates) :
    0 < p.chunk := by
  obtain ⟨j, hj, h⟩ := bind_eq_ok.1 h
  obtain ⟨x, hx, -⟩ := bind_eq_ok.1 h
  rcases hwant with hw | hw
  · rw [if_pos hw, map_eq_pure_bind] at hj
    obtain ⟨_, hparts, -⟩ := bind_eq_ok.1 hj
    exact chunk_pos_of_parts hparts
  · rw [if_pos hw, map_eq_pure_bind] at hx
    obtain ⟨_, hparts, -⟩ := bind_eq_ok.1 hx
    exact chunk_pos_of_parts hparts

/-- Sizes are accepted where the factors are computed, under any settings. -/
theorem accepted_of_ofNodes [Stored α] {config : Execution}
    {geometry : Geometry α} (h : ofNodes dim sdim tables nodes want config = .ok geometry) :
    ∃ p, Accepted dim sdim tables nodes.size want p := by
  rw [ofNodes_eq_split] at h
  obtain ⟨p, hplan, h⟩ := bind_eq_ok.1 h
  obtain ⟨out, hchunks, hsplit⟩ := bind_eq_ok.1 h
  obtain ⟨hsizes, hp⟩ := plan_eq_ok.1 hplan
  rw [chunks] at hchunks
  obtain ⟨total, htotal, hchunks⟩ := bind_eq_ok.1 hchunks
  obtain ⟨-, rfl⟩ := Size.mul_eq_ok.1 htotal
  obtain ⟨_, hroom, hchunks⟩ := bind_eq_ok.1 hchunks
  refine ⟨p, hplan, fun hwant => nqpt_pos hsizes hp (chunk_pos_of_split hsplit hwant),
    Size.reserve_eq_ok.1 hroom, fun hchunk hne => ?_⟩
  rw [if_pos ⟨hchunk, hne⟩] at hchunks
  obtain ⟨len, hlen, hchunks⟩ := bind_eq_ok.1 hchunks
  obtain ⟨blank, hblank, hchunks⟩ := bind_eq_ok.1 hchunks
  obtain ⟨_, -, hfilled⟩ := bind_eq_ok.1 (show _ >>= _ = _ from hblank)
  obtain rfl := Except.ok.inj hfilled
  have he : 0 < (Array.replicate (p.chunk * p.ne) (0 : α)).size / p.chunk := by
    rwa [Array.size_replicate, Nat.mul_div_cancel_left _ hchunk]
  have hworkspace := reserve_of_forElements (fill_eq_ok.1 hchunks)
  obtain ⟨own, chunk, r, hbody⟩ := forElements_body_ok (fill_eq_ok.1 hchunks) he
  obtain ⟨helement, hb, hg⟩ := element_sizes_of_ok hsizes hp hbody
  obtain ⟨lines, hlines, hlen⟩ := bind_eq_ok.1 (show _ >>= _ = _ from hlen)
  obtain ⟨planes, hplanes, hlen⟩ := bind_eq_ok.1 hlen
  obtain ⟨-, rfl⟩ := Size.add_eq_ok.1 hlen
  have hlen' : lines + planes = scratchSize tables.ndof tables.nqpt := by
    rw [Size.product_eq hlines, Size.product_eq hplanes]
    simp [scratchSize, volume, Nat.mul_assoc]
  exact ⟨helement, hlen' ▸ Size.reserve_eq_ok.1 hworkspace, hb, hg⟩

/-- Factors that were computed have an entry for every point of every element. -/
theorem sized_of_ofNodes [Stored α] {config : Execution}
    {geometry : Geometry α} (h : ofNodes dim sdim tables nodes want config = .ok geometry) :
    geometry.Sized dim sdim (tables.nqpt ^ dim) (nodes.size / (tables.ndof ^ dim * sdim)) want := by
  obtain ⟨p, haccepted⟩ := accepted_of_ofNodes h
  obtain ⟨-, hp⟩ := plan_eq_ok.1 haccepted.plan
  obtain ⟨_, geometry', hsized, -, hrun⟩ := ofNodes_ok haccepted
  obtain rfl := Except.ok.inj (h.symm.trans (hrun config).2)
  rwa [hp] at hsized

/-- The accepted sizes are those for which the factors are computed. -/
theorem exists_accepted_iff [Stored α] {config : Execution} :
    (∃ p, Accepted dim sdim tables nodes.size want p) ↔
      ∃ geometry, ofNodes dim sdim tables nodes want config = .ok geometry := by
  constructor
  · rintro ⟨p, h⟩
    obtain ⟨_, geometry, -, -, hrun⟩ := ofNodes_ok h
    exact ⟨geometry, (hrun config).2⟩
  · rintro ⟨geometry, h⟩
    exact accepted_of_ofNodes h

end TensorDiffusion.Geometry
