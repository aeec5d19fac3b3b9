import TensorDiffusion.Proofs.Isolation
import TensorDiffusion.Proofs.NodalSums

/-!
# One pass for Jacobians and coordinates

A pass over the elements packs what is wanted of each into one chunk, the Jacobians before the
coordinates, and the chunks are taken apart afterwards, at places that depend on what is wanted.
The packing loses nothing (`Geometry.pass_loses_nothing`): the pass for both quantities gives the
arrays that the passes for one of them give, of exactly the lengths of the layouts, and the part of
an element in them is what a pass over the nodes of this element alone gives.

No law of arithmetic is used.

* `Geometry.ofNodes_returns_iff_fits`: the sizes at which a pass returns.
* `Geometry.ofNodes_only`: the part of an element.
* `Geometry.ofNodes_restrict`: a pass for more, restricted, is the pass for less.
-/

namespace TensorDiffusion

/-! ### Fields that agree at the nodes -/

namespace Interpolation

variable {α : Type} [Zero α] [Add α] [Mul α] {dim d1d q1d q k n : Nat} {b g table : View α}
  {tables : Nat → View α} {x x' : Nat → α}

/-- A line reads its own nodes. -/
theorem alongX_congr (hk : k < q1d * n) (h : ∀ j < d1d * n, x j = x' j) :
    alongX d1d q1d table x k = alongX d1d q1d table x' k :=
  rowSum_congr fun _ hdx => h _ (pair_lt hdx (div_lt_right hk))

/-- So does a line of lines. -/
theorem alongY_congr (hk : k < q1d * q1d * n) (h : ∀ j < q1d * (d1d * n), x j = x' j) :
    alongY d1d q1d table x k = alongY d1d q1d table x' k := by
  have hplane : k / (q1d * q1d) < n := div_lt_right hk
  rw [Nat.mul_assoc] at hk
  exact rowSum_congr fun dy hdy => h _ (pair_lt (mod_lt_left hk) (pair_lt hdy hplane))

/-- A line of planes reads its own planes. -/
theorem alongZ_congr (hq : q < q1d * q1d * q1d) (h : ∀ j < q1d * q1d * d1d, x j = x' j) :
    alongZ d1d q1d table x q = alongZ d1d q1d table x' q :=
  rowSum_congr fun _ hdz => h _ (pair_lt (mod_lt_left hq) hdz)

/-- A contraction of all axes reads the nodes. -/
theorem contracted_congr (hdim : dim = 2 ∨ dim = 3) (hq : q < q1d ^ dim)
    (h : ∀ n < d1d ^ dim, x n = x' n) :
    contracted dim d1d q1d tables x q = contracted dim d1d q1d tables x' q := by
  rcases hdim with rfl | rfl
  · rw [contracted, contracted, if_pos rfl, if_pos rfl]
    rw [Nat.pow_two, ← Nat.mul_one (q1d * q1d)] at hq
    refine alongY_congr hq fun k hk => alongX_congr hk fun j hj => h j ?_
    rwa [Nat.mul_one, ← Nat.pow_two] at hj
  · rw [contracted, contracted, if_neg (by decide), if_neg (by decide)]
    rw [pow_three'] at hq
    refine alongZ_congr hq fun l hl => alongY_congr hl fun k hk => alongX_congr hk fun j hj => h j ?_
    rwa [pow_three]

/-- The value of a field depends on its values at the nodes. -/
theorem value_congr (hdim : dim = 2 ∨ dim = 3) (hq : q < q1d ^ dim)
    (h : ∀ n < d1d ^ dim, x n = x' n) :
    value dim d1d q1d b x q = value dim d1d q1d b x' q :=
  contracted_congr hdim hq h

/-- So do its derivatives. -/
theorem derivative_congr (hdim : dim = 2 ∨ dim = 3) (hq : q < q1d ^ dim)
    (h : ∀ n < d1d ^ dim, x n = x' n) (k : Nat) :
    derivative dim d1d q1d b g x q k = derivative dim d1d q1d b g x' q k :=
  contracted_congr hdim hq h

end Interpolation

/-! ### The part of an element -/

section

variable {α : Type} [Zero α]

theorem getD_stretch {len n i : Nat} {buf : Array α} (hi : i < len) :
    (stretch len buf n).getD i 0 = buf.getD (i + len * n) 0 := by
  rw [Array.getD_eq_getD_getElem?, getElem?_stretch hi, ← Array.getD_eq_getD_getElem?]

theorem size_stretch {β : Type} {len n count : Nat} {buf : Array β} (hsize : buf.size = len * count)
    (hn : n < count) : (stretch len buf n).size = len := by
  have hle : len * n + len ≤ buf.size := by
    rw [hsize, ← Nat.mul_succ]
    exact Nat.mul_le_mul_left len hn
  rw [stretch, Array.size_extract, Nat.min_eq_left hle, Nat.add_sub_cancel_left]

/-- The nodes of an element, taken alone. -/
theorem nodal_stretch {nd vdim e c j : Nat} {x : Array α} (hc : c < vdim) (hj : j < nd) :
    nodal nd vdim (stretch (nd * vdim) x e) 0 c j = nodal nd vdim x e c j := by
  rw [nodal, nodal, Nat.mul_zero, Nat.add_zero, getD_stretch (pair_lt hj hc), Nat.mul_add,
    Nat.add_assoc, Nat.mul_assoc]

/-- The Jacobians of an element, taken alone. -/
theorem jacobianEntry_stretch {nq sdim dim q e i k : Nat} {j : Array α} (hq : q < nq)
    (hi : i < sdim) (hk : k < dim) :
    jacobianEntry nq sdim dim (stretch (nq * sdim * dim) j e) q 0 i k =
      jacobianEntry nq sdim dim j q e i k := by
  have hentry := nodal_stretch (x := j) (e := e) (pair_lt hi hk) hq
  rwa [nodal, nodal, ← Nat.mul_assoc nq, Nat.mul_zero, Nat.add_zero, Nat.mul_assoc sdim dim e,
    Nat.add_assoc i, ← Nat.mul_add] at hentry

end

namespace Geometry

variable {α : Type}

/-- The factors of element `e` alone. -/
def only (geometry : Geometry α) (e : Nat) : Geometry α :=
  { geometry with
    ne := 1
    jacobians := geometry.jacobians.map
      (stretch (geometry.nq * geometry.sdim * geometry.dim) · e)
    coordinates := geometry.coordinates.map (stretch (geometry.nq * geometry.sdim) · e) }

/-- The factors without those that are not wanted. -/
def restrict (geometry : Geometry α) (want : Quantities) : Geometry α :=
  { geometry with
    jacobians := if want.jacobians then geometry.jacobians else none
    coordinates := if want.coordinates then geometry.coordinates else none }

/-- Factors with exactly the quantities that are wanted, of exactly the lengths of their
layouts. -/
structure Exactly (geometry : Geometry α) (dim sdim nq ne : Nat) (want : Quantities) : Prop where
  jacobians : geometry.jacobians.map Array.size =
    if want.jacobians then some (nq * sdim * dim * ne) else none
  coordinates : geometry.coordinates.map Array.size =
    if want.coordinates then some (nq * sdim * ne) else none
  dim : geometry.dim = dim
  sdim : geometry.sdim = sdim
  nq : geometry.nq = nq
  ne : geometry.ne = ne

/-- Sizes at which a pass returns: dimensions with a kernel and whole elements, sizes that can be
counted, room for the chunks and, if there is something to interpolate, what the loop over the
elements asks for. -/
structure PassFits [Stored α] (dim sdim : Nat) (tables : Tables α) (len : Nat)
    (want : Quantities) : Prop where
  dimensions : HasKernel dim sdim
  whole : len % (tables.ndof ^ dim * sdim) = 0
  element_lt : tables.ndof ^ dim * sdim < Size.bound
  points_lt : tables.nqpt ^ dim < Size.bound
  chunk_lt : (layoutOf dim sdim tables.nqpt want).len < Size.bound
  room : Stored.bytes α * ((layoutOf dim sdim tables.nqpt want).len *
    (len / (tables.ndof ^ dim * sdim))) < Size.bufferBound
  loop : want.jacobians ∨ want.coordinates → 0 < len → LoopSizes dim sdim tables

/-- What fits when both quantities are wanted fits when one of them is. -/
theorem layoutOf_len_le (dim sdim q1d : Nat) (want : Quantities) :
    (layoutOf dim sdim q1d want).len ≤ (layoutOf dim sdim q1d ⟨true, true⟩).len := by
  obtain ⟨jacobians, coordinates⟩ := want
  cases jacobians <;> cases coordinates <;>
    simp [ChunkLayout.len, ChunkLayout.jacobiansLen, ChunkLayout.coordinatesLen]

section

variable [Stored α] {dim sdim : Nat} {tables : Tables α} {len : Nat} {want : Quantities}

theorem PassFits.restrict (h : PassFits dim sdim tables len ⟨true, true⟩) (want : Quantities) :
    PassFits dim sdim tables len want where
  dimensions := h.dimensions
  whole := h.whole
  element_lt := h.element_lt
  points_lt := h.points_lt
  chunk_lt := Nat.lt_of_le_of_lt (layoutOf_len_le dim sdim tables.nqpt want) h.chunk_lt
  room := Nat.lt_of_le_of_lt (Nat.mul_le_mul_left _ (Nat.mul_le_mul_right _
    (layoutOf_len_le dim sdim tables.nqpt want))) h.room
  loop _ := h.loop (.inl rfl)

/-- Where there are elements, one of them fits alone. -/
theorem PassFits.only (h : PassFits dim sdim tables len want)
    (hne : 0 < len / (tables.ndof ^ dim * sdim)) :
    PassFits dim sdim tables (tables.ndof ^ dim * sdim) want where
  dimensions := h.dimensions
  whole := Nat.mod_self _
  element_lt := h.element_lt
  points_lt := h.points_lt
  chunk_lt := h.chunk_lt
  room := by
    have helement : 0 < tables.ndof ^ dim * sdim := Nat.pos_of_ne_zero fun h0 => by simp [h0] at hne
    rw [Nat.div_self helement]
    exact Nat.lt_of_le_of_lt (Nat.mul_le_mul_left _ (Nat.mul_le_mul_left _ hne)) h.room
  loop hwant _ := h.loop hwant (Nat.pos_of_ne_zero fun h0 => by simp [h0] at hne)

/-- A chunk is empty when nothing is wanted. -/
theorem layoutOf_len_pos_iff (hk : HasKernel dim sdim) {q1d : Nat} (hq : 0 < q1d) :
    0 < (layoutOf dim sdim q1d want).len ↔ want.jacobians ∨ want.coordinates := by
  constructor
  · intro hlen
    by_contra hnone
    obtain ⟨hj, hx⟩ := not_or.1 hnone
    rw [ChunkLayout.len, ChunkLayout.jacobiansLen, ChunkLayout.coordinatesLen, if_neg hj,
      if_neg hx] at hlen
    exact Nat.lt_irrefl 0 hlen
  · intro hwant
    exact Nat.lt_of_lt_of_le (Nat.pow_pos hq) (points_le_len hk.dim_pos.1 hk.dim_pos.2 hwant)

variable [Zero α] [Add α] [Mul α] {nodes : Array α} {config : Execution} {geometry : Geometry α}

/-- **A pass returns** exactly where it fits. -/
theorem ofNodes_returns_iff_fits (hd : 0 < tables.ndof) (hq : 0 < tables.nqpt) :
    (∃ geometry, ofNodes dim sdim tables nodes want config = .ok geometry) ↔
      PassFits dim sdim tables nodes.size want := by
  refine exists_accepted_iff.symm.trans ⟨?_, ?_⟩
  · rintro ⟨p, h⟩
    obtain ⟨hsizes, rfl⟩ := plan_eq_ok.1 h.plan
    have hk : HasKernel dim sdim := by
      have hdim := hsizes.dim_cases
      have hsdim := hsizes.sdim_range
      rw [HasKernel]
      omega
    refine ⟨hk, hsizes.whole, hsizes.element_lt, hsizes.points_lt, hsizes.chunk_lt, h.room, ?_⟩
    intro hwant hlen
    refine h.loop ((layoutOf_len_pos_iff hk hq).2 hwant) (Nat.div_pos ?_ ?_)
    · exact Nat.le_of_dvd hlen (Nat.dvd_of_mod_eq_zero hsizes.whole)
    · exact Nat.mul_pos (Nat.pow_pos hd) hk.dim_pos.2
  · intro h
    have hsizes : PlanSizes dim sdim tables.ndof tables.nqpt nodes.size want :=
      { dim_cases := by rcases h.dimensions with h | h | h <;> simp [h.1]
        sdim_range := by rcases h.dimensions with h | h | h <;> simp [h.1, h.2]
        d1d_pos := hd
        element_lt := h.element_lt
        whole := h.whole
        points_lt := h.points_lt
        chunk_lt := h.chunk_lt }
    refine ⟨_, plan_eq_ok.2 ⟨hsizes, rfl⟩, fun _ => hq, h.room, fun hchunk hne => ?_⟩
    refine h.loop ((layoutOf_len_pos_iff h.dimensions hq).1 hchunk) (Nat.pos_of_ne_zero ?_)
    intro h0
    have hnone : (planOf dim sdim tables.ndof tables.nqpt nodes.size want).ne = 0 := by
      rw [planOf, h0, Nat.zero_div]
    exact Nat.ne_of_gt hne hnone

/-- **A pass gives what is wanted**, in the lengths of the layouts, and nothing else. -/
theorem exactly_of_ofNodes (h : ofNodes dim sdim tables nodes want config = .ok geometry) :
    geometry.Exactly dim sdim (tables.nqpt ^ dim) (nodes.size / (tables.ndof ^ dim * sdim))
      want := by
  have hsized := sized_of_ofNodes h
  obtain ⟨hjacobians, hcoordinates⟩ := wanted_of_ofNodes h
  refine ⟨?_, ?_, hsized.dim, hsized.sdim, hsized.nq, hsized.ne⟩
  · by_cases hwant : want.jacobians
    · obtain ⟨j, hj, hsize⟩ := hsized.jacobians hwant
      rw [if_pos hwant, hj, Option.map_some, hsize]
    · have hnone : geometry.jacobians = none :=
        Option.not_isSome_iff_eq_none.1 fun hsome => hwant (hjacobians hsome)
      rw [if_neg hwant, hnone, Option.map_none]
  · by_cases hwant : want.coordinates
    · obtain ⟨x, hx, hsize⟩ := hsized.coordinates hwant
      rw [if_pos hwant, hx, Option.map_some, hsize]
    · have hnone : geometry.coordinates = none :=
        Option.not_isSome_iff_eq_none.1 fun hsome => hwant (hcoordinates hsome)
      rw [if_neg hwant, hnone, Option.map_none]

end

/-! ### Factors that are equal -/

section

variable {dim sdim nq ne : Nat} {want : Quantities} {geometry geometry' : Geometry α}

/-- Factors of the same sizes are equal if the arrays that both hold are. -/
theorem Exactly.ext (h : geometry.Exactly dim sdim nq ne want)
    (h' : geometry'.Exactly dim sdim nq ne want)
    (hj : ∀ j j', geometry.jacobians = some j → geometry'.jacobians = some j' → j = j')
    (hx : ∀ x x', geometry.coordinates = some x → geometry'.coordinates = some x' → x = x') :
    geometry = geometry' := by
  have hoption : ∀ {a a' : Option (Array α)}, a.map Array.size = a'.map Array.size →
      (∀ v v', a = some v → a' = some v' → v = v') → a = a' := by
    intro a a' hsize heq
    cases a with
    | none => exact (Option.map_eq_none_iff.1 hsize.symm).symm
    | some v =>
      obtain ⟨v', rfl, -⟩ := Option.map_eq_some_iff.1 hsize.symm
      exact congrArg some (heq v v' rfl rfl)
  obtain ⟨hjsize, hxsize, hdim, hsdim, hnq, hne⟩ := h
  obtain ⟨hjsize', hxsize', hdim', hsdim', hnq', hne'⟩ := h'
  have hjacobians := hoption (hjsize.trans hjsize'.symm) hj
  have hcoordinates := hoption (hxsize.trans hxsize'.symm) hx
  cases geometry
  cases geometry'
  rw [Geometry.mk.injEq]
  exact ⟨hdim.trans hdim'.symm, hsdim.trans hsdim'.symm, hnq.trans hnq'.symm, hne.trans hne'.symm,
    hjacobians, hcoordinates⟩

theorem Exactly.restrict (h : geometry.Exactly dim sdim nq ne ⟨true, true⟩) (want : Quantities) :
    (geometry.restrict want).Exactly dim sdim nq ne want := by
  refine ⟨?_, ?_, h.dim, h.sdim, h.nq, h.ne⟩
  · rw [Geometry.restrict]
    cases want.jacobians with
    | false => rfl
    | true => exact h.jacobians
  · rw [Geometry.restrict]
    cases want.coordinates with
    | false => rfl
    | true => exact h.coordinates

theorem Exactly.only (h : geometry.Exactly dim sdim nq ne want) {e : Nat} (he : e < ne) :
    (geometry.only e).Exactly dim sdim nq 1 want := by
  have hpart : ∀ {a : Option (Array α)} {wanted : Bool} {len : Nat},
      a.map Array.size = (if wanted then some (len * ne) else none) →
      (a.map (stretch len · e)).map Array.size = if wanted then some (len * 1) else none := by
    intro a wanted len hsize
    cases wanted with
    | false =>
      obtain rfl := Option.map_eq_none_iff.1 hsize
      rfl
    | true =>
      obtain ⟨v, rfl, hv⟩ := Option.map_eq_some_iff.1 hsize
      rw [Option.map_some, Option.map_some, size_stretch hv he, Nat.mul_one]
      rfl
  obtain ⟨hjsize, hxsize, rfl, rfl, rfl, -⟩ := h
  exact ⟨hpart hjsize, hpart hxsize, rfl, rfl, rfl, rfl⟩

end

/-! ### One element, one quantity -/

section

variable [Zero α] [Add α] [Mul α] [Stored α] {dim sdim : Nat} {tables : Tables α}
  {nodes : Array α} {want want' : Quantities} {config config' : Execution}
  {geometry geometry' : Geometry α} {e : Nat}

/-- The arrays that are held have the lengths of their layouts. -/
theorem sizes_of_ofNodes (h : ofNodes dim sdim tables nodes want config = .ok geometry) :
    (∀ j, geometry.jacobians = some j →
      j.size = tables.nqpt ^ dim * sdim * dim * geometry.ne) ∧
    ∀ x, geometry.coordinates = some x → x.size = tables.nqpt ^ dim * sdim * geometry.ne := by
  have hsized := sized_of_ofNodes h
  obtain ⟨hjacobians, hcoordinates⟩ := wanted_of_ofNodes h
  rw [hsized.ne]
  constructor
  · intro j hj
    obtain ⟨_, hsome, hsize⟩ := hsized.jacobians (hjacobians (hj ▸ rfl))
    obtain rfl := Option.some.inj (hsome.symm.trans hj)
    exact hsize
  · intro x hx
    obtain ⟨_, hsome, hsize⟩ := hsized.coordinates (hcoordinates (hx ▸ rfl))
    obtain rfl := Option.some.inj (hsome.symm.trans hx)
    exact hsize

/-- The tables through which an element was interpolated. -/
theorem views_of_ofNodes (h : ofNodes dim sdim tables nodes want config = .ok geometry)
    (hwant : want.jacobians ∨ want.coordinates) (he : e < geometry.ne) :
    (dim = 2 ∨ dim = 3) ∧ ∃ b g, View.ofBuffer tables.b [tables.nqpt, tables.ndof] = .ok b ∧
      View.ofBuffer tables.g [tables.nqpt, tables.ndof] = .ok g := by
  obtain ⟨out, p, hsizes, -, -, hne, hviews⟩ := split_of_ofNodes h hwant
  obtain ⟨b, g, hb, hg, -⟩ := hviews (hne ▸ Nat.zero_lt_of_lt he)
  exact ⟨hsizes.dim_cases, b, g, hb, hg⟩

section

variable (h : ofNodes dim sdim tables nodes want config = .ok geometry)
  (h' : ofNodes dim sdim tables (stretch (tables.ndof ^ dim * sdim) nodes e) want' config' =
    .ok geometry')
  (he : e < geometry.ne) (hone : geometry'.ne = 1)

include h h' he hone

/-- The Jacobians of an element are those of its nodes alone. -/
theorem jacobians_only {j j' : Array α} (hj : geometry.jacobians = some j)
    (hj' : geometry'.jacobians = some j') :
    j' = stretch (tables.nqpt ^ dim * sdim * dim) j e := by
  have hwant : want.jacobians := (wanted_of_ofNodes h).1 (hj ▸ rfl)
  obtain ⟨hdim, b, g, hb, hg⟩ := views_of_ofNodes h (.inl hwant) he
  have hsize := (sizes_of_ofNodes h').1 j' hj'
  have hpart := (size_stretch ((sizes_of_ofNodes h).1 j hj) he).trans (Nat.mul_one _).symm
  rw [hone] at hsize
  refine jacobian_ext hsize hpart fun q n i k hq hn hi hk => ?_
  obtain rfl := Nat.lt_one_iff.1 hn
  rw [jacobianEntry_stretch hq hi hk, jacobianEntry_of_ofNodes h hb hg hj hq he hi hk,
    jacobianEntry_of_ofNodes h' hb hg hj' hq (hone ▸ hn) hi hk]
  exact Interpolation.derivative_congr hdim hq (fun n hn => nodal_stretch hi hn) k

/-- The coordinates of an element are those of its nodes alone. -/
theorem coordinates_only {x x' : Array α} (hx : geometry.coordinates = some x)
    (hx' : geometry'.coordinates = some x') :
    x' = stretch (tables.nqpt ^ dim * sdim) x e := by
  have hwant : want.coordinates := (wanted_of_ofNodes h).2 (hx ▸ rfl)
  obtain ⟨hdim, b, g, hb, hg⟩ := views_of_ofNodes h (.inr hwant) he
  have hsize := (sizes_of_ofNodes h').2 x' hx'
  have hpart := (size_stretch ((sizes_of_ofNodes h).2 x hx) he).trans (Nat.mul_one _).symm
  rw [hone] at hsize
  refine nodal_ext hsize hpart fun n i q hn hi hq => ?_
  obtain rfl := Nat.lt_one_iff.1 hn
  rw [nodal_stretch hi hq, coordinateEntry_of_ofNodes h hb hg hx hq he hi,
    coordinateEntry_of_ofNodes h' hb hg hx' hq (hone ▸ hn) hi]
  exact Interpolation.value_congr hdim hq fun n hn => nodal_stretch hi hn

end

variable (hd : 0 < tables.ndof) (hq : 0 < tables.nqpt)

include hd hq

/-- **The part of an element** is what a pass over its nodes alone gives. -/
theorem ofNodes_only (h : ofNodes dim sdim tables nodes want config = .ok geometry)
    (he : e < geometry.ne) (config' : Execution) :
    ofNodes dim sdim tables (stretch (tables.ndof ^ dim * sdim) nodes e) want config' =
      .ok (geometry.only e) := by
  have hfits : PassFits dim sdim tables nodes.size want :=
    (ofNodes_returns_iff_fits hd hq).1 ⟨geometry, h⟩
  have hexact := exactly_of_ofNodes h
  have hcount : e < nodes.size / (tables.ndof ^ dim * sdim) := hexact.ne ▸ he
  have hsize : (stretch (tables.ndof ^ dim * sdim) nodes e).size = tables.ndof ^ dim * sdim :=
    size_stretch (Nat.mul_div_cancel' (Nat.dvd_of_mod_eq_zero hfits.whole)).symm hcount
  have hpart := hfits.only (Nat.zero_lt_of_lt hcount)
  rw [← hsize] at hpart
  have hruns : ∃ geometry', ofNodes dim sdim tables (stretch (tables.ndof ^ dim * sdim) nodes e)
      want config' = .ok geometry' := (ofNodes_returns_iff_fits hd hq).2 hpart
  obtain ⟨geometry', h'⟩ := hruns
  have hexact' := exactly_of_ofNodes h'
  rw [hsize, Nat.div_self (Nat.mul_pos (Nat.pow_pos hd) hfits.dimensions.dim_pos.2)] at hexact'
  refine h'.trans (congrArg Except.ok (hexact'.ext (hexact.only hcount) ?_ ?_))
  · intro j' part hj' hpart
    obtain ⟨j, hj, rfl⟩ := Option.map_eq_some_iff.1 hpart
    rw [hexact.nq, hexact.sdim, hexact.dim]
    exact jacobians_only h h' he hexact'.ne hj hj'
  · intro x' part hx' hpart
    obtain ⟨x, hx, rfl⟩ := Option.map_eq_some_iff.1 hpart
    rw [hexact.nq, hexact.sdim]
    exact coordinates_only h h' he hexact'.ne hx hx'

/-- **A pass for both quantities**, restricted to what is wanted, is the pass for it. -/
theorem ofNodes_restrict (h : ofNodes dim sdim tables nodes ⟨true, true⟩ config = .ok geometry)
    (want : Quantities) (config' : Execution) :
    ofNodes dim sdim tables nodes want config' = .ok (geometry.restrict want) := by
  have hfits : PassFits dim sdim tables nodes.size ⟨true, true⟩ :=
    (ofNodes_returns_iff_fits hd hq).1 ⟨geometry, h⟩
  have hruns : ∃ geometry', ofNodes dim sdim tables nodes want config' = .ok geometry' :=
    (ofNodes_returns_iff_fits hd hq).2 (hfits.restrict want)
  obtain ⟨geometry', h'⟩ := hruns
  refine h'.trans (congrArg Except.ok
    ((exactly_of_ofNodes h').ext ((exactly_of_ofNodes h).restrict want) ?_ ?_))
  · intro j' j hj' hj
    have hwant : want.jacobians := (wanted_of_ofNodes h').1 (hj' ▸ rfl)
    exact jacobians_eq h' h hj' ((if_pos hwant).symm.trans hj)
  · intro x' x hx' hx
    have hwant : want.coordinates := (wanted_of_ofNodes h').2 (hx' ▸ rfl)
    exact coordinates_eq h' h hx' ((if_pos hwant).symm.trans hx)

/-- **One pass loses nothing.**  For all dimensions, tables with at least one node and one point,
nodes and settings, and whatever is wanted: a pass returns exactly where it fits.  It gives what is
wanted in exactly the lengths of the layouts, for any number of elements, and nothing else; the part
of every element in it is what a pass over the nodes of this element alone gives.  Where the pass
for both quantities returns, the pass for one of them gives the same array, and no other. -/
theorem pass_loses_nothing (nodes : Array α) (config : Execution) :
    let pass want nodes := ofNodes dim sdim tables nodes want config
    let nd := tables.ndof ^ dim
    let nq := tables.nqpt ^ dim
    let ne := nodes.size / (nd * sdim)
    (∀ want, (∃ geometry, pass want nodes = .ok geometry) ↔
      PassFits dim sdim tables nodes.size want) ∧
    (∀ want geometry, pass want nodes = .ok geometry →
      geometry.Exactly dim sdim nq ne want ∧
      ∀ e < ne, pass want (stretch (nd * sdim) nodes e) = .ok (geometry.only e)) ∧
    ∀ geometry, pass ⟨true, true⟩ nodes = .ok geometry →
      ∃ j x, geometry = ⟨dim, sdim, nq, ne, some j, some x⟩ ∧
        pass ⟨true, false⟩ nodes = .ok ⟨dim, sdim, nq, ne, some j, none⟩ ∧
        pass ⟨false, true⟩ nodes = .ok ⟨dim, sdim, nq, ne, none, some x⟩ := by
  intro pass nd nq ne
  refine ⟨fun want => ofNodes_returns_iff_fits hd hq, ?_, ?_⟩
  · intro want geometry h
    have hexact := exactly_of_ofNodes h
    exact ⟨hexact, fun e he => ofNodes_only hd hq h (hexact.ne ▸ he) config⟩
  · intro geometry h
    have hexact := exactly_of_ofNodes h
    obtain ⟨j, hj, -⟩ := Option.map_eq_some_iff.1 hexact.jacobians
    obtain ⟨x, hx, -⟩ := Option.map_eq_some_iff.1 hexact.coordinates
    have hgeometry := (sized_of_ofNodes h).eq_mk hj hx
    have hrestrict := fun want => ofNodes_restrict hd hq h want config
    rw [hgeometry] at hrestrict
    exact ⟨j, x, hgeometry, hrestrict ⟨true, false⟩, hrestrict ⟨false, true⟩⟩

end

/-- Two nodes and the point halfway between them. -/
def halfway : Tables Float :=
  ⟨2, 1, #[1 / 2, 1 / 2], #[-1, 1], #[1 / 2, 1 / 2], #[-1, 1]⟩

/-- A square, and beside it a face with a node that is no number. -/
def besideNoNumber : Array Float :=
  #[0, 1, 0, 1, 0, 0, 1, 1, 1, 2, 1, Action.noNumber, 0, 0, 1, 1]

/-- One pass over the two faces gives the Jacobians and the coordinates that two passes give, and
those of the square are not disturbed by its neighbour. -/
theorem pass_loses_nothing_beside_noNumber :
    ∃ j x, ofNodes 2 2 halfway besideNoNumber ⟨true, true⟩ {} =
        .ok ⟨2, 2, 1, 2, some j, some x⟩ ∧
      ofNodes 2 2 halfway besideNoNumber ⟨true, false⟩ {} = .ok ⟨2, 2, 1, 2, some j, none⟩ ∧
      ofNodes 2 2 halfway besideNoNumber ⟨false, true⟩ {} = .ok ⟨2, 2, 1, 2, none, some x⟩ ∧
      j.size = 8 ∧ x.size = 4 ∧
      ofNodes 2 2 halfway #[0, 1, 0, 1, 0, 0, 1, 1] ⟨true, true⟩ {} =
        .ok ⟨2, 2, 1, 1, some (stretch 4 j 0), some (stretch 2 x 0)⟩ := by
  have hfits : PassFits 2 2 halfway besideNoNumber.size ⟨true, true⟩ :=
    ⟨by decide, by decide, by decide, by decide, by decide, by decide,
      fun _ _ => ⟨by decide, by decide, by decide, by decide⟩⟩
  obtain ⟨hreturns, hparts, hone⟩ :=
    @pass_loses_nothing Float _ _ _ _ 2 2 halfway (by decide) (by decide) besideNoNumber {}
  obtain ⟨geometry, h⟩ := (hreturns ⟨true, true⟩).2 hfits
  obtain ⟨hexact, helement⟩ := hparts ⟨true, true⟩ geometry h
  obtain ⟨j, x, rfl, hj, hx⟩ := hone geometry h
  exact ⟨j, x, h, hj, hx, Option.some.inj hexact.jacobians, Option.some.inj hexact.coordinates,
    helement 0 (by decide)⟩

end Geometry

end TensorDiffusion
