import TensorDiffusion.Proofs.PointSizes

/-!
# The entries of geometric factors

Factors that were computed hold, at every point of every element, the derivatives and the values
there of the coordinates of the element's own nodes (`Geometry.jacobianEntry_of_ofNodes`,
`Geometry.coordinateEntry_of_ofNodes`).  Whether the coordinates are asked for in the same pass
makes no difference to the Jacobians (`Geometry.jacobians_eq`).  Over a commutative ring the
derivative is the gradient of the field that has the coordinates for its nodal values
(`Interpolation.derivative_eq_fieldGradient`).
-/

namespace TensorDiffusion

/-! ### Arrays of one layout -/

section

variable {α : Type} [Zero α] {nd vdim ne : Nat}

/-- Two vectors are equal if they are at every node of every component of every element. -/
theorem nodal_ext {x y : Array α} (hx : x.size = nd * vdim * ne) (hy : y.size = nd * vdim * ne)
    (h : ∀ e c j, e < ne → c < vdim → j < nd → nodal nd vdim x e c j = nodal nd vdim y e c j) :
    x = y := by
  refine Array.ext (hx.trans hy.symm) fun n hn hn' => ?_
  have hlt : n < nd * (vdim * ne) := by rwa [← Nat.mul_assoc, ← hx]
  have hplace : n % nd + nd * (n / nd % vdim + vdim * (n / nd / vdim)) = n := by
    rw [Nat.mod_add_div, Nat.mod_add_div]
  have hentry := h (n / nd / vdim) (n / nd % vdim) (n % nd)
    (div_lt_right (div_lt_right hlt)) (mod_lt_left (div_lt_right hlt)) (mod_lt_left hlt)
  rwa [nodal, nodal, hplace, ← Array.getElem_eq_getD (h := hn),
    ← Array.getElem_eq_getD (h := hn')] at hentry

/-- Two arrays of Jacobians are equal if they are at every point of every element. -/
theorem jacobian_ext {nq sdim dim : Nat} {j j' : Array α} (hj : j.size = nq * sdim * dim * ne)
    (hj' : j'.size = nq * sdim * dim * ne)
    (h : ∀ q e i k, q < nq → e < ne → i < sdim → k < dim →
      jacobianEntry nq sdim dim j q e i k = jacobianEntry nq sdim dim j' q e i k) : j = j' := by
  rw [Nat.mul_assoc nq] at hj hj'
  refine nodal_ext hj hj' fun e n q he hn hq => ?_
  have hplace : n % sdim + sdim * (n / sdim + dim * e) = n + sdim * dim * e := by
    rw [Nat.mul_add, ← Nat.add_assoc, Nat.mod_add_div, Nat.mul_assoc]
  have hentry := h q e (n % sdim) (n / sdim) hq he (mod_lt_left hn) (div_lt_right hn)
  rwa [jacobianEntry, jacobianEntry, hplace] at hentry

end

/-! ### Chunks -/

section

open Interpolation

variable {α : Type} [Zero α] [Add α] [Mul α] {dim d1d q1d q i k : Nat} {b g : View α}
  {layout : ChunkLayout} {x : Nat → Nat → α}

/-- Where a Jacobian stands in the chunk of its element. -/
theorem jacobian_lt (hwant : layout.want.jacobians) (hq : q < layout.nq) (hi : i < layout.sdim)
    (hk : k < layout.dim) :
    q + layout.nq * (i + layout.sdim * k) < layout.jacobiansLen := by
  rw [ChunkLayout.jacobiansLen, if_pos hwant, Nat.mul_assoc]
  exact pair_lt hq (pair_lt hi hk)

theorem interpolated_jacobian (hwant : layout.want.jacobians) (hq : q < layout.nq)
    (hi : i < layout.sdim) (hk : k < layout.dim) :
    interpolated dim d1d q1d b g layout x (q + layout.nq * (i + layout.sdim * k)) =
      derivative dim d1d q1d b g (x i) q k := by
  obtain ⟨hpoint, hcoordinate, haxis⟩ := triple_positions k hq hi
  have hlt := jacobian_lt hwant hq hi hk
  rw [interpolated, if_pos hlt, chunkJacobian, hpoint, hcoordinate, haxis]

theorem interpolated_coordinate (hq : q < layout.nq) :
    interpolated dim d1d q1d b g layout x (layout.jacobiansLen + (q + layout.nq * i)) =
      value dim d1d q1d b (x i) q := by
  have hge : ¬ layout.jacobiansLen + (q + layout.nq * i) < layout.jacobiansLen := by omega
  rw [interpolated, if_neg hge, chunkCoordinate, Nat.add_sub_cancel_left, pair_div i hq, pair_mod i hq]

end

/-! ### Entries -/

namespace Geometry

open Interpolation

section

variable {α : Type} {dim sdim : Nat} {want : Quantities} {p : Plan} {out : Array α}
  {geometry : Geometry α}

/-- A quantity that is held was wanted, and it was taken. -/
theorem taken_of_held {β : Type} {want : Bool} {taken : Except Fault β} {x : β}
    (h : (if want then some <$> taken else pure none) = .ok (some x)) : want ∧ taken = .ok x := by
  split at h
  · next hwant =>
    rw [map_eq_pure_bind] at h
    obtain ⟨_, htaken, hsome⟩ := bind_eq_ok.1 h
    exact ⟨hwant, by rw [htaken, Option.some.inj (Except.ok.inj hsome)]⟩
  · exact nomatch Except.ok.inj h

/-- Jacobians were taken from the chunks. -/
theorem jacobians_of_split (h : split dim sdim want p out = .ok geometry) {j : Array α}
    (hj : geometry.jacobians = some j) :
    want.jacobians ∧ parts out p.chunk 0 p.layout.jacobiansLen = .ok j := by
  obtain ⟨jacobians, hparts, h⟩ := bind_eq_ok.1 h
  obtain ⟨_, -, h⟩ := bind_eq_ok.1 h
  obtain rfl := Except.ok.inj h
  obtain rfl : jacobians = some j := hj
  exact taken_of_held hparts

/-- Coordinates were taken from the chunks. -/
theorem coordinates_of_split (h : split dim sdim want p out = .ok geometry) {x : Array α}
    (hx : geometry.coordinates = some x) :
    want.coordinates ∧
      parts out p.chunk p.layout.jacobiansLen p.layout.coordinatesLen = .ok x := by
  obtain ⟨_, -, h⟩ := bind_eq_ok.1 h
  obtain ⟨coordinates, hparts, h⟩ := bind_eq_ok.1 h
  obtain rfl := Except.ok.inj h
  obtain rfl : coordinates = some x := hx
  exact taken_of_held hparts

end

variable {α : Type} [Zero α] [Add α] [Mul α] [Stored α] {dim sdim : Nat} {tables : Tables α}
  {nodes : Array α} {want : Quantities} {config : Execution} {geometry : Geometry α} {b g : View α}
  {q e i k : Nat}

omit [Add α] [Mul α] [Stored α] in
/-- An entry of a part of every chunk. -/
theorem getD_of_parts {buf part : Array α} {chunk ne start len n : Nat}
    (h : parts buf chunk start len = .ok part) (hbuf : buf.size = ne * chunk)
    (hpart : start + len ≤ chunk) (he : e < ne) (hn : n < len) :
    part.getD (n + len * e) 0 = buf.getD (start + n + chunk * e) 0 := by
  rw [parts_eq (chunk_pos_of_parts h) hbuf hpart] at h
  obtain rfl := Except.ok.inj h
  have hlt : n + len * e < len * ne := pair_lt hn he
  rw [getD_ofFn 0 hlt, pair_div e hn, pair_mod e hn]
  exact congrArg (buf.getD · 0) (by rw [Nat.mul_comm e]; omega)

/-- The chunks of factors that were computed.  The tables are viewed where there are elements. -/
theorem split_of_ofNodes (h : ofNodes dim sdim tables nodes want config = .ok geometry)
    (hwant : want.jacobians ∨ want.coordinates) :
    ∃ out p, PlanSizes dim sdim tables.ndof tables.nqpt nodes.size want ∧
      p = planOf dim sdim tables.ndof tables.nqpt nodes.size want ∧
      split dim sdim want p out = .ok geometry ∧ p.ne = geometry.ne ∧
      (0 < p.ne → ∃ b g, View.ofBuffer tables.b [tables.nqpt, tables.ndof] = .ok b ∧
        View.ofBuffer tables.g [tables.nqpt, tables.ndof] = .ok g ∧
        out = chunksOf tables b g p nodes) := by
  obtain ⟨p, haccepted⟩ := accepted_of_ofNodes h
  obtain ⟨hsizes, hp⟩ := plan_eq_ok.1 haccepted.plan
  obtain ⟨out, geometry', hsized, hsplit, hrun⟩ := ofNodes_ok haccepted
  obtain rfl := Except.ok.inj ((hrun config).2.symm.trans h)
  refine ⟨out, p, hsizes, hp, hsplit, hsized.ne.symm, fun hne => ?_⟩
  have hchunk := chunk_pos_of_split hsplit hwant
  obtain ⟨b, g, hb, hg⟩ := (haccepted.loop hchunk hne).views hsizes.d1d_pos
    (nqpt_pos hsizes hp hchunk)
  exact ⟨b, g, hb, hg, Except.ok.inj
    ((hrun config).1.symm.trans (chunks_eq haccepted hchunk hne hb hg))⟩

/-- The quantities that factors hold were wanted. -/
theorem wanted_of_ofNodes (h : ofNodes dim sdim tables nodes want config = .ok geometry) :
    (geometry.jacobians.isSome → want.jacobians) ∧
      (geometry.coordinates.isSome → want.coordinates) := by
  obtain ⟨p, haccepted⟩ := accepted_of_ofNodes h
  obtain ⟨out, geometry', -, hsplit, hrun⟩ := ofNodes_ok haccepted
  obtain rfl := Except.ok.inj ((hrun config).2.symm.trans h)
  constructor
  · intro hsome
    obtain ⟨j, hj⟩ := Option.isSome_iff_exists.1 hsome
    exact (jacobians_of_split hsplit hj).1
  · intro hsome
    obtain ⟨x, hx⟩ := Option.isSome_iff_exists.1 hsome
    exact (coordinates_of_split hsplit hx).1

omit [Stored α] in
/-- An entry of a part of every chunk, as it was interpolated. -/
theorem getD_of_chunks {p : Plan} {part : Array α} {start len n : Nat}
    (h : parts (chunksOf tables b g p nodes) p.chunk start len = .ok part)
    (hpart : start + len ≤ p.chunk) (he : e < p.ne) (hn : n < len) :
    part.getD (n + len * e) 0 = interpolated p.layout.dim tables.ndof tables.nqpt b g p.layout
      (nodal p.nd p.layout.sdim nodes e) (start + n) := by
  have hchunk : start + n < p.chunk := Nat.lt_of_lt_of_le (Nat.add_lt_add_left hn start) hpart
  have hlt : start + n + p.chunk * e < p.chunk * p.ne := pair_lt hchunk he
  rw [getD_of_parts h size_chunksOf hpart he hn, chunksOf, getD_ofFn 0 hlt, pair_div e hchunk,
    pair_mod e hchunk]

variable (h : ofNodes dim sdim tables nodes want config = .ok geometry)
  (hb : View.ofBuffer tables.b [tables.nqpt, tables.ndof] = .ok b)
  (hg : View.ofBuffer tables.g [tables.nqpt, tables.ndof] = .ok g)

include h hb hg

/-- The chunks through given views of the tables. -/
theorem chunks_of_ofNodes (hwant : want.jacobians ∨ want.coordinates) (he : e < geometry.ne) :
    ∃ p, p = planOf dim sdim tables.ndof tables.nqpt nodes.size want ∧ e < p.ne ∧
      split dim sdim want p (chunksOf tables b g p nodes) = .ok geometry := by
  obtain ⟨out, p, -, hp, hsplit, hne, hout⟩ := split_of_ofNodes h hwant
  rw [← hne] at he
  obtain ⟨b', g', hb', hg', rfl⟩ := hout (Nat.zero_lt_of_lt he)
  obtain rfl := Except.ok.inj (hb'.symm.trans hb)
  obtain rfl := Except.ok.inj (hg'.symm.trans hg)
  exact ⟨p, hp, he, hsplit⟩

/-- **Jacobians are derivatives** of the coordinates of the nodes. -/
theorem jacobianEntry_of_ofNodes {j : Array α} (hj : geometry.jacobians = some j)
    (hq : q < tables.nqpt ^ dim) (he : e < geometry.ne) (hi : i < sdim) (hk : k < dim) :
    jacobianEntry (tables.nqpt ^ dim) sdim dim j q e i k =
      derivative dim tables.ndof tables.nqpt b g
        (nodal (tables.ndof ^ dim) sdim nodes e i) q k := by
  have hwant : want.jacobians := (wanted_of_ofNodes h).1 (hj ▸ rfl)
  obtain ⟨p, rfl, he, hsplit⟩ := chunks_of_ofNodes h hb hg (.inl hwant) he
  have hlayout : (layoutOf dim sdim tables.nqpt want).jacobiansLen =
      tables.nqpt ^ dim * sdim * dim := if_pos hwant
  have hentry := getD_of_chunks (jacobians_of_split hsplit hj).2
    (Nat.zero_add _ ▸ Nat.le_add_right _ _) he (jacobian_lt hwant hq hi hk)
  have hplace : q + tables.nqpt ^ dim * (i + sdim * (k + dim * e)) =
      q + tables.nqpt ^ dim * (i + sdim * k) + tables.nqpt ^ dim * sdim * dim * e := by ring
  rw [Nat.zero_add] at hentry
  rw [jacobianEntry, hplace, ← hlayout]
  exact hentry.trans (interpolated_jacobian hwant hq hi hk)

/-- **Coordinates are values** of the coordinates of the nodes. -/
theorem coordinateEntry_of_ofNodes {x : Array α} (hx : geometry.coordinates = some x)
    (hq : q < tables.nqpt ^ dim) (he : e < geometry.ne) (hi : i < sdim) :
    nodal (tables.nqpt ^ dim) sdim x e i q =
      value dim tables.ndof tables.nqpt b (nodal (tables.ndof ^ dim) sdim nodes e i) q := by
  have hwant : want.coordinates := (wanted_of_ofNodes h).2 (hx ▸ rfl)
  obtain ⟨p, rfl, he, hsplit⟩ := chunks_of_ofNodes h hb hg (.inr hwant) he
  have hlayout : (layoutOf dim sdim tables.nqpt want).coordinatesLen =
      tables.nqpt ^ dim * sdim := if_pos hwant
  have hn : q + tables.nqpt ^ dim * i < (layoutOf dim sdim tables.nqpt want).coordinatesLen := by
    rw [hlayout]
    exact pair_lt hq hi
  have hentry := getD_of_chunks (coordinates_of_split hsplit hx).2 (Nat.le_refl _) he hn
  have hplace : q + tables.nqpt ^ dim * (i + sdim * e) =
      q + tables.nqpt ^ dim * i + tables.nqpt ^ dim * sdim * e := by ring
  rw [nodal, hplace, ← hlayout]
  exact hentry.trans (interpolated_coordinate hq)

end Geometry

/-! ### One pass or two -/

namespace Geometry

variable {α : Type} [Zero α] [Add α] [Mul α] [Stored α] {dim sdim : Nat} {tables : Tables α}
  {nodes : Array α} {want want' : Quantities} {config config' : Execution}
  {geometry geometry' : Geometry α}
  (h : ofNodes dim sdim tables nodes want config = .ok geometry)
  (h' : ofNodes dim sdim tables nodes want' config' = .ok geometry')

include h h'

/-- **The Jacobians are the same** whatever else is computed with them. -/
theorem jacobians_eq {j j' : Array α} (hj : geometry.jacobians = some j)
    (hj' : geometry'.jacobians = some j') : j = j' := by
  have hwant : want.jacobians := (wanted_of_ofNodes h).1 (hj ▸ rfl)
  have hsized := sized_of_ofNodes h
  have hsized' := sized_of_ofNodes h'
  obtain ⟨_, hsome, hsize⟩ := hsized.jacobians hwant
  obtain ⟨_, hsome', hsize'⟩ := hsized'.jacobians ((wanted_of_ofNodes h').1 (hj' ▸ rfl))
  obtain rfl := Option.some.inj (hsome.symm.trans hj)
  obtain rfl := Option.some.inj (hsome'.symm.trans hj')
  refine jacobian_ext hsize hsize' fun q e i k hq he hi hk => ?_
  rw [← hsized.ne] at he
  obtain ⟨out, p, -, -, -, hne, hviews⟩ := split_of_ofNodes h (.inl hwant)
  obtain ⟨b, g, hb, hg, -⟩ := hviews (hne ▸ Nat.zero_lt_of_lt he)
  rw [jacobianEntry_of_ofNodes h hb hg hj hq he hi hk,
    jacobianEntry_of_ofNodes h' hb hg hj' hq (hsized'.ne ▸ hsized.ne ▸ he) hi hk]

/-- **The coordinates are the same** whatever else is computed with them. -/
theorem coordinates_eq {x x' : Array α} (hx : geometry.coordinates = some x)
    (hx' : geometry'.coordinates = some x') : x = x' := by
  have hwant : want.coordinates := (wanted_of_ofNodes h).2 (hx ▸ rfl)
  have hsized := sized_of_ofNodes h
  have hsized' := sized_of_ofNodes h'
  obtain ⟨_, hsome, hsize⟩ := hsized.coordinates hwant
  obtain ⟨_, hsome', hsize'⟩ := hsized'.coordinates ((wanted_of_ofNodes h').2 (hx' ▸ rfl))
  obtain rfl := Option.some.inj (hsome.symm.trans hx)
  obtain rfl := Option.some.inj (hsome'.symm.trans hx')
  refine nodal_ext hsize hsize' fun e i q he hi hq => ?_
  rw [← hsized.ne] at he
  obtain ⟨out, p, -, -, -, hne, hviews⟩ := split_of_ofNodes h (.inr hwant)
  obtain ⟨b, g, hb, hg, -⟩ := hviews (hne ▸ Nat.zero_lt_of_lt he)
  rw [coordinateEntry_of_ofNodes h hb hg hx hq he hi,
    coordinateEntry_of_ofNodes h' hb hg hx' hq (hsized'.ne ▸ hsized.ne ▸ he) hi]

end Geometry

/-! ### Room -/

namespace Geometry

variable {α : Type} {dim sdim : Nat} {want : Quantities}

/-- A chunk that is wanted has an entry for every point. -/
theorem points_le_len {q1d : Nat} (hdim : 0 < dim) (hsdim : 0 < sdim)
    (hwant : want.jacobians ∨ want.coordinates) : q1d ^ dim ≤ (layoutOf dim sdim q1d want).len := by
  rw [ChunkLayout.len, ChunkLayout.jacobiansLen, ChunkLayout.coordinatesLen]
  rcases hwant with hw | hw
  · rw [if_pos hw, Nat.mul_assoc]
    exact Nat.le_trans (Nat.le_mul_of_pos_right _ (Nat.mul_pos hsdim hdim)) (Nat.le_add_right _ _)
  · rw [if_pos hw (t := _ * _)]
    exact Nat.le_trans (Nat.le_mul_of_pos_right _ hsdim) (Nat.le_add_left _ _)

variable [Zero α] [Add α] [Mul α] [Stored α] {tables : Tables α} {nodes : Array α}
  {config : Execution} {geometry : Geometry α}
  (h : ofNodes dim sdim tables nodes want config = .ok geometry)
  (hwant : want.jacobians ∨ want.coordinates)

include h hwant

/-- Where there are factors, there is room for a value at every point. -/
theorem points_room_of_ofNodes :
    Stored.bytes α * (geometry.nq * geometry.ne) < Size.bufferBound := by
  obtain ⟨out, p, hsizes, rfl, -, hne, -⟩ := split_of_ofNodes h hwant
  obtain ⟨p', haccepted⟩ := accepted_of_ofNodes h
  obtain ⟨-, rfl⟩ := plan_eq_ok.1 haccepted.plan
  have hdim : 0 < dim := by have := hsizes.dim_cases; omega
  rw [(sized_of_ofNodes h).nq, ← hne]
  exact Nat.lt_of_le_of_lt (Nat.mul_le_mul_left _ (Nat.mul_le_mul_right _
    (points_le_len hdim hsizes.sdim_pos hwant))) haccepted.room

/-- Where some factors are computed, others are if there is room for them. -/
theorem ofNodes_of_ofNodes {want' : Quantities}
    (hroom : FitsMemory α (layoutOf dim sdim tables.nqpt want').len geometry.ne)
    (config' : Execution) :
    ∃ geometry', ofNodes dim sdim tables nodes want' config' = .ok geometry' := by
  obtain ⟨out, p, hsizes, rfl, hsplit, hne, -⟩ := split_of_ofNodes h hwant
  obtain ⟨p', haccepted⟩ := accepted_of_ofNodes h
  obtain ⟨-, rfl⟩ := plan_eq_ok.1 haccepted.plan
  have hchunk := Nat.lt_of_lt_of_le hroom.one_lt Size.bufferBound_le_bound
  refine exists_accepted_iff.1 ⟨planOf dim sdim tables.ndof tables.nqpt nodes.size want',
    plan_eq_ok.2 ⟨{ hsizes with chunk_lt := hchunk }, rfl⟩, fun _ => haccepted.wanted hwant, ?_,
    fun _ => haccepted.loop (chunk_pos_of_split hsplit hwant)⟩
  rw [← hne] at hroom
  exact Nat.lt_of_le_of_lt
    (Nat.mul_le_mul_left _ (Nat.mul_le_mul_left _ (Nat.le_max_right 1 _))) hroom

end Geometry

/-! ### Gradients -/

section

open Interpolation

variable {K : Type} [CommRing K] {dim d1d q1d k q : Nat} {b g : View K}

/-- The entries of a table that is viewed point by node. -/
theorem View.entry_table {v : View K} (hv : v.shape = [q1d, d1d]) (q d : Nat) :
    v.entry [q, d] = v.data.getD (q + q1d * d) 0 := by
  rw [View.entry_eq hv]
  rfl

theorem rowSum_eq (n : Nat) (v : View K) (row : Nat) (t : Nat → K) :
    rowSum n v row t = ∑ d ∈ Finset.range n, t d * v.entry [row, d] := by
  rw [rowSum, leftSum_eq_sum, zero_add]
  exact Finset.sum_congr rfl fun d _ => mul_comm _ _

section

variable (hb : b.shape = [q1d, d1d]) (hg : g.shape = [q1d, d1d])

include hb hg

/-- The entries of the table of an axis. -/
theorem entry_axis (k axis q d : Nat) :
    (if axis = k then g else b).entry [q, d] = axisEntry q1d b.data g.data k axis q d := by
  rw [axisEntry]
  split
  · exact g.entry_table hg q d
  · exact b.entry_table hb q d

/-- The derivative of a field on a face is its gradient. -/
theorem derivative_two (hq : q < q1d ^ 2) (x : Nat → K) :
    derivative 2 d1d q1d b g x q k = fieldGradient 2 d1d q1d b.data g.data x k q := by
  rw [Nat.pow_two] at hq
  have hqx : q % q1d < q1d := mod_lt_left hq
  have hplane : q / (q1d * q1d) = 0 := Nat.div_eq_of_lt hq
  rw [derivative, contracted, if_pos rfl, fieldGradient_two]
  simp only [alongY, alongX, rowSum_eq, entry_axis hb hg, hplane, Nat.mul_zero, Nat.add_zero,
    pair_mod _ hqx, pair_div _ hqx]

/-- The derivative of a field on a cell is its gradient. -/
theorem derivative_three (hq : q < q1d ^ 3) (x : Nat → K) :
    derivative 3 d1d q1d b g x q k = fieldGradient 3 d1d q1d b.data g.data x k q := by
  rw [pow_three'] at hq
  have hpos : 0 < q1d := Nat.pos_of_mul_pos_left (Nat.zero_lt_of_lt hq)
  have hqx : q % q1d < q1d := Nat.mod_lt q hpos
  have hplane : q % (q1d * q1d) < q1d * q1d := mod_lt_left hq
  have hqz : q / (q1d * q1d) % q1d = q / (q1d * q1d) := Nat.mod_eq_of_lt (div_lt_right hq)
  -- The point's position on a line, and the line's on a plane.
  have hline : ∀ dz, _ := fun dz => (mod_add_mul_positions hpos hpos q dz).1
  have hrow : ∀ dz, _ := fun dz => (mod_add_mul_positions hpos hpos q dz).2
  rw [derivative, contracted, if_neg (by decide), fieldGradient_three, hqz]
  simp only [alongZ, alongY, alongX, rowSum_eq, entry_axis hb hg, hline, hrow, pair_div _ hplane,
    pair_mod _ hqx, pair_div _ hqx]

end

/-- **The derivative of a field is its gradient**, however it is contracted. -/
theorem Interpolation.derivative_eq_fieldGradient (hdim : dim = 2 ∨ dim = 3)
    (hb : b.shape = [q1d, d1d]) (hg : g.shape = [q1d, d1d]) (hq : q < q1d ^ dim) (x : Nat → K) :
    derivative dim d1d q1d b g x q k = fieldGradient dim d1d q1d b.data g.data x k q := by
  rcases hdim with rfl | rfl
  · exact derivative_two hb hg hq x
  · exact derivative_three hb hg hq x

/-- **A Jacobian** has the gradients of the coordinates of the nodes for its rows. -/
theorem Geometry.jacobianEntry_eq [Stored K] {sdim e i : Nat} {tables : Tables K} {nodes j : Array K}
    {want : Quantities} {config : Execution} {geometry : Geometry K}
    (h : ofNodes dim sdim tables nodes want config = .ok geometry)
    (hj : geometry.jacobians = some j) (hq : q < tables.nqpt ^ dim) (he : e < geometry.ne)
    (hi : i < sdim) (hk : k < dim) :
    jacobianEntry (tables.nqpt ^ dim) sdim dim j q e i k =
      fieldGradient dim tables.ndof tables.nqpt tables.b tables.g
        (nodal (tables.ndof ^ dim) sdim nodes e i) k q := by
  obtain ⟨out, p, hsizes, -, -, hne, hviews⟩ :=
    split_of_ofNodes h (.inl ((wanted_of_ofNodes h).1 (hj ▸ rfl)))
  obtain ⟨b, g, hb, hg, -⟩ := hviews (hne ▸ Nat.zero_lt_of_lt he)
  obtain ⟨-, hbdata, hbshape⟩ := View.ofBuffer_eq_ok.1 hb
  obtain ⟨-, hgdata, hgshape⟩ := View.ofBuffer_eq_ok.1 hg
  rw [jacobianEntry_of_ofNodes h hb hg hj hq he hi hk,
    derivative_eq_fieldGradient hsizes.dim_cases hbshape hgshape hq, hbdata, hgdata]

end

/-! ### The data of an assembly -/

namespace PointData

theorem jacobians_eq_ok {α : Type} {data : PointData α} {j : Array α} :
    data.jacobians = .ok j ↔ data.geometry.jacobians = some j := by
  rw [jacobians]
  cases data.geometry.jacobians with
  | none => simp [refuse]
  | some _ => simp

variable {K : Type} [CommRing K] [Div K] [BEq K] [OfDouble K] [Stored K] {context : Context K}
  {data : PointData K} {j : Array K} {q e : Nat}

/-- **The Jacobian of a point** has the gradients of the coordinates for its rows. -/
theorem jacobianEntry_eq (hcompute : compute context = .ok data) (hj : data.jacobians = .ok j)
    (hq : q < context.rule.numPoints1d ^ context.space.dim) (he : e < context.space.numElements)
    {i k : Nat} (hi : i < context.space.sdim) (hk : k < context.space.dim) :
    jacobianEntry (context.rule.numPoints1d ^ context.space.dim) context.space.sdim
        context.space.dim j q e i k =
      fieldGradient context.space.dim data.tables.ndof data.tables.nqpt data.tables.b data.tables.g
        (nodal context.space.nodesPerElement context.space.sdim context.space.nodes e i) k q := by
  have hwf := compute_wellFormed hcompute
  obtain ⟨shape, basis, tables, geometry, samples, -, -, -, hgeometry, -, rfl⟩ :=
    compute_eq_ok hcompute
  obtain ⟨space, rule, coefficient, execution⟩ := context
  have hnodes : tables.ndof = space.nodesPerAxis := hwf.ndof.trans hwf.d1d
  have hpoints : rule.numPoints1d = tables.nqpt := (hwf.nqpt.trans hwf.q1d).symm
  have hcount : geometry.ne = space.numElements := by
    rw [(Geometry.sized_of_ofNodes hgeometry).ne, hnodes, space.size_div_element]
  have he : e < geometry.ne := hcount.symm ▸ he
  dsimp only at hq hi hk ⊢
  rw [hpoints] at hq ⊢
  rw [Geometry.jacobianEntry_eq hgeometry (jacobians_eq_ok.1 hj) hq he hi hk, hnodes]
  rfl

/-- The Jacobian of a point, in the sizes of the data. -/
theorem jacobianOf_eq (hcompute : compute context = .ok data) (hj : data.jacobians = .ok j)
    (hq : q < data.shape.q1d ^ data.shape.dim) (he : e < data.ne) (i : Fin data.shape.sdim)
    (k : Fin data.shape.dim) :
    data.jacobianOf j q e i k = fieldGradient data.shape.dim data.tables.ndof data.tables.nqpt
      data.tables.b data.tables.g
      (nodal context.space.nodesPerElement context.space.sdim context.space.nodes e i) k q := by
  have hwf := compute_wellFormed hcompute
  obtain ⟨i, hi⟩ := i
  obtain ⟨k, hk⟩ := k
  show jacobianEntry (data.shape.q1d ^ data.shape.dim) data.shape.sdim data.shape.dim j q e i k = _
  dsimp only
  rw [hwf.q1d, hwf.dim] at hq
  rw [hwf.dim] at hk
  rw [hwf.q1d, hwf.dim, hwf.sdim]
  exact jacobianEntry_eq hcompute hj hq (hwf.ne ▸ he) (hwf.sdim ▸ hi) hk

end PointData

/-- The operator data of a context, in the sizes of its space and its rule. -/
theorem Factorized.op_eq {α : Type} [Zero α] [One α] [Add α] [Sub α] [Mul α] [Neg α] [Div α]
    [SquareRoot α] {context : Context α} {data : PointData α} (hwf : data.WellFormed context)
    (j : Array α) :
    (ofData context data j).op =
      OperatorData.stored (OperatorData.pointForm context.space.dim context.space.sdim)
        (context.rule.numPoints1d ^ context.space.dim) context.space.sdim context.space.dim
        context.rule.weights j data.samples.values (Array.replicate
          (context.rule.numPoints1d ^ context.space.dim * symmetricEntries context.space.dim *
            context.space.numElements) 0) := by
  rw [ofData, hwf.q1d, hwf.dim, hwf.sdim, hwf.ne]

/-- The dimensions of a space whose data was computed have a kernel. -/
theorem PointData.WellFormed.hasKernel {α : Type} [Zero α] {context : Context α}
    {data : PointData α} (hwf : data.WellFormed context) :
    HasKernel context.space.dim context.space.sdim := by
  rw [← hwf.dim, ← hwf.sdim]
  exact data.shape.hasKernel

end TensorDiffusion
