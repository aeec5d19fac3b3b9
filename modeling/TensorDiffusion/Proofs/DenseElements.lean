import TensorDiffusion.Proofs.DensePoints

/-!
# Dense element matrices

The element loop of the assembly adds the shares of all points to the matrix of an element
(`element_acts`), and the loops of the action and of the diagonal read that matrix
(`applyElement_acts`, `diagonalElement_acts`).  The matrices that are `Assembled` from operator data
are those of the operator `Bᵀ D B`.
-/

namespace TensorDiffusion

namespace Dense

variable {K : Type} [CommRing K] {dim d1d q1d ne : Nat} {b g op : Array K}

/-! ### The matrix of an element -/

/-- The product of the form and the gradients of a point, entry by entry. -/
theorem flux_entry {q e : Nat} (k : Fin dim) (j : Fin (d1d ^ dim)) :
    (formMatrix dim (q1d ^ dim) op q e * gradientMatrix dim d1d q1d b g q) k j =
      ∑ l ∈ Finset.range dim, formEntry dim (q1d ^ dim) op q e k l *
        gradientEntry dim d1d q1d b g l q j := by
  rw [Matrix.mul_apply, Finset.sum_range]
  rfl

/-- The share of a point, from the matrices that hold its gradients and their fluxes. -/
theorem share_ok {q e k : Nat} {gradient flux : Matrix K}
    (hgradient : gradient.Holds (gradientMatrix dim d1d q1d b g q))
    (hflux : flux.Holds (formMatrix dim (q1d ^ dim) op q e * gradientMatrix dim d1d q1d b g q))
    (hk : k < d1d ^ dim * d1d ^ dim) :
    (total gradient.rows fun r => do
      return (← gradient.get r (k % d1d ^ dim)) * (← flux.get r (k / d1d ^ dim))) =
      .ok (pointEntry dim d1d q1d b g op e q (k % d1d ^ dim) (k / d1d ^ dim)) := by
  rw [hgradient.rows, total_eq (t := fun r => gradientEntry dim d1d q1d b g r q (k % d1d ^ dim) *
    ∑ l ∈ Finset.range dim, formEntry dim (q1d ^ dim) op q e r l *
      gradientEntry dim d1d q1d b g l q (k / d1d ^ dim))]
  · rw [leftSum_eq_sum, zero_add, pointEntry]
    simp only [Finset.mul_sum, mul_assoc]
  · intro r hr
    rw [hgradient.read hr (mod_lt_left hk), ok_bind, hflux.read hr (div_lt_right hk), ok_bind,
      flux_entry]
    rfl

/-- The forms of all points and the gradients of an element's basis functions, as stored. -/
structure Points (dim d1d q1d ne : Nat) (b g op : Array K)
    (pointMatrices gradients : Array (Matrix K)) : Prop where
  forms : ∀ q e, q < q1d ^ dim → e < ne → ∃ form, slot pointMatrices (q + q1d ^ dim * e) = .ok form ∧
    form.Holds (formMatrix dim (q1d ^ dim) op q e)
  gradients : ∀ q < q1d ^ dim, ∃ gradient, slot gradients q = .ok gradient ∧
    gradient.Holds (gradientMatrix dim d1d q1d b g q)

/-- What a point adds to the matrix of an element. -/
theorem addShare_ok [Stored K] {pointMatrices gradients : Array (Matrix K)} {matrix : Array K}
    {q e : Nat} (hp : Points dim d1d q1d ne b g op pointMatrices gradients)
    (hroom : Stored.bytes K * (dim * d1d ^ dim) < Size.bufferBound) (hq : q < q1d ^ dim)
    (he : e < ne) (hsize : matrix.size = d1d ^ dim * d1d ^ dim) :
    (do
      let gradient ← slot gradients q
      let flux ← (← slot pointMatrices (q + q1d ^ dim * e)).mul gradient
      modifyRange 0 (d1d ^ dim * d1d ^ dim) (fun k v => do
        let dot ← total gradient.rows fun r => do
          return (← gradient.get r (k % d1d ^ dim)) * (← flux.get r (k / d1d ^ dim))
        return dot + v) matrix) =
      .ok (matrix.mapIdx fun k v =>
        v + pointEntry dim d1d q1d b g op e q (k % d1d ^ dim) (k / d1d ^ dim)) := by
  obtain ⟨gradient, hslot, hgradient⟩ := hp.gradients q hq
  obtain ⟨form, hform, hholds⟩ := hp.forms q e hq he
  obtain ⟨flux, hmul, hflux⟩ := Matrix.mul_ok hholds hgradient hroom
  rw [hslot, ok_bind, hform, ok_bind, hmul, ok_bind]
  refine modifyAll_eq hsize fun k v hk => ?_
  rw [share_ok hgradient hflux hk, ok_bind, add_comm]
  rfl

/-- **The matrix of an element** receives the shares of all points. -/
theorem element_acts [Stored K] {pointMatrices gradients : Array (Matrix K)}
    (hp : Points dim d1d q1d ne b g op pointMatrices gradients)
    (hroom : Stored.bytes K * (dim * d1d ^ dim) < Size.bufferBound) :
    ActsBy (d1d ^ dim * d1d ^ dim) ne (fun _ => True)
      (element (q1d ^ dim) (d1d ^ dim) pointMatrices gradients) fun e k v =>
        v + matrixEntry dim d1d q1d b g op e (k % d1d ^ dim) (k / d1d ^ dim) := by
  intro _ e chunk _ he hchunk
  refine ⟨(), trivial, ?_⟩
  -- After `n` points an entry has received the shares of those points.
  let P (n : Nat) (matrix : Array K) : Prop := matrix = chunk.mapIdx fun k v =>
    v + ∑ q ∈ Finset.range n, pointEntry dim d1d q1d b g op e q (k % d1d ^ dim) (k / d1d ^ dim)
  have hstart : P 0 chunk := by
    simp only [P, Finset.range_zero, Finset.sum_empty, add_zero]
    exact (mapIdx_eq_self chunk).symm
  have hsize : ∀ n matrix, P n matrix → matrix.size = d1d ^ dim * d1d ^ dim := by
    intro n matrix h
    rw [h, Array.size_mapIdx, hchunk]
  have hnext : ∀ q matrix, P q matrix → P (q + 1) (matrix.mapIdx fun k v =>
      v + pointEntry dim d1d q1d b g op e q (k % d1d ^ dim) (k / d1d ^ dim)) := by
    intro q matrix h
    simp only [P] at h ⊢
    rw [h, mapIdx_mapIdx]
    simp only [Finset.sum_range_succ, add_assoc]
  obtain ⟨matrix, hrun, rfl⟩ := sweep_induction P hstart fun q matrix hq h =>
    ⟨_, addShare_ok hp hroom hq he (hsize q matrix h), hnext q matrix h⟩
  rw [element, Matrix.ofSlice_ok (Nat.le_of_eq hchunk.symm), ok_bind]
  exact bind_eq_ok.2 ⟨_, hrun, rfl⟩

/-- The matrices of all elements, column by column. -/
def assembled (dim d1d q1d ne : Nat) (b g op : Array K) : Array K :=
  let nd := d1d ^ dim
  Array.ofFn fun k : Fin (nd * nd * ne) =>
    matrixEntry dim d1d q1d b g op (k / (nd * nd)) (k % (nd * nd) % nd) (k % (nd * nd) / nd)

/-- The element loop of the assembly, on a blank output. -/
theorem fill_ok [Stored K] (config : Execution) {pointMatrices gradients : Array (Matrix K)}
    (hd : 0 < d1d) (hp : Points dim d1d q1d ne b g op pointMatrices gradients)
    (hroom : Stored.bytes K * (dim * d1d ^ dim) < Size.bufferBound) :
    Update.fill (forElements config (d1d ^ dim * d1d ^ dim) (.ofValue ())
        (element (q1d ^ dim) (d1d ^ dim) pointMatrices gradients))
        (Array.replicate (d1d ^ dim * d1d ^ dim * ne) 0) =
      .ok (assembled dim d1d q1d ne b g op) := by
  have hnd : 0 < d1d ^ dim := Nat.pow_pos hd
  have hsize : (Array.replicate (d1d ^ dim * d1d ^ dim * ne) (0 : K)).size =
      ne * (d1d ^ dim * d1d ^ dim) := by
    rw [Array.size_replicate, Nat.mul_comm]
  rw [Update.fill, forElements_eq (element_acts hp hroom) (Nat.mul_pos hnd hnd) rfl trivial hsize]
  refine congrArg _ (Array.ext (by simp [assembled]) fun k _ _ => ?_)
  rw [Array.getElem_mapIdx, Array.getElem_replicate, zero_add]
  simp only [assembled, Array.getElem_ofFn]

/-! ### The matrix, read -/

@[simp]
theorem size_assembled :
    (assembled dim d1d q1d ne b g op).size = d1d ^ dim * d1d ^ dim * ne :=
  Array.size_ofFn

theorem slot_assembled {e i j : Nat} (he : e < ne) (hi : i < d1d ^ dim) (hj : j < d1d ^ dim) :
    slot (assembled dim d1d q1d ne b g op) (d1d ^ dim * d1d ^ dim * e + (i + d1d ^ dim * j)) =
      .ok (matrixEntry dim d1d q1d b g op e i j) := by
  have hij := pair_lt hi hj
  rw [Nat.add_comm]
  refine (slot_ofFn (f := fun k => matrixEntry dim d1d q1d b g op (k / (d1d ^ dim * d1d ^ dim))
    (k % (d1d ^ dim * d1d ^ dim) % d1d ^ dim) (k % (d1d ^ dim * d1d ^ dim) / d1d ^ dim))
    (pair_lt hij he)).trans ?_
  rw [pair_div e hij, pair_mod e hij, pair_mod j hi, pair_div j hi]

/-- The operator with the matrices of a given one: `b` and `g` are its tables, `op` its operator
data. -/
def ofForms (shape : Shape) (ne : Nat) (config : Execution) (b g op : Array K) : Dense K where
  shape := shape
  ne := ne
  matrices := assembled shape.dim shape.d1d shape.q1d ne b g op
  execution := config

omit [CommRing K] in
/-- The values of an element, in the part of a vector that belongs to it. -/
theorem part_ok [Zero K] {nd vdim e : Nat} {x : Array K} (hx : x.size = nd * vdim * ne)
    (he : e < ne) :
    ∃ part matrix, slice x (e * nd * vdim) ((e + 1) * nd * vdim) = .ok part ∧
      Matrix.ofSlice nd vdim part = .ok matrix ∧
      ∀ c k, c < vdim → k < nd → matrix.get k c = .ok (nodal nd vdim x e c k) := by
  -- The part starts where the elements before it end.
  have hstart : ∀ m, m * nd * vdim = nd * vdim * m := fun m => by
    rw [Nat.mul_assoc, Nat.mul_comm]
  have hstop : (e + 1) * nd * vdim ≤ x.size := by
    rw [hstart, hx]
    exact Nat.mul_le_mul_left _ he
  have hle : e * nd * vdim ≤ (e + 1) * nd * vdim := by
    rw [hstart, hstart]
    exact Nat.mul_le_mul_left _ (Nat.le_succ e)
  have hsize : nd * vdim ≤ (x.extract (e * nd * vdim) ((e + 1) * nd * vdim)).size := by
    rw [Array.size_extract, Nat.min_eq_left hstop, hstart, hstart, Nat.mul_succ,
      Nat.add_sub_cancel_left]
  refine ⟨_, _, slice_eq hle hstop, Matrix.ofSlice_ok hsize, ?_⟩
  intro c k hc hk
  have hlt : e * nd * vdim + (k + nd * c) < (e + 1) * nd * vdim := by
    rw [hstart, hstart, Nat.mul_succ]
    exact Nat.add_lt_add_left (pair_lt hk hc) _
  have hplace : e * nd * vdim + (k + nd * c) = k + nd * (c + vdim * e) := by
    rw [hstart, Nat.mul_add, Nat.add_comm, Nat.add_assoc, Nat.mul_assoc]
  rw [Matrix.get, if_pos ⟨hk, hc⟩, slot_extract hlt hstop, hplace, nodal]
  exact slot_getD 0 (by rw [hx]; exact nodal_lt he hc hk)

section

variable {shape : Shape} {config : Execution}
  (hroom : shape.d1d ^ shape.dim * shape.d1d ^ shape.dim * max 1 ne < Size.bufferBound)

include hroom

omit [CommRing K] in
theorem matrixStart_ok {m : Nat} (hm : m ≤ ne) :
    Size.product [m, shape.d1d ^ shape.dim, shape.d1d ^ shape.dim] =
      .ok (shape.d1d ^ shape.dim * shape.d1d ^ shape.dim * m) := by
  have hnd : 0 < shape.d1d ^ shape.dim := Nat.pow_pos shape.d1d_pos
  have hle : nonemptyVolume [m, shape.d1d ^ shape.dim, shape.d1d ^ shape.dim] ≤
      shape.d1d ^ shape.dim * shape.d1d ^ shape.dim * max 1 ne := by
    simp only [nonemptyVolume_cons, nonemptyVolume_nil, Nat.max_eq_right hnd, Nat.mul_one]
    rw [Nat.mul_comm]
    exact Nat.mul_le_mul_left _ (by omega)
  rw [Size.product_ok (Size.lt_bound (Nat.lt_of_le_of_lt hle hroom))]
  simp only [volume, Nat.mul_one, Nat.mul_comm m]

omit [CommRing K] in
theorem numNodes_ok : shape.numNodes = .ok (shape.d1d ^ shape.dim) := by
  have hnd : 0 < shape.d1d ^ shape.dim := Nat.pow_pos shape.d1d_pos
  have hmatrix : shape.d1d ^ shape.dim * shape.d1d ^ shape.dim < Size.bufferBound :=
    Nat.lt_of_le_of_lt (Nat.le_mul_of_pos_right _ (by omega)) hroom
  exact Size.pow_ok (Nat.lt_of_le_of_lt (Nat.le_mul_of_pos_right _ hnd) hmatrix)

omit hroom [CommRing K] in
/-- The matrix of an element is a part of the matrices. -/
theorem elementMatrix_eq {operator : Dense K} {nd e : Nat}
    (hnd : nd = operator.shape.d1d ^ operator.shape.dim)
    (hroom : nd * nd * max 1 operator.ne < Size.bufferBound)
    (hsize : operator.matrices.size = nd * nd * operator.ne) (he : e < operator.ne) :
    operator.elementMatrix e =
      .ok ⟨nd, nd, operator.matrices.extract (nd * nd * e) (nd * nd * (e + 1))⟩ := by
  subst hnd
  have hpos : 0 < operator.shape.d1d ^ operator.shape.dim := Nat.pow_pos operator.shape.d1d_pos
  have hmatrix : operator.shape.d1d ^ operator.shape.dim * operator.shape.d1d ^ operator.shape.dim *
      operator.ne < Size.bufferBound :=
    Nat.lt_of_le_of_lt (Nat.mul_le_mul_left _ (Nat.le_max_right 1 operator.ne)) hroom
  have hadd : Size.add e 1 = .ok (e + 1) := Size.add_ok <|
    Nat.lt_of_le_of_lt (Nat.le_trans he (Nat.le_mul_of_pos_left _ (Nat.mul_pos hpos hpos))) hmatrix
  have hstop : operator.shape.d1d ^ operator.shape.dim * operator.shape.d1d ^ operator.shape.dim *
      (e + 1) ≤ operator.matrices.size := by
    rw [hsize]
    exact Nat.mul_le_mul_left _ he
  rw [elementMatrix, numNodes_ok hroom, ok_bind, matrixStart_ok hroom (Nat.le_of_lt he),
    ok_bind, hadd, ok_bind, matrixStart_ok hroom he, ok_bind,
    slice_eq (Nat.mul_le_mul_left _ (Nat.le_succ e)) hstop, ok_bind]
  refine Matrix.ofSlice_ok ?_
  rw [Array.size_extract, Nat.min_eq_left hstop, Nat.mul_succ, Nat.add_sub_cancel_left]

omit hroom [CommRing K] in
/-- The entries of the matrix of an element stand together in the matrices. -/
theorem get_part {matrices : Array K} {nd e i j : Nat} (h : nd * nd * (e + 1) ≤ matrices.size)
    (hi : i < nd) (hj : j < nd) :
    (⟨nd, nd, matrices.extract (nd * nd * e) (nd * nd * (e + 1))⟩ : Matrix K).get i j =
      slot matrices (nd * nd * e + (i + nd * j)) := by
  have hlt : nd * nd * e + (i + nd * j) < nd * nd * (e + 1) := by
    rw [Nat.mul_succ]
    exact Nat.add_lt_add_left (pair_lt hi hj) _
  rw [Matrix.get, if_pos ⟨hi, hj⟩, slot_extract hlt h]

/-- The matrix of an element is found. -/
theorem elementMatrix_ok {e : Nat} (he : e < ne) :
    ∃ m, (ofForms shape ne config b g op).elementMatrix e = .ok m ∧ m.Holds (fun i j =>
      matrixEntry shape.dim shape.d1d shape.q1d b g op e i j :
        FinMatrix (shape.d1d ^ shape.dim) (shape.d1d ^ shape.dim) K) := by
  have hstop : shape.d1d ^ shape.dim * shape.d1d ^ shape.dim * (e + 1) ≤
      (assembled shape.dim shape.d1d shape.q1d ne b g op).size := by
    rw [size_assembled]
    exact Nat.mul_le_mul_left _ he
  have hrun : (ofForms shape ne config b g op).elementMatrix e =
      .ok ⟨shape.d1d ^ shape.dim, shape.d1d ^ shape.dim,
        (assembled shape.dim shape.d1d shape.q1d ne b g op).extract
          (shape.d1d ^ shape.dim * shape.d1d ^ shape.dim * e)
          (shape.d1d ^ shape.dim * shape.d1d ^ shape.dim * (e + 1))⟩ :=
    elementMatrix_eq rfl hroom size_assembled he
  refine ⟨_, hrun, rfl, rfl, ?_⟩
  intro i j
  rw [get_part hstop i.isLt j.isLt, slot_assembled he i.isLt j.isLt]

/-- **The action on an element** adds the product with its matrix. -/
theorem applyElement_acts {vdim : Nat} {x : Array K}
    (hx : x.size = shape.d1d ^ shape.dim * vdim * ne) :
    ActsBy (shape.d1d ^ shape.dim * vdim) ne (fun _ => True)
      ((ofForms shape ne config b g op).applyElement (shape.d1d ^ shape.dim) vdim x) fun e n v =>
        v + stiffness shape.dim shape.d1d shape.q1d b g op e
          (nodal (shape.d1d ^ shape.dim) vdim x e (n / shape.d1d ^ shape.dim))
          (n % shape.d1d ^ shape.dim) := by
  intro _ e chunk _ he hchunk
  refine ⟨(), trivial, ?_⟩
  obtain ⟨matrix, hmatrix, hholds⟩ := elementMatrix_ok (b := b) (g := g) hroom he
  obtain ⟨part, values, hpart, hvalues, hvalue⟩ := part_ok hx he
  rw [applyElement, hpart, ok_bind, hvalues, ok_bind, Matrix.ofSlice_ok (Nat.le_of_eq hchunk.symm),
    ok_bind, hmatrix, ok_bind]
  refine bind_eq_ok.2 ⟨_, modifyAll_eq hchunk fun n v hn => ?_, rfl⟩
  dsimp only
  rw [stiffness_eq_matrix]
  refine sweep_eq_sum fun s k hk => ?_
  rw [hholds.read (mod_lt_left hn) hk, ok_bind, hvalue _ k (div_lt_right hn) hk, ok_bind]
  rfl

/-- **The diagonal of an element** is that of its matrix. -/
theorem diagonalElement_acts {vdim : Nat} :
    ActsBy (shape.d1d ^ shape.dim * vdim) ne (fun _ => True)
      ((ofForms shape ne config b g op).diagonalElement (shape.d1d ^ shape.dim) vdim) fun e n v =>
        v + diagonalEntry shape.dim shape.d1d shape.q1d b g op e (n % shape.d1d ^ shape.dim) := by
  intro _ e chunk _ he hchunk
  refine ⟨(), trivial, ?_⟩
  obtain ⟨matrix, hmatrix, hholds⟩ := elementMatrix_ok (b := b) (g := g) hroom he
  rw [diagonalElement, hmatrix, ok_bind]
  refine bind_eq_ok.2 ⟨_, modifyAll_eq hchunk fun n v hn => ?_, rfl⟩
  rw [hholds.read (mod_lt_left hn) (mod_lt_left hn), ok_bind]
  rfl

end

end Dense

end TensorDiffusion
