import Mathlib.Algebra.BigOperators.Ring.Finset
import Mathlib.Algebra.BigOperators.Group.Finset.Sigma
import Mathlib.Tactic.Ring
import TensorDiffusion.Diffusion.Shape
import TensorDiffusion.Proofs.Indexing
import TensorDiffusion.Proofs.Loops

/-!
# The bilinear form of diffusion

The operator `Bᵀ D B` on one element, as sums over quadrature points, axes and nodes, without sum
factorization.  Here the laws of a commutative ring enter for the first time.

* `gradientEntry`: the derivative of a basis function along an axis, at a point.
* `formEntry`: the symmetric matrix stored at a point.
* `stiffness`: the operator applied to the nodal values of an element.

Points and nodes of `dim` axes have flat indices, x fastest: position `p / n ^ axis % n` on each
axis.
-/

namespace TensorDiffusion

/-! ### Sums over flat indices -/

section

variable {M : Type} [AddCommMonoid M]

theorem leftSum_eq_sum (start : M) (n : Nat) (t : Nat → M) :
    leftSum start n t = start + ∑ k ∈ Finset.range n, t k := by
  induction n with
  | zero => simp [leftSum]
  | succ n ih => rw [leftSum, ih, Finset.sum_range_succ, add_assoc]

/-- A fold whose steps add a term. -/
theorem foldl_eq_sum {f : M → Nat → M} {t : Nat → M} (h : ∀ s k, f s k = s + t k) (start : M)
    (n : Nat) : (List.range n).foldl f start = start + ∑ k ∈ Finset.range n, t k := by
  induction n with
  | zero => simp
  | succ n ih =>
    rw [List.range_succ, List.foldl_append, ih, Finset.sum_range_succ, ← add_assoc]
    exact h _ n

/-- A sum over flat indices of two axes. -/
theorem sum_range_pairs (m n : Nat) (f : Nat → M) :
    ∑ k ∈ Finset.range (m * n), f k =
      ∑ b ∈ Finset.range n, ∑ a ∈ Finset.range m, f (a + m * b) := by
  induction n with
  | zero => simp
  | succ n ih =>
    rw [Nat.mul_succ, Finset.sum_range_add, ih, Finset.sum_range_succ]
    simp only [Nat.add_comm (m * n)]

/-- A sum over flat indices of three axes. -/
theorem sum_range_triples (l m n : Nat) (f : Nat → M) :
    ∑ k ∈ Finset.range (l * m * n), f k =
      ∑ c ∈ Finset.range n, ∑ b ∈ Finset.range m, ∑ a ∈ Finset.range l,
        f (a + l * (b + m * c)) := by
  rw [sum_range_pairs]
  refine Finset.sum_congr rfl fun c _ => ?_
  rw [Nat.mul_assoc, sum_range_pairs l m fun k => f (k + l * (m * c))]
  refine Finset.sum_congr rfl fun b _ => Finset.sum_congr rfl fun a _ => ?_
  rw [Nat.mul_add, Nat.add_assoc]

/-- A sum over flat indices of products over the axes is a product of sums over one axis. -/
theorem sum_prod_digits {R : Type} [CommSemiring R] (d n : Nat) (f : Nat → Nat → R) :
    ∑ k ∈ Finset.range (d ^ n), ∏ axis ∈ Finset.range n, f axis (k / d ^ axis % d) =
      ∏ axis ∈ Finset.range n, ∑ a ∈ Finset.range d, f axis a := by
  induction n with
  | zero => simp
  | succ n ih =>
    rw [pow_succ, sum_range_pairs, Finset.prod_range_succ, ← ih, Finset.sum_mul_sum,
      Finset.sum_comm]
    refine Finset.sum_congr rfl fun k hk => Finset.sum_congr rfl fun a ha => ?_
    have hk := Finset.mem_range.1 hk
    have ha := Finset.mem_range.1 ha
    rw [Finset.prod_range_succ, pair_div a hk, Nat.mod_eq_of_lt ha]
    refine congrArg (· * f n a) (Finset.prod_congr rfl fun axis haxis => ?_)
    rw [← digit_mod (k + d ^ n * a) (Finset.mem_range.1 haxis), pair_mod a hk]

/-- Three nested sums, the innermost outermost. -/
theorem sum_rotate {r s t : Finset Nat} (f : Nat → Nat → Nat → M) :
    ∑ c ∈ r, ∑ b ∈ s, ∑ a ∈ t, f c b a = ∑ a ∈ t, ∑ c ∈ r, ∑ b ∈ s, f c b a :=
  calc ∑ c ∈ r, ∑ b ∈ s, ∑ a ∈ t, f c b a
      = ∑ c ∈ r, ∑ a ∈ t, ∑ b ∈ s, f c b a := Finset.sum_congr rfl fun _ _ => Finset.sum_comm
    _ = ∑ a ∈ t, ∑ c ∈ r, ∑ b ∈ s, f c b a := Finset.sum_comm

/-- Three nested sums, in the opposite order. -/
theorem sum_reverse {r s t : Finset Nat} (f : Nat → Nat → Nat → M) :
    ∑ c ∈ r, ∑ b ∈ s, ∑ a ∈ t, f c b a = ∑ a ∈ t, ∑ b ∈ s, ∑ c ∈ r, f c b a := by
  rw [sum_rotate]
  exact Finset.sum_congr rfl fun _ _ => Finset.sum_comm

end

/-! ### Symmetric matrices in storage -/

/-- The places on and above the diagonal, row by row. -/
def upperTriangle (dim : Nat) : List (Nat × Nat) :=
  (List.range dim).flatMap fun i => (List.range' i (dim - i)).map (i, ·)

/-- Where the entry in row `k` and column `l` of a symmetric matrix is stored. -/
def packed (dim k l : Nat) : Nat :=
  (upperTriangle dim).idxOf (min k l, max k l)

example : upperTriangle 3 = [(0, 0), (0, 1), (0, 2), (1, 1), (1, 2), (2, 2)] := by decide

theorem packed_comm (dim k l : Nat) : packed dim k l = packed dim l k := by
  rw [packed, packed, Nat.min_comm, Nat.max_comm]

variable {K : Type}

/-! ### The operator of one element -/

/-- The entry in row `k` and column `l` of the matrix at point `q` of element `e`, in operator data
of layout `(NQ, DIM (DIM + 1) / 2, NE)`. -/
def formEntry [Zero K] (dim nq : Nat) (op : Array K) (q e k l : Nat) : K :=
  op.getD (q + nq * (packed dim k l + symmetricEntries dim * e)) 0

theorem formEntry_comm [Zero K] (dim nq : Nat) (op : Array K) (q e k l : Nat) :
    formEntry dim nq op q e k l = formEntry dim nq op q e l k := by
  rw [formEntry, formEntry, packed_comm]

/-- The value at node `j` of component `c` of element `e`, in a vector of layout
`(D1D^dim, VDIM, NE)` with `nd` nodes per element. -/
def nodal [Zero K] (nd vdim : Nat) (x : Array K) (e c j : Nat) : K :=
  x.getD (j + nd * (c + vdim * e)) 0

/-- The factor of an axis in the derivative along axis `k`, at the point `q` and the node `d` of
the axis: the derivative table on the axis `k` itself, the value table on the others. -/
def axisEntry [Zero K] (q1d : Nat) (b g : Array K) (k axis q d : Nat) : K :=
  (if axis = k then g else b).getD (q + q1d * d) 0

theorem axisEntry_self [Zero K] (q1d : Nat) (b g : Array K) (k q d : Nat) :
    axisEntry q1d b g k k q d = g.getD (q + q1d * d) 0 := by
  rw [axisEntry, if_pos rfl]

theorem axisEntry_ne [Zero K] (q1d : Nat) (b g : Array K) {k axis : Nat} (h : axis ≠ k) (q d : Nat) :
    axisEntry q1d b g k axis q d = b.getD (q + q1d * d) 0 := by
  rw [axisEntry, if_neg h]

variable [CommRing K] {dim d1d q1d : Nat} {b g op : Array K} {e i : Nat}

/-- The derivative along axis `k` of the basis function of node `i`, at the point `q`. -/
def gradientEntry (dim d1d q1d : Nat) (b g : Array K) (k q i : Nat) : K :=
  ∏ axis ∈ Finset.range dim,
    axisEntry q1d b g k axis (q / q1d ^ axis % q1d) (i / d1d ^ axis % d1d)

/-- The derivative along axis `l`, at the point `q`, of the field with nodal values `x`. -/
def fieldGradient (dim d1d q1d : Nat) (b g : Array K) (x : Nat → K) (l q : Nat) : K :=
  ∑ j ∈ Finset.range (d1d ^ dim), gradientEntry dim d1d q1d b g l q j * x j

/-- The operator of element `e` applied to the nodal values `x`, at node `i`. -/
def stiffness (dim d1d q1d : Nat) (b g op : Array K) (e : Nat) (x : Nat → K) (i : Nat) : K :=
  ∑ q ∈ Finset.range (q1d ^ dim), ∑ k ∈ Finset.range dim, ∑ l ∈ Finset.range dim,
    gradientEntry dim d1d q1d b g k q i * formEntry dim (q1d ^ dim) op q e k l *
      fieldGradient dim d1d q1d b g x l q

/-- The vector `y` with the operator applied to `x` added: every entry belongs to one node of one
component of one element. -/
def addStiffness (dim vdim d1d q1d : Nat) (b g op x y : Array K) : Array K :=
  y.mapIdx fun n v =>
    v + stiffness dim d1d q1d b g op (n / (d1d ^ dim * vdim))
      (nodal (d1d ^ dim) vdim x (n / (d1d ^ dim * vdim)) (n / d1d ^ dim % vdim)) (n % d1d ^ dim)

@[simp]
theorem size_addStiffness (vdim : Nat) (x y : Array K) :
    (addStiffness dim vdim d1d q1d b g op x y).size = y.size :=
  Array.size_mapIdx

/-- A vector has an entry for every node of every component of every element. -/
theorem nodal_lt {nd vdim ne e c i : Nat} (he : e < ne) (hc : c < vdim) (hi : i < nd) :
    i + nd * (c + vdim * e) < nd * vdim * ne := by
  rw [Nat.mul_assoc]
  exact pair_lt hi (pair_lt hc he)

theorem nodal_addStiffness {vdim ne e c i : Nat} {x y : Array K}
    (hy : y.size = d1d ^ dim * vdim * ne) (he : e < ne) (hc : c < vdim) (hi : i < d1d ^ dim) :
    nodal (d1d ^ dim) vdim (addStiffness dim vdim d1d q1d b g op x y) e c i =
      nodal (d1d ^ dim) vdim y e c i +
        stiffness dim d1d q1d b g op e (nodal (d1d ^ dim) vdim x e c) i := by
  have hlt : i + d1d ^ dim * (c + vdim * e) < y.size := by
    rw [hy]
    exact nodal_lt he hc hi
  obtain ⟨hnode, hcomponent, helement⟩ := triple_positions e hi hc
  simp only [nodal, addStiffness, Array.getD_eq_getD_getElem?, Array.getElem?_mapIdx,
    Array.getElem?_eq_getElem hlt, Option.map_some, Option.getD_some, hnode, hcomponent, helement]

/-- The flux of a field along axis `k` at the point `q`. -/
def fluxEntry (dim d1d q1d : Nat) (b g op : Array K) (e : Nat) (x : Nat → K) (k q : Nat) : K :=
  ∑ l ∈ Finset.range dim,
    formEntry dim (q1d ^ dim) op q e k l * fieldGradient dim d1d q1d b g x l q

/-- The operator tests the flux against the gradient of the basis function. -/
theorem stiffness_eq_tested (x : Nat → K) :
    stiffness dim d1d q1d b g op e x i =
      ∑ k ∈ Finset.range dim, ∑ q ∈ Finset.range (q1d ^ dim),
        gradientEntry dim d1d q1d b g k q i * fluxEntry dim d1d q1d b g op e x k q := by
  rw [stiffness, Finset.sum_comm]
  refine Finset.sum_congr rfl fun k _ => Finset.sum_congr rfl fun q _ => ?_
  rw [fluxEntry, Finset.mul_sum]
  exact Finset.sum_congr rfl fun l _ => mul_assoc _ _ _

/-! ### Its matrix -/

/-- The share of the point `q` in the matrix of element `e`, in row `i` and column `j`. -/
def pointEntry (dim d1d q1d : Nat) (b g op : Array K) (e q i j : Nat) : K :=
  ∑ k ∈ Finset.range dim, ∑ l ∈ Finset.range dim,
    gradientEntry dim d1d q1d b g k q i * formEntry dim (q1d ^ dim) op q e k l *
      gradientEntry dim d1d q1d b g l q j

/-- The matrix of element `e`, in row `i` and column `j`. -/
def matrixEntry (dim d1d q1d : Nat) (b g op : Array K) (e i j : Nat) : K :=
  ∑ q ∈ Finset.range (q1d ^ dim), pointEntry dim d1d q1d b g op e q i j

/-- The operator is the product with the matrix. -/
theorem stiffness_eq_matrix (x : Nat → K) :
    stiffness dim d1d q1d b g op e x i =
      ∑ j ∈ Finset.range (d1d ^ dim), matrixEntry dim d1d q1d b g op e i j * x j := by
  simp only [stiffness, matrixEntry, pointEntry, fieldGradient, Finset.mul_sum, Finset.sum_mul]
  symm
  -- The sum over nodes moves inwards, past the points and both axes.
  rw [Finset.sum_comm]
  refine Finset.sum_congr rfl fun q _ => ?_
  rw [Finset.sum_comm]
  refine Finset.sum_congr rfl fun k _ => ?_
  rw [Finset.sum_comm]
  refine Finset.sum_congr rfl fun l _ => Finset.sum_congr rfl fun j _ => ?_
  rw [mul_assoc _ _ (x j)]

/-! ### Its diagonal -/

/-- The diagonal entry of the operator of element `e` at node `i`. -/
def diagonalEntry (dim d1d q1d : Nat) (b g op : Array K) (e i : Nat) : K :=
  ∑ q ∈ Finset.range (q1d ^ dim), ∑ k ∈ Finset.range dim, ∑ l ∈ Finset.range dim,
    gradientEntry dim d1d q1d b g k q i * formEntry dim (q1d ^ dim) op q e k l *
      gradientEntry dim d1d q1d b g l q i

/-- The operator applied to a unit vector has the diagonal entry at its node. -/
theorem stiffness_unit {x : Nat → K} (hi : i < d1d ^ dim)
    (hx : ∀ j < d1d ^ dim, x j = if j = i then 1 else 0) :
    stiffness dim d1d q1d b g op e x i = diagonalEntry dim d1d q1d b g op e i := by
  have hgradient : ∀ l q, fieldGradient dim d1d q1d b g x l q =
      gradientEntry dim d1d q1d b g l q i := by
    intro l q
    rw [fieldGradient, Finset.sum_eq_single i]
    · rw [hx i hi, if_pos rfl, mul_one]
    · intro j hj hne
      rw [hx j (Finset.mem_range.1 hj), if_neg hne, mul_zero]
    · intro h
      exact absurd (Finset.mem_range.2 hi) h
  simp only [stiffness, diagonalEntry, hgradient]

/-- The positions of a node on the axes, from the place of its entry in a chunk. -/
theorem gradientEntry_mod (k q n : Nat) :
    gradientEntry dim d1d q1d b g k q (n % d1d ^ dim) = gradientEntry dim d1d q1d b g k q n :=
  Finset.prod_congr rfl fun axis haxis => by
    rw [digit_mod n (Finset.mem_range.1 haxis)]

theorem diagonalEntry_mod (n : Nat) :
    diagonalEntry dim d1d q1d b g op e (n % d1d ^ dim) = diagonalEntry dim d1d q1d b g op e n := by
  simp only [diagonalEntry, gradientEntry_mod]

theorem diagonalEntry_chunk (vdim n : Nat) :
    diagonalEntry dim d1d q1d b g op e (n % (d1d ^ dim * vdim)) =
      diagonalEntry dim d1d q1d b g op e n := by
  rw [← diagonalEntry_mod (n % _), Nat.mod_mul_right_mod, diagonalEntry_mod]

/-- The vector `y` with the diagonal of the operator added. -/
def addDiagonal (dim vdim d1d q1d : Nat) (b g op y : Array K) : Array K :=
  y.mapIdx fun n v => v + diagonalEntry dim d1d q1d b g op (n / (d1d ^ dim * vdim)) n

@[simp]
theorem size_addDiagonal (vdim : Nat) (y : Array K) :
    (addDiagonal dim vdim d1d q1d b g op y).size = y.size :=
  Array.size_mapIdx

/-- The vector with a one at the place `n` and zeros elsewhere. -/
def unitVector (len n : Nat) : Array K :=
  Array.ofFn fun k : Fin len => if (k : Nat) = n then 1 else 0

/-- On the component of place `n`, the unit vector there is that of its node. -/
theorem nodal_unitVector {nd vdim ne n j : Nat} (hn : n < nd * vdim * ne) (hj : j < nd) :
    nodal nd vdim (unitVector (nd * vdim * ne) n : Array K) (n / (nd * vdim)) (n / nd % vdim) j =
      if j = n % nd then 1 else 0 := by
  have hn' : n < nd * (vdim * ne) := by rwa [← Nat.mul_assoc]
  have hplace : n % nd + nd * (n / nd % vdim + vdim * (n / (nd * vdim))) = n := by
    rw [← Nat.div_div_eq_div_mul, Nat.mod_add_div, Nat.mod_add_div]
  have hlt : j + nd * (n / nd % vdim + vdim * (n / (nd * vdim))) < nd * vdim * ne :=
    nodal_lt (div_lt_right hn) (mod_lt_left (div_lt_right hn')) hj
  -- Element and component are those of `n` already, so the place is that of `n` if the node is.
  have hiff : j + nd * (n / nd % vdim + vdim * (n / (nd * vdim))) = n ↔ j = n % nd := by
    omega
  rw [nodal, unitVector, getD_ofFn 0 hlt]
  exact ite_congr (propext hiff) (fun _ => rfl) fun _ => rfl

/-- **The diagonal collects the diagonal entries of the columns.** -/
theorem getElem_addDiagonal {vdim ne n : Nat} {y zeros : Array K}
    (hy : y.size = d1d ^ dim * vdim * ne) (hzeros : zeros = Array.replicate y.size 0)
    (hn : n < y.size) :
    (addDiagonal dim vdim d1d q1d b g op y).getD n 0 = y.getD n 0 +
      (addStiffness dim vdim d1d q1d b g op (unitVector y.size n) zeros).getD n 0 := by
  have hn' : n < d1d ^ dim * (vdim * ne) := by rwa [← Nat.mul_assoc, ← hy]
  have hunit : stiffness dim d1d q1d b g op (n / (d1d ^ dim * vdim))
      (nodal (d1d ^ dim) vdim (unitVector (d1d ^ dim * vdim * ne) n) (n / (d1d ^ dim * vdim))
        (n / d1d ^ dim % vdim)) (n % d1d ^ dim) =
      diagonalEntry dim d1d q1d b g op (n / (d1d ^ dim * vdim)) (n % d1d ^ dim) :=
    stiffness_unit (mod_lt_left hn') fun j hj => nodal_unitVector (hy ▸ hn) hj
  have hlt : n < zeros.size := by rwa [hzeros, Array.size_replicate]
  simp only [addDiagonal, addStiffness, Array.getD_eq_getD_getElem?, Array.getElem?_mapIdx,
    Array.getElem?_eq_getElem hn, Array.getElem?_eq_getElem hlt, Option.map_some, Option.getD_some]
  rw [hy, hunit, diagonalEntry_mod]
  simp [hzeros]

/-! ### Two axes -/

theorem gradientEntry_two (k q i : Nat) :
    gradientEntry 2 d1d q1d b g k q i =
      axisEntry q1d b g k 0 (q % q1d) (i % d1d) *
        axisEntry q1d b g k 1 (q / q1d % q1d) (i / d1d % d1d) := by
  simp [gradientEntry, Finset.prod_range_succ]

/-- A field is differentiated one axis at a time. -/
theorem fieldGradient_two (x : Nat → K) (l q : Nat) :
    fieldGradient 2 d1d q1d b g x l q =
      ∑ dy ∈ Finset.range d1d,
        (∑ dx ∈ Finset.range d1d, x (dx + d1d * dy) * axisEntry q1d b g l 0 (q % q1d) dx) *
          axisEntry q1d b g l 1 (q / q1d % q1d) dy := by
  rw [fieldGradient, pow_two, sum_range_pairs]
  refine Finset.sum_congr rfl fun dy hdy => ?_
  rw [Finset.sum_mul]
  refine Finset.sum_congr rfl fun dx hdx => ?_
  have hdx := Finset.mem_range.1 hdx
  have hdy := Finset.mem_range.1 hdy
  rw [gradientEntry_two, pair_mod dy hdx, pair_div dy hdx, Nat.mod_eq_of_lt hdy]
  ring

/-- A field on the points is tested one axis at a time. -/
theorem tested_two (f : Nat → K) (k : Nat) (hi : i < d1d * d1d) :
    ∑ q ∈ Finset.range (q1d ^ 2), gradientEntry 2 d1d q1d b g k q i * f q =
      ∑ qy ∈ Finset.range q1d,
        (∑ qx ∈ Finset.range q1d, f (qx + q1d * qy) * axisEntry q1d b g k 0 qx (i % d1d)) *
          axisEntry q1d b g k 1 qy (i / d1d) := by
  rw [pow_two, sum_range_pairs]
  refine Finset.sum_congr rfl fun qy hqy => ?_
  rw [Finset.sum_mul]
  refine Finset.sum_congr rfl fun qx hqx => ?_
  have hqx := Finset.mem_range.1 hqx
  have hqy := Finset.mem_range.1 hqy
  rw [gradientEntry_two, pair_mod qy hqx, pair_div qy hqx, Nat.mod_eq_of_lt hqy,
    Nat.mod_eq_of_lt (div_lt_right hi)]
  ring

/-! ### Three axes -/

theorem gradientEntry_three (k q i : Nat) :
    gradientEntry 3 d1d q1d b g k q i =
      axisEntry q1d b g k 0 (q % q1d) (i % d1d) *
        axisEntry q1d b g k 1 (q / q1d % q1d) (i / d1d % d1d) *
        axisEntry q1d b g k 2 (q / (q1d * q1d) % q1d) (i / (d1d * d1d) % d1d) := by
  simp [gradientEntry, Finset.prod_range_succ, pow_two]

/-- A field is differentiated one axis at a time. -/
theorem fieldGradient_three (x : Nat → K) (l q : Nat) :
    fieldGradient 3 d1d q1d b g x l q =
      ∑ dz ∈ Finset.range d1d,
        (∑ dy ∈ Finset.range d1d,
          (∑ dx ∈ Finset.range d1d,
            x (dx + d1d * (dy + d1d * dz)) * axisEntry q1d b g l 0 (q % q1d) dx) *
            axisEntry q1d b g l 1 (q / q1d % q1d) dy) *
          axisEntry q1d b g l 2 (q / (q1d * q1d) % q1d) dz := by
  rw [fieldGradient, pow_three', sum_range_triples]
  refine Finset.sum_congr rfl fun dz hdz => ?_
  rw [Finset.sum_mul]
  refine Finset.sum_congr rfl fun dy hdy => ?_
  rw [Finset.sum_mul, Finset.sum_mul]
  refine Finset.sum_congr rfl fun dx hdx => ?_
  obtain ⟨hx, hy, hz⟩ := triple_positions dz (Finset.mem_range.1 hdx) (Finset.mem_range.1 hdy)
  rw [gradientEntry_three, hx, hy, hz, Nat.mod_eq_of_lt (Finset.mem_range.1 hdz)]
  ring

/-- A field on the points is tested one axis at a time. -/
theorem tested_three (f : Nat → K) (k : Nat) (hi : i < d1d * d1d * d1d) :
    ∑ q ∈ Finset.range (q1d ^ 3), gradientEntry 3 d1d q1d b g k q i * f q =
      ∑ qz ∈ Finset.range q1d,
        (∑ qy ∈ Finset.range q1d,
          (∑ qx ∈ Finset.range q1d,
            f (qx + q1d * (qy + q1d * qz)) * axisEntry q1d b g k 0 qx (i % d1d)) *
            axisEntry q1d b g k 1 qy (i / d1d % d1d)) *
          axisEntry q1d b g k 2 qz (i / (d1d * d1d)) := by
  rw [pow_three', sum_range_triples]
  refine Finset.sum_congr rfl fun qz hqz => ?_
  rw [Finset.sum_mul]
  refine Finset.sum_congr rfl fun qy hqy => ?_
  rw [Finset.sum_mul, Finset.sum_mul]
  refine Finset.sum_congr rfl fun qx hqx => ?_
  obtain ⟨hx, hy, hz⟩ := triple_positions qz (Finset.mem_range.1 hqx) (Finset.mem_range.1 hqy)
  rw [gradientEntry_three, hx, hy, hz, Nat.mod_eq_of_lt (Finset.mem_range.1 hqz),
    Nat.mod_eq_of_lt (div_lt_right hi)]
  ring

end TensorDiffusion
