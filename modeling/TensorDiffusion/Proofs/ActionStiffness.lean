import TensorDiffusion.Proofs.Bilinear
import TensorDiffusion.Proofs.CellAction

/-!
# The action is the bilinear form

Over a commutative ring, what sum factorization adds to an entry of the output is the operator of
that entry's element, applied to the nodal values of its component (`faceUpdate_eq_stiffness`,
`cellUpdate_eq_stiffness`).  Each stage is read as one factor of `gradientEntry` on the way
forward, and as one sum of `tested_two` or `tested_three` on the way back.
-/

namespace TensorDiffusion.Action

variable {K : Type} [CommRing K] {plan : Plan K} {tables : Tables K} {d1d q1d : Nat}

/-! ### Tables -/

/-- The views of a plan hold a value table and a derivative table, and their transposes. -/
structure ReadsTables (plan : Plan K) (d1d q1d : Nat) (value derivative : Array K) : Prop where
  b : ∀ q d, plan.b.entry [q, d] = value.getD (q + q1d * d) 0
  g : ∀ q d, plan.g.entry [q, d] = derivative.getD (q + q1d * d) 0
  bt : ∀ d q, d < d1d → q < q1d → plan.bt.entry [d, q] = value.getD (q + q1d * d) 0
  gt : ∀ d q, d < d1d → q < q1d → plan.gt.entry [d, q] = derivative.getD (q + q1d * d) 0

theorem readsTables (ht : tables.Paired) (hp : HoldsTables plan tables)
    (hs : TableShapes plan plan.d1d plan.q1d) :
    ReadsTables plan plan.d1d plan.q1d tables.b tables.g := by
  obtain ⟨hd, hq, hb, hg, hbt, hgt⟩ := hp
  rw [hd, hq] at hs ⊢
  refine ⟨fun q d => ?_, fun q d => ?_, fun d q hlt hlt' => ?_, fun d q hlt hlt' => ?_⟩
  · rw [View.entry_eq hs.b, hb]
    rfl
  · rw [View.entry_eq hs.g, hg]
    rfl
  · rw [View.entry_eq hs.bt, hbt, ht.transposedB]
    exact Tables.transposed_entry hlt hlt'
  · rw [View.entry_eq hs.gt, hgt, ht.transposedG]
    exact Tables.transposed_entry hlt hlt'

/-- A contraction is a sum over one axis. -/
theorem dot_eq {table : View K} {row n : Nat} {t u entries : Nat → K} (ht : ∀ k < n, t k = u k)
    (h : ∀ k < n, table.entry [row, k] = entries k) :
    dot n table row t = ∑ k ∈ Finset.range n, u k * entries k := by
  rw [dot, leftSum_eq_sum, zero_add]
  refine Finset.sum_congr rfl fun k hk => ?_
  have hk := Finset.mem_range.1 hk
  rw [ht k hk, h k hk]

/-! ### Faces -/

section

variable {b g op x : Array K} {vdim ne e c : Nat}

/-- The field of a component contracted along x. -/
theorem faceLine_value (hr : ReadsTables plan d1d q1d b g) (k : Nat) :
    faceLine plan d1d q1d e c k =
      ⟨∑ dx ∈ Finset.range d1d, plan.x.entry [dx, k / q1d, c, e] * b.getD (k % q1d + q1d * dx) 0,
        ∑ dx ∈ Finset.range d1d,
          plan.x.entry [dx, k / q1d, c, e] * g.getD (k % q1d + q1d * dx) 0⟩ := by
  rw [faceLine, Jet1.of, dot_eq (fun _ _ => rfl) fun d _ => hr.b (k % q1d) d,
    dot_eq (fun _ _ => rfl) fun d _ => hr.g (k % q1d) d]

/-- The gradient of a component at a point. -/
theorem faceGradient_value (hs : FaceShapes plan d1d q1d vdim ne)
    (hr : ReadsTables plan d1d q1d b g) {q : Nat} (hq : q < q1d * q1d) :
    (Vec2.gradient d1d plan.b plan.g (q / q1d) fun dy =>
      faceLine plan d1d q1d e c (q % q1d + q1d * dy)) =
      ⟨fieldGradient 2 d1d q1d b g (nodal (d1d ^ 2) vdim plan.x.data e c) 0 q,
        fieldGradient 2 d1d q1d b g (nodal (d1d ^ 2) vdim plan.x.data e c) 1 q⟩ := by
  have hx : ∀ dx dy, plan.x.entry [dx, dy, c, e] =
      nodal (d1d ^ 2) vdim plan.x.data e c (dx + d1d * dy) := by
    intro dx dy
    rw [View.entry_eq hs.x]
    refine congrArg (plan.x.data.getD · 0) ?_
    simp only [flat]
    ring
  have hqx : q % q1d < q1d := mod_lt_left hq
  have hqy : q / q1d % q1d = q / q1d := Nat.mod_eq_of_lt (div_lt_right hq)
  rw [fieldGradient_two, fieldGradient_two, hqy, Vec2.gradient,
    dot_eq (fun _ _ => rfl) fun d _ => hr.b (q / q1d) d,
    dot_eq (fun _ _ => rfl) fun d _ => hr.g (q / q1d) d]
  simp only [faceLine_value hr, pair_mod _ hqx, pair_div _ hqx, hx]
  rfl

/-- The form at a point of a face. -/
theorem faceForm_value (hs : FaceShapes plan d1d q1d vdim ne) (q e : Nat) :
    Form2.of plan.op q e = ⟨formEntry 2 (q1d ^ 2) plan.op.data q e 0 0,
      formEntry 2 (q1d ^ 2) plan.op.data q e 0 1, formEntry 2 (q1d ^ 2) plan.op.data q e 1 1⟩ := by
  rw [Form2.of, View.entry_eq hs.op, View.entry_eq hs.op, View.entry_eq hs.op, pow_two]
  rfl

/-- The flux of a component at a point. -/
theorem faceFlux_value (hs : FaceShapes plan d1d q1d vdim ne) (hr : ReadsTables plan d1d q1d b g)
    {q : Nat} (hq : q < q1d * q1d) :
    faceFlux plan d1d q1d e c q =
      ⟨fluxEntry 2 d1d q1d b g plan.op.data e (nodal (d1d ^ 2) vdim plan.x.data e c) 0 q,
        fluxEntry 2 d1d q1d b g plan.op.data e (nodal (d1d ^ 2) vdim plan.x.data e c) 1 q⟩ := by
  -- A form keeps one of its two mixed entries.
  have hsymm : formEntry 2 (q1d ^ 2) plan.op.data q e 1 0 =
      formEntry 2 (q1d ^ 2) plan.op.data q e 0 1 := formEntry_comm ..
  rw [faceFlux, faceGradient_value hs hr hq, faceForm_value hs, Form2.apply]
  simp only [fluxEntry, Finset.sum_range_succ, Finset.sum_range_zero, zero_add, hsymm]

/-- The flux tested along x. -/
theorem faceTested_value (hs : FaceShapes plan d1d q1d vdim ne) (hr : ReadsTables plan d1d q1d b g)
    {k : Nat} (hk : k < d1d * q1d) :
    faceTested plan d1d q1d e c k =
      ⟨∑ qx ∈ Finset.range q1d,
          fluxEntry 2 d1d q1d b g plan.op.data e (nodal (d1d ^ 2) vdim plan.x.data e c) 0
            (qx + q1d * (k / d1d)) * axisEntry q1d b g 0 0 qx (k % d1d),
        ∑ qx ∈ Finset.range q1d,
          fluxEntry 2 d1d q1d b g plan.op.data e (nodal (d1d ^ 2) vdim plan.x.data e c) 1
            (qx + q1d * (k / d1d)) * axisEntry q1d b g 1 0 qx (k % d1d)⟩ := by
  have hflux : ∀ qx < q1d, faceFlux plan d1d q1d e c (qx + q1d * (k / d1d)) = _ :=
    fun qx hqx => faceFlux_value hs hr (pair_lt hqx (div_lt_right hk))
  rw [faceTested, Vec2.testX,
    dot_eq (fun q hq => congrArg Vec2.x (hflux q hq)) fun q hq => hr.gt _ q (mod_lt_left hk) hq,
    dot_eq (fun q hq => congrArg Vec2.y (hflux q hq)) fun q hq => hr.bt _ q (mod_lt_left hk) hq]
  rfl

/-- **The update of a face is the operator** applied to the component, added to the entry. -/
theorem faceUpdate_eq_stiffness (hs : FaceShapes plan d1d q1d vdim ne)
    (hr : ReadsTables plan d1d q1d b g) {i : Nat} (hi : i < d1d * d1d) (v : K) :
    faceUpdate plan d1d q1d e c i v =
      v + stiffness 2 d1d q1d b g plan.op.data e (nodal (d1d ^ 2) vdim plan.x.data e c) i := by
  have hdx : i % d1d < d1d := mod_lt_left hi
  have hdy : i / d1d < d1d := div_lt_right hi
  rw [faceUpdate, leftSum_eq_sum, stiffness_eq_tested, Finset.sum_range_succ, Finset.sum_range_one,
    tested_two _ _ hi, tested_two _ _ hi, ← Finset.sum_add_distrib]
  refine congrArg _ (Finset.sum_congr rfl fun qy hqy => ?_)
  have hqy := Finset.mem_range.1 hqy
  rw [hr.bt _ _ hdy hqy, hr.gt _ _ hdy hqy, faceTested_value hs hr (pair_lt hdx hqy),
    pair_mod _ hdx, pair_div _ hdx]
  rfl

end

/-! ### Cells -/

section

variable {b g : Array K} {ne e c : Nat}

/-- A field contracted along x, on the way to its derivative along axis `l`. -/
def alongX (d1d q1d : Nat) (b g : Array K) (x : Nat → K) (l k : Nat) : K :=
  ∑ dx ∈ Finset.range d1d,
    x (dx + d1d * (k / q1d % d1d + d1d * (k / (q1d * d1d)))) * axisEntry q1d b g l 0 (k % q1d) dx

/-- A field contracted along x and y, on the way to its derivative along axis `l`. -/
def alongXY (d1d q1d : Nat) (b g : Array K) (x : Nat → K) (l k : Nat) : K :=
  ∑ dy ∈ Finset.range d1d,
    alongX d1d q1d b g x l (k % q1d + q1d * (dy + d1d * (k / (q1d * q1d)))) *
      axisEntry q1d b g l 1 (k / q1d % q1d) dy

/-- Component `j` of a flux tested along x. -/
def testedX (d1d q1d : Nat) (b g : Array K) (f : Nat → Nat → K) (j k : Nat) : K :=
  ∑ qx ∈ Finset.range q1d, f j (qx + q1d * (k / d1d)) * axisEntry q1d b g j 0 qx (k % d1d)

/-- Component `j` of a flux tested along x and y. -/
def testedXY (d1d q1d : Nat) (b g : Array K) (f : Nat → Nat → K) (j k : Nat) : K :=
  ∑ qy ∈ Finset.range q1d,
    testedX d1d q1d b g f j (k % d1d + d1d * (qy + q1d * (k / (d1d * d1d)))) *
      axisEntry q1d b g j 1 qy (k / d1d % d1d)

/-- The field of a component contracted along x; along y and z it is not differentiated yet. -/
theorem cellLine_value (hs : CellShapes plan d1d q1d ne) (hr : ReadsTables plan d1d q1d b g)
    (k : Nat) :
    cellLine plan d1d q1d e c k =
      ⟨alongX d1d q1d b g (nodal (d1d ^ 3) 3 plan.x.data e c) 1 k,
        alongX d1d q1d b g (nodal (d1d ^ 3) 3 plan.x.data e c) 0 k⟩ := by
  -- The view has an axis for each direction, the vector one place for a node.
  have hx : ∀ dx dy dz, plan.x.entry [dx, dy, dz, c, e] =
      nodal (d1d ^ 3) 3 plan.x.data e c (dx + d1d * (dy + d1d * dz)) := by
    intro dx dy dz
    rw [View.entry_eq hs.x]
    refine congrArg (plan.x.data.getD · 0) ?_
    simp only [flat]
    ring
  rw [cellLine, Jet1.of, dot_eq (fun _ _ => hx ..) fun d _ => hr.b (k % q1d) d,
    dot_eq (fun _ _ => hx ..) fun d _ => hr.g (k % q1d) d]
  rfl

/-- The field of a component contracted along x and y. -/
theorem cellPlane_value (hs : CellShapes plan d1d q1d ne) (hr : ReadsTables plan d1d q1d b g)
    (k : Nat) :
    cellPlane plan d1d q1d e c k =
      ⟨alongXY d1d q1d b g (nodal (d1d ^ 3) 3 plan.x.data e c) 2 k,
        alongXY d1d q1d b g (nodal (d1d ^ 3) 3 plan.x.data e c) 0 k,
        alongXY d1d q1d b g (nodal (d1d ^ 3) 3 plan.x.data e c) 1 k⟩ := by
  simp only [cellPlane, cellLine_value hs hr]
  rw [Jet2.of, dot_eq (fun _ _ => rfl) fun d _ => hr.b (k / q1d % q1d) d,
    dot_eq (fun _ _ => rfl) fun d _ => hr.b (k / q1d % q1d) d,
    dot_eq (fun _ _ => rfl) fun d _ => hr.g (k / q1d % q1d) d]
  rfl

/-- Contracted along z as well, the field is differentiated. -/
theorem sum_alongXY (x : Nat → K) (l : Nat) {q : Nat} (hq : q < q1d * q1d * q1d) :
    ∑ dz ∈ Finset.range d1d,
      alongXY d1d q1d b g x l (q % (q1d * q1d) + q1d * q1d * dz) *
        axisEntry q1d b g l 2 (q / (q1d * q1d)) dz = fieldGradient 3 d1d q1d b g x l q := by
  have hq' : q < q1d * (q1d * q1d) := by rwa [← Nat.mul_assoc]
  have hqx : q % q1d < q1d := mod_lt_left hq'
  have hqy : q / q1d % q1d < q1d := mod_lt_left (div_lt_right hq')
  rw [fieldGradient_three, Nat.mod_eq_of_lt (div_lt_right hq)]
  refine Finset.sum_congr rfl fun dz _ => congrArg (· * _) ?_
  obtain ⟨hx, hy, hz⟩ := triple_positions dz hqx hqy
  rw [alongXY, mod_add_mul, hx, hy, hz]
  refine Finset.sum_congr rfl fun dy hdy => congrArg (· * _) ?_
  obtain ⟨hx, hy, hz⟩ := triple_positions dz hqx (Finset.mem_range.1 hdy)
  rw [alongX, hx, hy, hz]

/-- The gradient of a component at a point. -/
theorem cellGradient_value (hs : CellShapes plan d1d q1d ne) (hr : ReadsTables plan d1d q1d b g)
    {q : Nat} (hq : q < q1d * q1d * q1d) :
    (Vec3.gradient d1d plan.b plan.g (q / (q1d * q1d)) fun dz =>
      cellPlane plan d1d q1d e c (q % (q1d * q1d) + q1d * q1d * dz)) =
      ⟨fieldGradient 3 d1d q1d b g (nodal (d1d ^ 3) 3 plan.x.data e c) 0 q,
        fieldGradient 3 d1d q1d b g (nodal (d1d ^ 3) 3 plan.x.data e c) 1 q,
        fieldGradient 3 d1d q1d b g (nodal (d1d ^ 3) 3 plan.x.data e c) 2 q⟩ := by
  simp only [cellPlane_value hs hr, ← sum_alongXY _ _ hq]
  rw [Vec3.gradient, dot_eq (fun _ _ => rfl) fun d _ => hr.b (q / (q1d * q1d)) d,
    dot_eq (fun _ _ => rfl) fun d _ => hr.b (q / (q1d * q1d)) d,
    dot_eq (fun _ _ => rfl) fun d _ => hr.g (q / (q1d * q1d)) d]
  rfl

/-- The form at a point of a cell. -/
theorem cellForm_value (hs : CellShapes plan d1d q1d ne) (q e : Nat) :
    Form3.of plan.op q e =
      ⟨formEntry 3 (q1d ^ 3) plan.op.data q e 0 0, formEntry 3 (q1d ^ 3) plan.op.data q e 0 1,
        formEntry 3 (q1d ^ 3) plan.op.data q e 0 2, formEntry 3 (q1d ^ 3) plan.op.data q e 1 1,
        formEntry 3 (q1d ^ 3) plan.op.data q e 1 2, formEntry 3 (q1d ^ 3) plan.op.data q e 2 2⟩ := by
  have h : ∀ k, plan.op.entry [q, k, e] = plan.op.data.getD (q + q1d ^ 3 * (k + 6 * e)) 0 := by
    intro k
    rw [View.entry_eq hs.op, pow_three']
    rfl
  rw [Form3.of, h, h, h, h, h, h]
  rfl

/-- The flux of a component at a point. -/
theorem cellFlux_value (hs : CellShapes plan d1d q1d ne) (hr : ReadsTables plan d1d q1d b g)
    {q : Nat} (hq : q < q1d * q1d * q1d) :
    cellFlux plan d1d q1d e c q =
      ⟨fluxEntry 3 d1d q1d b g plan.op.data e (nodal (d1d ^ 3) 3 plan.x.data e c) 0 q,
        fluxEntry 3 d1d q1d b g plan.op.data e (nodal (d1d ^ 3) 3 plan.x.data e c) 1 q,
        fluxEntry 3 d1d q1d b g plan.op.data e (nodal (d1d ^ 3) 3 plan.x.data e c) 2 q⟩ := by
  have hsymm : ∀ k l, formEntry 3 (q1d ^ 3) plan.op.data q e k l =
      formEntry 3 (q1d ^ 3) plan.op.data q e l k := formEntry_comm 3 _ _ q e
  rw [cellFlux, cellGradient_value hs hr hq, cellForm_value hs, Form3.apply]
  simp only [fluxEntry, Finset.sum_range_succ, Finset.sum_range_zero, zero_add, hsymm 1 0,
    hsymm 2 0, hsymm 2 1]

/-- The flux tested along x. -/
theorem cellTestedX_value (hs : CellShapes plan d1d q1d ne) (hr : ReadsTables plan d1d q1d b g)
    {k : Nat} (hk : k < d1d * q1d * q1d) :
    cellTestedX plan d1d q1d e c k =
      ⟨testedX d1d q1d b g
          (fluxEntry 3 d1d q1d b g plan.op.data e (nodal (d1d ^ 3) 3 plan.x.data e c)) 0 k,
        testedX d1d q1d b g
          (fluxEntry 3 d1d q1d b g plan.op.data e (nodal (d1d ^ 3) 3 plan.x.data e c)) 1 k,
        testedX d1d q1d b g
          (fluxEntry 3 d1d q1d b g plan.op.data e (nodal (d1d ^ 3) 3 plan.x.data e c)) 2 k⟩ := by
  have hk' : k < d1d * (q1d * q1d) := by rwa [← Nat.mul_assoc]
  have hdx : k % d1d < d1d := mod_lt_left hk'
  have hflux : ∀ qx < q1d, cellFlux plan d1d q1d e c (qx + q1d * (k / d1d)) = _ :=
    fun qx hqx => cellFlux_value hs hr <| by
      rw [Nat.mul_assoc]
      exact pair_lt hqx (div_lt_right hk')
  rw [cellTestedX, Vec3.testX,
    dot_eq (fun q hq => congrArg Vec3.x (hflux q hq)) fun q hq => hr.gt _ q hdx hq,
    dot_eq (fun q hq => congrArg Vec3.y (hflux q hq)) fun q hq => hr.bt _ q hdx hq,
    dot_eq (fun q hq => congrArg Vec3.z (hflux q hq)) fun q hq => hr.bt _ q hdx hq]
  rfl

/-- The flux tested along x and y. -/
theorem cellTestedXY_value (hs : CellShapes plan d1d q1d ne) (hr : ReadsTables plan d1d q1d b g)
    {k : Nat} (hk : k < d1d * d1d * q1d) :
    cellTestedXY plan d1d q1d e c k =
      ⟨testedXY d1d q1d b g
          (fluxEntry 3 d1d q1d b g plan.op.data e (nodal (d1d ^ 3) 3 plan.x.data e c)) 0 k,
        testedXY d1d q1d b g
          (fluxEntry 3 d1d q1d b g plan.op.data e (nodal (d1d ^ 3) 3 plan.x.data e c)) 1 k,
        testedXY d1d q1d b g
          (fluxEntry 3 d1d q1d b g plan.op.data e (nodal (d1d ^ 3) 3 plan.x.data e c)) 2 k⟩ := by
  have hk' : k < d1d * (d1d * q1d) := by rwa [← Nat.mul_assoc]
  have hdy : k / d1d % d1d < d1d := mod_lt_left (div_lt_right hk')
  have hline : ∀ qy < q1d,
      cellTestedX plan d1d q1d e c (k % d1d + d1d * (qy + q1d * (k / (d1d * d1d)))) = _ :=
    fun qy hqy => cellTestedX_value hs hr <| by
      rw [Nat.mul_assoc]
      exact pair_lt (mod_lt_left hk') (pair_lt hqy (div_lt_right hk))
  rw [cellTestedXY, Vec3.testY,
    dot_eq (fun q hq => congrArg Vec3.x (hline q hq)) fun q hq => hr.bt _ q hdy hq,
    dot_eq (fun q hq => congrArg Vec3.y (hline q hq)) fun q hq => hr.gt _ q hdy hq,
    dot_eq (fun q hq => congrArg Vec3.z (hline q hq)) fun q hq => hr.bt _ q hdy hq]
  rfl

/-- Tested along z as well, a field on the points is tested against the basis function. -/
theorem sum_testedXY (f : Nat → Nat → K) (j : Nat) {i : Nat} (hi : i < d1d * d1d * d1d) :
    ∑ q ∈ Finset.range (q1d ^ 3), gradientEntry 3 d1d q1d b g j q i * f j q =
      ∑ qz ∈ Finset.range q1d,
        testedXY d1d q1d b g f j (i % (d1d * d1d) + d1d * d1d * qz) *
          axisEntry q1d b g j 2 qz (i / (d1d * d1d)) := by
  have hi' : i < d1d * (d1d * d1d) := by rwa [← Nat.mul_assoc]
  have hdx : i % d1d < d1d := mod_lt_left hi'
  have hdy : i / d1d % d1d < d1d := mod_lt_left (div_lt_right hi')
  rw [tested_three _ _ hi]
  refine Finset.sum_congr rfl fun qz _ => congrArg (· * _) ?_
  obtain ⟨hx, hy, hz⟩ := triple_positions qz hdx hdy
  rw [testedXY, mod_add_mul, hx, hy, hz]
  refine Finset.sum_congr rfl fun qy _ => congrArg (· * _) ?_
  rw [testedX, pair_mod _ hdx, pair_div _ hdx]

/-- **The update of a cell is the operator** applied to the component, added to the entry. -/
theorem cellUpdate_eq_stiffness (hs : CellShapes plan d1d q1d ne)
    (hr : ReadsTables plan d1d q1d b g) {i : Nat} (hi : i < d1d * d1d * d1d) (v : K) :
    cellUpdate plan d1d q1d e c i v =
      v + stiffness 3 d1d q1d b g plan.op.data e (nodal (d1d ^ 3) 3 plan.x.data e c) i := by
  have hdz : i / (d1d * d1d) < d1d := div_lt_right hi
  rw [cellUpdate, leftSum_eq_sum, stiffness_eq_tested, Finset.sum_range_succ,
    Finset.sum_range_succ, Finset.sum_range_one, sum_testedXY _ _ hi, sum_testedXY _ _ hi,
    sum_testedXY _ _ hi, ← Finset.sum_add_distrib, ← Finset.sum_add_distrib]
  refine congrArg _ (Finset.sum_congr rfl fun qz hqz => ?_)
  have hqz := Finset.mem_range.1 hqz
  rw [hr.bt _ _ hdz hqz, hr.gt _ _ hdz hqz,
    cellTestedXY_value hs hr (pair_lt (mod_lt_left hi) hqz)]
  rfl

end

end TensorDiffusion.Action
