import TensorDiffusion.Proofs.Assembly
import TensorDiffusion.Proofs.Rules
import TensorDiffusion.Proofs.Sampling

/-!
# The sizes of the data of an assembly

Data that was computed for a context has a Jacobian for every point of every element, and a single
sample or one for every point (`PointData.sizes_of_compute`).
-/

namespace TensorDiffusion

variable {α : Type}

/-- A single sample stands for all points, or every point has one. -/
theorem Samples.size_of_take [Zero α] [Stored α] {coefficient : Coefficient α}
    {geometry : Geometry α} {storage : Storage} {config : Execution} {samples : Samples α}
    (h : take coefficient geometry storage config = .ok samples) :
    samples.values.size = 1 ∨ samples.values.size = geometry.nq * geometry.ne := by
  have hfilled : ∀ {count : Nat} {v : α} {buf : Array α}, Size.mul geometry.nq geometry.ne =
      .ok count → filled count v = .ok buf → buf.size = geometry.nq * geometry.ne := by
    intro count v buf hcount hbuf
    obtain ⟨-, rfl⟩ := Size.mul_eq_ok.1 hcount
    obtain ⟨_, -, hbuf⟩ := bind_eq_ok.1 hbuf
    obtain rfl := Except.ok.inj hbuf
    exact Array.size_replicate
  cases coefficient with
  | constant value =>
    cases storage with
    | compressed =>
      obtain rfl := Except.ok.inj h
      exact .inl rfl
    | full =>
      obtain ⟨count, hcount, h⟩ := bind_eq_ok.1 h
      obtain ⟨buf, hbuf, h⟩ := bind_eq_ok.1 h
      obtain rfl := Except.ok.inj h
      exact .inr (hfilled hcount hbuf)
  | samples values =>
    obtain ⟨count, hcount, h⟩ := bind_eq_ok.1 h
    obtain ⟨-, rfl⟩ := Size.mul_eq_ok.1 hcount
    obtain ⟨_, hsize, h⟩ := bind_eq_ok.1 h
    obtain rfl := Except.ok.inj h
    exact .inr (insist_eq_ok.1 hsize)
  | function field =>
    cases hx : geometry.coordinates with
    | none =>
      rw [take, hx] at h
      cases h
    | some x =>
      rw [take, hx] at h
      obtain ⟨coordinates, -, h⟩ := bind_eq_ok.1 h
      obtain ⟨count, hcount, h⟩ := bind_eq_ok.1 h
      obtain ⟨blank, hblank, h⟩ := bind_eq_ok.1 h
      have hsize := hfilled hcount hblank
      split at h
      · obtain ⟨values, hrun, h⟩ := bind_eq_ok.1 h
        obtain rfl := Except.ok.inj h
        rw [KeepsSize.forElements _ _ _ _ _ _ _ (Geometry.fill_eq_ok.1 hrun)]
        exact .inr hsize
      · obtain rfl := Except.ok.inj h
        exact .inr hsize
  | vector => cases h
  | matrix => cases h

namespace PointData

theorem wanted_jacobians (coefficient : Coefficient α) : (wanted coefficient).jacobians = true := by
  cases coefficient <;> rfl

/-- What of the sizes of a setup the data of a context has by itself. -/
structure Sized (data : PointData α) (context : Context α) (j : Array α) : Prop where
  jacobians : data.jacobians = .ok j
  j : j.size = data.shape.q1d ^ data.shape.dim * data.shape.sdim * data.shape.dim * data.ne
  c : data.samples.values.size = 1 ∨
    data.samples.values.size = data.shape.q1d ^ data.shape.dim * data.ne
  ruleDim : context.rule.dim = context.space.dim

/-- **Data that was computed** has a Jacobian for every point of every element, and a single sample
or one for every point. -/
theorem sizes_of_compute [Zero α] [One α] [Add α] [Sub α] [Mul α] [Div α] [BEq α] [OfDouble α]
    [Stored α] {context : Context α} {data : PointData α} (h : compute context = .ok data) :
    ∃ j, data.Sized context j := by
  have hwf := compute_wellFormed h
  obtain ⟨shape, basis, tables, geometry, samples, hshape, -, -, hgeometry, hsamples, rfl⟩ :=
    compute_eq_ok h
  obtain ⟨space, rule, coefficient, execution⟩ := context
  have hsized := Geometry.sized_of_ofNodes hgeometry
  have hnodes : tables.ndof = space.nodesPerAxis := hwf.ndof.trans hwf.d1d
  have hne : space.nodes.size / (tables.ndof ^ space.dim * space.sdim) = space.numElements := by
    rw [hnodes, space.size_div_element]
  obtain ⟨j, hj, hjsize⟩ := hsized.jacobians (wanted_jacobians coefficient)
  have hdim : shape.dim = space.dim := hwf.dim
  have hnq : tables.nqpt = shape.q1d := hwf.nqpt
  refine ⟨j, ?_, ?_, ?_, ?_⟩
  · rw [jacobians, hj]
  · have hs : shape.sdim = space.sdim := hwf.sdim
    rw [hjsize, hne, hnq, hdim, hs]
  · have hc := Samples.size_of_take hsamples
    rwa [hsized.nq, hsized.ne, hne, hnq, ← hdim] at hc
  · obtain ⟨_, -, hshape⟩ := bind_eq_ok.1 hshape
    obtain ⟨_, -, hshape⟩ := bind_eq_ok.1 hshape
    obtain ⟨_, -, hshape⟩ := bind_eq_ok.1 hshape
    obtain ⟨_, hrule, -⟩ := bind_eq_ok.1 hshape
    exact insist_eq_ok.1 hrule

/-- The data of a context with a rule as it is made has the sizes of a setup, if the Jacobians can
be viewed. -/
theorem Sized.sizesOf [Zero α] [Mul α] [Stored α] [OfDouble α] {context : Context α}
    {data : PointData α} {j : Array α} (h : data.Sized context j) (hwf : data.WellFormed context)
    (hrule : context.rule.Built)
    (hfits : data.shape.q1d ^ data.shape.dim * data.shape.sdim * data.shape.dim * max 1 data.ne <
      Size.bufferBound) : data.SizesOf context j where
  q1d_pos := data.shape.q1d_pos
  w := by rw [hrule.size_weights, h.ruleDim, hwf.q1d, hwf.dim]
  j := h.j
  c := h.c
  op := rfl
  fits := hfits

/-- Jacobians that were viewed can be. -/
theorem Sized.sizesOf_of_view [Zero α] [Mul α] [Stored α] [OfDouble α] {context : Context α}
    {data : PointData α} {j : Array α} {v : View α} (h : data.Sized context j)
    (hwf : data.WellFormed context) (hrule : context.rule.Built)
    (hv : View.ofBuffer j [data.shape.q1d ^ data.shape.dim, data.shape.sdim, data.shape.dim,
      data.ne] = .ok v) : data.SizesOf context j := by
  refine h.sizesOf hwf hrule ?_
  have hk := data.shape.hasKernel.dim_pos
  have hpos : ∀ n ∈ [data.shape.q1d ^ data.shape.dim, data.shape.sdim, data.shape.dim], 0 < n := by
    simp [Nat.pow_pos data.shape.q1d_pos, hk.1, hk.2]
  have hfits : nonemptyVolume ([_, _, _] ++ [_]) < _ := (View.ofBuffer_eq_ok.1 hv).1
  rw [nonemptyVolume_elements hpos] at hfits
  simpa [volume, Nat.mul_assoc] using hfits

end PointData

end TensorDiffusion
