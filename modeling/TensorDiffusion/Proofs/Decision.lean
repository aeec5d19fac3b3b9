import TensorDiffusion.Proofs.Bases
import TensorDiffusion.Proofs.PointSizes
import TensorDiffusion.Proofs.Semidefinite

/-!
# Every configuration is decided

An assembly either returns or is refused; it breaks no precondition of the tables, the geometry, the
samples or the setup (`assembly_decides`).  The guards are those of `Context.Supported`.  What has
kernels is known before any work is done (`PointData.exists_kernelShape_iff`), and from there on
every step returns, save that samples may be refused for their number
(`PointData.compute_eq_take`).
-/

namespace TensorDiffusion

variable {α : Type}

/-! ### Refusals -/

namespace Shape

variable {dim sdim d1d q1d : Nat}

theorem of_ok (hk : HasKernel dim sdim) (hd : 0 < d1d) (hq : 0 < q1d) :
    Shape.of dim sdim d1d q1d = .ok ⟨dim, sdim, d1d, q1d, hk, hd, hq⟩ := by
  have hdim : dim ≠ 1 := by
    rintro rfl
    exact absurd hk (by simp [HasKernel])
  rw [Shape.of, if_neg hdim, dif_pos hk, dif_pos hd, dif_pos hq]

/-- What has no shape is refused. -/
theorem of_error {fault : Fault} (h : Shape.of dim sdim d1d q1d = .error fault) :
    ∃ cause, fault = .refused cause := by
  unfold Shape.of at h
  split at h
  · exact ⟨_, (Except.error.inj h).symm⟩
  · split at h
    · split at h
      · split at h
        · cases h
        · exact ⟨_, (Except.error.inj h).symm⟩
      · exact ⟨_, (Except.error.inj h).symm⟩
    · exact ⟨_, (Except.error.inj h).symm⟩

end Shape

/-! ### Supported configurations -/

namespace Context

/-- Kernels exist for the elements and the rule, within the limits in force, and the coefficient
is scalar. -/
structure HasKernels (context : Context α) : Prop where
  dimensions : HasKernel context.space.dim context.space.sdim
  points : 0 < context.rule.numPoints1d
  ruleDim : context.rule.dim = context.space.dim
  maxD1d : context.space.nodesPerAxis ≤ context.execution.limits.maxD1d
  maxQ1d : context.rule.numPoints1d ≤ context.execution.limits.maxQ1d
  scalar : context.coefficient.isScalar

/-- There are kernels, and samples that the caller took are one for every point. -/
structure Supported (context : Context α) : Prop extends HasKernels context where
  sampled : ∀ values, context.coefficient = .samples values →
    values.size = context.rule.numPoints1d ^ context.space.dim * context.space.numElements

/-- The length of the chunk of an element that is interpolated. -/
def chunkLen (context : Context α) : Nat :=
  (Geometry.layoutOf context.space.dim context.space.sdim context.rule.numPoints1d
    (PointData.wanted context.coefficient)).len

/-- No product of sizes that the interpolation forms reaches `2 ^ 56`.  The lengths of a chunk and
of the tables are formed where there are no elements, too. -/
structure Small (context : Context α) : Prop where
  tables : context.rule.numPoints1d * context.space.nodesPerAxis < 2 ^ 56
  chunks : context.chunkLen * max 1 context.space.numElements < 2 ^ 56
  lines : 0 < context.space.numElements →
    2 * context.rule.numPoints1d * context.space.nodesPerAxis * context.space.nodesPerAxis < 2 ^ 56
  planes : 0 < context.space.numElements →
    3 * context.rule.numPoints1d * context.rule.numPoints1d * context.space.nodesPerAxis < 2 ^ 56

end Context

/-- An axis has no more nodes than the coordinates of an element. -/
theorem Space.nodesPerAxis_le (space : Space α) :
    space.nodesPerAxis ≤ space.nodesPerAxis ^ space.dim * space.sdim :=
  Nat.le_trans (Nat.le_self_pow (Nat.ne_of_gt space.one_le_dim) _)
    (Nat.le_mul_of_pos_right _ space.sdim_pos)

/-- The nodes of the basis are distinct as scalars, and the coordinates of an element are fewer than
`2 ^ 56`. -/
structure Space.Tame [BEq α] [OfDouble α] (space : Space α) : Prop where
  nodes : LagrangeBasis.DistinctLobatto α space.order
  element : space.nodesPerAxis ^ space.dim * space.sdim < 2 ^ 56

namespace PointData

variable {context : Context α}

/-- **What has kernels** is known before any work is done. -/
theorem exists_kernelShape_iff :
    (∃ shape, kernelShape context = .ok shape) ↔ context.HasKernels := by
  constructor
  · rintro ⟨shape, h⟩
    obtain ⟨hdim, hsdim, hd1d, hq1d, hadmits⟩ := kernelShape_eq h
    obtain ⟨hmaxD1d, hmaxQ1d⟩ := Limits.admits_eq_true.1 hadmits
    obtain ⟨_, -, h⟩ := bind_eq_ok.1 h
    obtain ⟨_, -, h⟩ := bind_eq_ok.1 h
    obtain ⟨_, hscalar, h⟩ := bind_eq_ok.1 h
    obtain ⟨_, hrule, -⟩ := bind_eq_ok.1 h
    exact ⟨hdim ▸ hsdim ▸ shape.hasKernel, hq1d ▸ shape.q1d_pos, insist_eq_ok.1 hrule,
      hd1d ▸ hmaxD1d, hq1d ▸ hmaxQ1d, insist_eq_ok.1 hscalar⟩
  · intro h
    exact ⟨_, bind_eq_ok.2 ⟨_, Shape.of_ok h.dimensions (Nat.succ_pos _) h.points,
      bind_eq_ok.2 ⟨(), insist_eq_ok.2 (Limits.admits_eq_true.2 ⟨h.maxD1d, h.maxQ1d⟩),
        bind_eq_ok.2 ⟨(), insist_eq_ok.2 h.scalar,
          bind_eq_ok.2 ⟨(), insist_eq_ok.2 h.ruleDim, rfl⟩⟩⟩⟩⟩

/-- What has no kernels is refused. -/
theorem kernelShape_error {fault : Fault} (h : kernelShape context = .error fault) :
    ∃ cause, fault = .refused cause := by
  rcases bind_eq_error.1 h with h | ⟨shape, -, h⟩
  · exact Shape.of_error h
  rcases bind_eq_error.1 h with h | ⟨_, -, h⟩
  · exact ⟨_, (insist_eq_error.1 h).2⟩
  rcases bind_eq_error.1 h with h | ⟨_, -, h⟩
  · exact ⟨_, (insist_eq_error.1 h).2⟩
  rcases bind_eq_error.1 h with h | ⟨_, -, h⟩
  · exact ⟨_, (insist_eq_error.1 h).2⟩
  exact nomatch h

end PointData

/-! ### Sizes -/

namespace Context

variable {context : Context α}

theorem HasKernels.dim_cases (h : context.HasKernels) :
    context.space.dim = 2 ∨ context.space.dim = 3 := by
  rcases h.dimensions with ⟨hdim, -⟩ | ⟨hdim, -⟩ | ⟨hdim, -⟩
  · exact .inl hdim
  · exact .inl hdim
  · exact .inr hdim

/-- The Jacobians of an element are a part of its chunk. -/
theorem jacobians_le (context : Context α) :
    context.rule.numPoints1d ^ context.space.dim * context.space.sdim * context.space.dim ≤
      context.chunkLen := by
  rw [chunkLen, ChunkLayout.len, ChunkLayout.jacobiansLen,
    if_pos (PointData.wanted_jacobians context.coefficient)]
  exact Nat.le_add_right _ _

/-- What fits a chunk for every element is small. -/
theorem Small.of_le (h : context.Small) {n : Nat} (hn : n ≤ context.chunkLen) :
    n * max 1 context.space.numElements < 2 ^ 56 :=
  Nat.lt_of_le_of_lt (Nat.mul_le_mul_right _ hn) h.chunks

theorem Small.chunk_lt (h : context.Small) : context.chunkLen < 2 ^ 56 :=
  Nat.lt_of_le_of_lt (Nat.le_mul_of_pos_right _ (by omega)) h.chunks

/-- The coordinates of the points of an element are no more than its Jacobians. -/
theorem coordinates_le (context : Context α) :
    context.rule.numPoints1d ^ context.space.dim * context.space.sdim ≤ context.chunkLen :=
  Nat.le_trans (Nat.le_mul_of_pos_right _ context.space.one_le_dim) context.jacobians_le

theorem points_le (context : Context α) :
    context.rule.numPoints1d ^ context.space.dim ≤ context.chunkLen :=
  Nat.le_trans (Nat.le_mul_of_pos_right _ context.space.sdim_pos) context.coordinates_le

/-- The sizes of a supported context pass the checks of an interpolation. -/
theorem HasKernels.planSizes (h : context.HasKernels) (hsmall : context.Small) :
    Geometry.PlanSizes context.space.dim context.space.sdim context.space.nodesPerAxis
      context.rule.numPoints1d context.space.nodes.size (PointData.wanted context.coefficient) where
  dim_cases := h.dim_cases
  sdim_range := ⟨context.space.dim_le_sdim, context.space.sdim_le⟩
  d1d_pos := Nat.succ_pos _
  element_lt := context.space.element_lt
  whole := by
    rw [context.space.nodes_size]
    exact Nat.mul_mod_left _ _
  points_lt := Nat.lt_of_le_of_lt context.points_le (Nat.lt_trans hsmall.chunk_lt (by decide))
  chunk_lt := Nat.lt_trans hsmall.chunk_lt (by decide)

/-- The sizes of a context with kernels are accepted by the interpolation. -/
theorem HasKernels.accepted [Stored α] (h : context.HasKernels) (hsmall : context.Small)
    (helement : context.space.nodesPerAxis ^ context.space.dim * context.space.sdim < 2 ^ 56)
    {tables : Tables α} (hsized : tables.Sized) (hndof : tables.ndof = context.space.nodesPerAxis)
    (hnqpt : tables.nqpt = context.rule.numPoints1d) :
    ∃ p, Geometry.Accepted context.space.dim context.space.sdim tables context.space.nodes.size
      (PointData.wanted context.coefficient) p ∧ p.ne = context.space.numElements := by
  have hplan := h.planSizes hsmall
  rw [← hndof, ← hnqpt] at hplan
  have hne : (Geometry.planOf context.space.dim context.space.sdim tables.ndof tables.nqpt
      context.space.nodes.size (PointData.wanted context.coefficient)).ne =
      context.space.numElements := by
    rw [Geometry.planOf, hndof, context.space.size_div_element]
  have hchunk : (Geometry.planOf context.space.dim context.space.sdim tables.ndof tables.nqpt
      context.space.nodes.size (PointData.wanted context.coefficient)).chunk =
      context.chunkLen := by
    rw [Geometry.planOf, hnqpt, chunkLen]
  refine ⟨_, ⟨Geometry.plan_eq_ok.2 ⟨hplan, rfl⟩, fun _ => hnqpt ▸ h.points, ?_, fun _ hsome => ?_⟩,
    hne⟩
  · rw [hne, hchunk]
    refine Size.bytes_mul_lt Stored.bytes_le (Nat.lt_of_le_of_lt ?_ hsmall.chunks)
    exact Nat.mul_le_mul_left _ (Nat.le_max_right 1 _)
  · rw [hne] at hsome
    have hlines := hsmall.lines hsome
    have hplanes := hsmall.planes hsome
    rw [← hndof, ← hnqpt] at hlines hplanes
    refine ⟨?_, ?_, hsized.b.ge, hsized.g.ge⟩
    · rw [hndof]
      exact Nat.lt_trans helement (by decide)
    · -- The two parts of a scratch buffer are small, their sum need not be.
      rw [Geometry.scratchSize]
      refine Nat.lt_of_le_of_lt (Nat.mul_le_mul_right _ Stored.bytes_le) ?_
      have hbound : Size.bufferBound = 2 ^ 63 := by decide
      omega

end Context

/-! ### Samples -/

namespace Samples

variable [Zero α] [Stored α] {coefficient : Coefficient α} {geometry : Geometry α}

/-- A scalar coefficient is sampled, if samples that the caller took are one for every point. -/
theorem take_ok {dim sdim nq ne : Nat} (config : Execution)
    (hsized : geometry.Sized dim sdim nq ne (PointData.wanted coefficient))
    (hscalar : coefficient.isScalar) (hnq : 0 < nq) (hsdim : 0 < sdim ∧ sdim ≤ 3)
    (hfits : nq * sdim * max 1 ne < 2 ^ 56)
    (hsampled : ∀ values, coefficient = .samples values → values.size = nq * ne) :
    ∃ samples, take coefficient geometry .compressed config = .ok samples := by
  have hpoints : nq * ne < 2 ^ 56 := Nat.lt_of_le_of_lt
    (Nat.mul_le_mul (Nat.le_mul_of_pos_right _ hsdim.1) (Nat.le_max_right 1 ne)) hfits
  have hroom : Stored.bytes α * (nq * ne) < Size.bufferBound :=
    Size.bytes_mul_lt Stored.bytes_le hpoints
  cases coefficient with
  | constant value => exact ⟨_, rfl⟩
  | samples values => exact ⟨_, take_samples_eq hsized config hroom (hsampled values rfl)⟩
  | function field =>
    obtain ⟨x, hx, -⟩ := hsized.coordinates rfl
    exact ⟨_, take_function_eq hsized config hx rfl hnq hsdim
      (Nat.lt_trans hfits (by decide)) hroom field⟩
  | vector => cases hscalar
  | matrix => cases hscalar

/-- Samples that are not one for every point are refused. -/
theorem take_refused {values : Array α} {storage : Storage} {config : Execution}
    (hcount : geometry.nq * geometry.ne < Size.bufferBound)
    (h : values.size ≠ geometry.nq * geometry.ne) :
    take (.samples values) geometry storage config =
      .error (.refused (.sampleCount values.size geometry.nq geometry.ne)) := by
  have hinsist := insist_eq_error.2
    ⟨h, (rfl : Fault.refused (.sampleCount values.size geometry.nq geometry.ne) = _)⟩
  rw [take, ofValues, Size.mul_ok hcount, ok_bind, hinsist]
  rfl

end Samples

/-! ### The data at the points -/

section

variable [Zero α] [One α] [Add α] [Sub α] [Mul α] [Div α] [BEq α] [OfDouble α] [Stored α]
  {context : Context α}

namespace PointData

/-- **With kernels** the tables and the geometry are computed; only the samples are left. -/
theorem compute_eq_take (hkernels : context.HasKernels) (htame : context.space.Tame)
    (hsmall : context.Small) :
    ∃ shape tables geometry,
      geometry.Sized context.space.dim context.space.sdim
        (context.rule.numPoints1d ^ context.space.dim) context.space.numElements
        (wanted context.coefficient) ∧
      compute context = (do
        let samples ← Samples.take context.coefficient geometry .compressed context.execution
        return ⟨shape, context.space.numElements, tables, geometry, samples⟩) := by
  have horder : context.space.nodesPerAxis < 2 ^ 56 :=
    Nat.lt_of_le_of_lt context.space.nodesPerAxis_le htame.element
  obtain ⟨shape, hshape⟩ := exists_kernelShape_iff.2 hkernels
  obtain ⟨basis, hbasis, hweights⟩ :=
    LagrangeBasis.gaussLobatto_ok context.space.one_le_order horder htame.nodes
  have hnodes : basis.numNodes = context.space.nodesPerAxis := Space.numNodes_basis hbasis
  obtain ⟨tables, htables⟩ := Tables.ofRule_ok hweights (hnodes ▸ Nat.succ_pos _) hkernels.points
    (Size.bytes_mul_lt Stored.bytes_le (hnodes ▸ hsmall.tables))
  obtain ⟨hpaired, hndof, hnqpt⟩ := Tables.paired_of_ofRule htables
  obtain ⟨p, haccepted, hne⟩ := hkernels.accepted hsmall htame.element hpaired.toSized
    (hndof.trans hnodes) hnqpt
  obtain ⟨_, geometry, hsized, -, hrun⟩ := Geometry.ofNodes_ok haccepted
  rw [hnqpt, hne] at hsized
  refine ⟨shape, tables, geometry, hsized, ?_⟩
  rw [compute, hshape, ok_bind, Space.basis, hbasis, ok_bind, htables, ok_bind,
    (hrun context.execution).2, ok_bind]

/-- The data of a supported context is computed. -/
theorem compute_ok (h : context.Supported) (htame : context.space.Tame) (hsmall : context.Small) :
    ∃ data, compute context = .ok data := by
  obtain ⟨shape, tables, geometry, hsized, hcompute⟩ :=
    compute_eq_take h.toHasKernels htame hsmall
  have hfits := hsmall.of_le context.coordinates_le
  obtain ⟨samples, hsamples⟩ := Samples.take_ok context.execution hsized h.scalar
    (Nat.pow_pos h.points) ⟨context.space.sdim_pos, context.space.sdim_le⟩ hfits h.sampled
  exact ⟨_, hcompute.trans (bind_eq_ok.2 ⟨samples, hsamples, rfl⟩)⟩

/-- A context that is not supported is refused, and no precondition is broken. -/
theorem compute_refused (h : ¬ context.Supported) (htame : context.space.Tame)
    (hsmall : context.HasKernels → context.Small) :
    ∃ cause, compute context = .error (.refused cause) := by
  by_cases hkernels : context.HasKernels
  · obtain ⟨shape, tables, geometry, hsized, hcompute⟩ :=
      compute_eq_take hkernels htame (hsmall hkernels)
    -- With kernels the number of the caller's samples is the only guard left.
    obtain ⟨values, hvalues, hsize⟩ : ∃ values, context.coefficient = .samples values ∧
        values.size ≠
          context.rule.numPoints1d ^ context.space.dim * context.space.numElements := by
      by_contra hnone
      refine h ⟨hkernels, fun values hvalues => ?_⟩
      by_contra hsize
      exact hnone ⟨values, hvalues, hsize⟩
    have hcount : geometry.nq * geometry.ne < Size.bufferBound := by
      have hfits := (hsmall hkernels).of_le context.points_le
      rw [hsized.nq, hsized.ne]
      refine Nat.lt_of_le_of_lt (Nat.mul_le_mul_left _ (Nat.le_max_right 1 _)) ?_
      exact Nat.lt_trans hfits (by decide)
    rw [← hsized.nq, ← hsized.ne] at hsize
    have hrefused : Samples.take (.samples values) geometry .compressed context.execution = _ :=
      Samples.take_refused hcount hsize
    exact ⟨_, by rw [hcompute, hvalues, hrefused]; rfl⟩
  · cases hshape : kernelShape context with
    | ok shape => exact absurd (exists_kernelShape_iff.1 ⟨shape, hshape⟩) hkernels
    | error fault =>
      obtain ⟨cause, rfl⟩ := kernelShape_error hshape
      exact ⟨cause, by rw [compute, hshape]; rfl⟩

end PointData

namespace Factorized

variable [Neg α] [SquareRoot α]

/-- A supported context is assembled. -/
theorem assemble_of_supported (h : context.Supported) (htame : context.space.Tame)
    (hsmall : context.Small) (hrule : context.rule.Built) (s : Session Unit) :
    ∃ operator s', (assemble context).run s = .ok operator s' := by
  obtain ⟨data, hcompute⟩ := PointData.compute_ok h htame hsmall
  have hwf := PointData.compute_wellFormed hcompute
  obtain ⟨j, hsized⟩ := PointData.sizes_of_compute hcompute
  have hjacobians : data.shape.q1d ^ data.shape.dim * data.shape.sdim * data.shape.dim *
      max 1 data.ne < 2 ^ 56 := by
    rw [hwf.q1d, hwf.dim, hwf.sdim, hwf.ne]
    exact hsmall.of_le context.jacobians_le
  have hforms : data.FormsFit := by
    refine Size.bytes_mul_lt Stored.bytes_le (Nat.lt_of_le_of_lt ?_ hjacobians)
    rw [Nat.mul_assoc _ data.shape.sdim]
    exact Nat.mul_le_mul (Nat.mul_le_mul_left _ (symmetricEntries_le data.shape.hasKernel))
      (Nat.le_max_right 1 _)
  exact ⟨_, _, assemble_ok hcompute hsized.jacobians
    (hsized.sizesOf hwf hrule (Nat.lt_trans hjacobians (by decide))) hforms⟩

/-- A context that is not supported is refused before anything is recorded. -/
theorem assemble_refused (h : ¬ context.Supported) (htame : context.space.Tame)
    (hsmall : context.HasKernels → context.Small) (s : Session Unit) :
    ∃ cause, (assemble context).run s = .error (.refused cause) s := by
  obtain ⟨cause, hcompute⟩ := PointData.compute_refused h htame hsmall
  exact ⟨cause, run_bind_error (run_ofExcept_error hcompute s)⟩

end Factorized

end

/-! ### The assembly -/

namespace Integrator

variable [OfDouble α]

/-- The rule of an integrator for a space is found where the default rule, if it is asked for, can
be made. -/
theorem ruleFor_ok {integrator : Integrator α} {space : Space α}
    (helement : space.nodesPerAxis ^ space.dim * space.sdim < 2 ^ 56)
    (hpoints : integrator.rule = none →
      TensorRule.defaultPoints space.dim space.order ^ space.dim < 2 ^ 56) (s : Session Unit) :
    ∃ rule s', (integrator.ruleFor space).run s = .ok rule s' := by
  have hdim : 1 ≤ space.dim ∧ space.dim ≤ 3 :=
    ⟨space.one_le_dim, Nat.le_trans space.dim_le_sdim space.sdim_le⟩
  have hsum : 2 * space.order + space.dim < Size.bound := by
    have horder : space.order + 1 < 2 ^ 56 :=
      Nat.lt_of_le_of_lt space.nodesPerAxis_le helement
    have hbound : Size.bound = 2 ^ 64 := by decide
    omega
  have hrule : ∃ rule, integrator.integrationRule space = .ok rule := by
    unfold integrationRule
    split
    · exact ⟨_, rfl⟩
    · next hnone => exact TensorRule.forDiffusion_ok hdim hsum (hpoints hnone)
  obtain ⟨rule, hrule⟩ := hrule
  have hnote : ∃ s', (integrator.noteRule space rule).run s = .ok () s' := by
    unfold noteRule
    split
    · have hdefault := TensorRule.diffusionPoints1d_ok hdim.1 hsum
      rw [run_bind_ok (run_ofExcept hdefault s)]
      split
      · exact ⟨_, rfl⟩
      · exact ⟨_, rfl⟩
    · exact ⟨_, rfl⟩
  obtain ⟨s', hnote⟩ := hnote
  exact ⟨rule, s', by rw [ruleFor, run_bind_ok (run_ofExcept hrule s), run_bind_ok hnote]; rfl⟩

/-- What an assembly on a space takes for granted: the nodes of the basis are distinct as scalars,
and no product of sizes that is formed reaches `2 ^ 56`. -/
structure Tame [BEq α] (integrator : Integrator α) (space : Space α) : Prop
    extends space.Tame where
  points : integrator.rule = none →
    TensorRule.defaultPoints space.dim space.order ^ space.dim < 2 ^ 56
  small : ∀ rule, integrator.integrationRule space = .ok rule →
    (integrator.context space rule).HasKernels → (integrator.context space rule).Small

end Integrator

/-- **Every configuration is decided.**  An integrator without a provider finds a rule for the
space.  If the configuration is supported the assembly returns, and keeps an operator; if not it is
refused, and the integrator is left unassembled, and as it was in all else.  No precondition is
broken. -/
theorem assembly_decides [Zero α] [One α] [Add α] [Sub α] [Mul α] [Neg α] [Div α] [BEq α]
    [OfDouble α] [SquareRoot α] [Stored α] {integrator : Integrator α} {space : Space α}
    (events : Array Event) (hprovider : integrator.provider = none)
    (hrule : ∀ rule, integrator.rule = some rule → rule.Built) (htame : integrator.Tame space) :
    ∃ rule, integrator.integrationRule space = .ok rule ∧
      ((integrator.context space rule).Supported →
        ∃ operator journal, (Integrator.assemble space).run ⟨integrator, events⟩ =
          .ok () ⟨{ integrator with backend := some (.factorized operator) }, journal⟩) ∧
      (¬ (integrator.context space rule).Supported →
        ∃ cause journal, (Integrator.assemble space).run ⟨integrator, events⟩ =
          .error (.refused cause) ⟨{ integrator with backend := none }, journal⟩) := by
  obtain ⟨rule, s, hfound⟩ := Integrator.ruleFor_ok htame.element htame.points ⟨(), events⟩
  have hfor := Integrator.ruleFor_eq_ok hfound
  have hasked : ∀ context, integrator.asked context = integrator := fun _ => by
    rw [Integrator.asked, hprovider]
  have hcleared : ∀ context, integrator.cleared.asked context = integrator.cleared := fun _ => by
    rw [Integrator.asked, show integrator.cleared.provider = none from hprovider]
  refine ⟨rule, hfor, fun h => ?_, fun h => ?_⟩
  · obtain ⟨operator, s', hrun⟩ := Factorized.assemble_of_supported h htame.toTame
      (htame.small rule hfor h.toHasKernels) (Integrator.built_integrationRule hrule hfor) s
    have hchosen : (Integrator.chosen integrator.provider (integrator.context space rule)).run s =
        .ok (.factorized operator) s' := by
      rw [hprovider]
      exact run_map_eq_ok.2 ⟨operator, hrun, rfl⟩
    have hassemble := Integrator.assemble_run_ok.2 ⟨rule, s, _, s', hfound, hchosen, rfl⟩
    rw [hasked] at hassemble
    exact ⟨operator, _, hassemble⟩
  · obtain ⟨cause, hrun⟩ := Factorized.assemble_refused h htame.toTame (htame.small rule hfor) s
    have hchosen : (Integrator.chosen integrator.provider (integrator.context space rule)).run s =
        .error (.refused cause) s := by
      rw [hprovider, Integrator.chosen, map_eq_pure_bind, run_bind_error hrun]
    refine ⟨cause, s.events, ?_⟩
    rw [Integrator.assemble_eq, hfound]
    dsimp only
    rw [hchosen, hcleared]
    rfl

/-! ### One face -/

theorem distinctLobatto_one : LagrangeBasis.DistinctLobatto ℝ 1 := by
  intro rule h
  obtain rfl := Except.ok.inj h
  show LagrangeBasis.Distinct
    [OfDouble.ofDouble (-One.one : Float), (OfDouble.ofDouble (One.one : Float) : ℝ)]
  rw [ofDouble_one, ofDouble_neg_one]
  intro i j hi hj hij
  have hcases : i = 0 ∧ j = 1 ∨ i = 1 ∧ j = 0 := by
    simp only [List.length_cons, List.length_nil] at hi hj
    omega
  rcases hcases with ⟨rfl, rfl⟩ | ⟨rfl, rfl⟩ <;> norm_num

/-- The sheared face is small for every coefficient. -/
theorem tame_shearedFace (coefficient : Coefficient ℝ) :
    ((Integrator.new coefficient).withRule middleRule).Tame shearedFace where
  nodes := distinctLobatto_one
  element := by decide
  points h := nomatch h
  small rule hrule _ := by
    obtain rfl := Except.ok.inj hrule
    have htables : 1 * 2 < 2 ^ 56 := by decide
    have hlines : 2 * 1 * 2 * 2 < 2 ^ 56 := by decide
    have hplanes : 3 * 1 * 1 * 2 < 2 ^ 56 := by decide
    refine ⟨htables, ?_, fun _ => hlines, fun _ => hplanes⟩
    have hjacobians : (1 ^ 2 * 2 * 2 + 0) * max 1 1 < 2 ^ 56 := by decide
    have hchunk : (1 ^ 2 * 2 * 2 + 1 ^ 2 * 2) * max 1 1 < 2 ^ 56 := by decide
    cases coefficient with
    | function _ => exact hchunk
    | constant _ | samples _ | vector | matrix => exact hjacobians

/-- On the sheared face a constant is accepted, and a vector is refused. -/
theorem assembly_decides_sheared_face :
    (∃ operator journal, (Integrator.assemble shearedFace).run
        ⟨(Integrator.new (.constant 1)).withRule middleRule, #[]⟩ =
      .ok () ⟨{ (Integrator.new (.constant (1 : ℝ))).withRule middleRule with
        backend := some (.factorized operator) }, journal⟩) ∧
    ∃ cause journal, (Integrator.assemble shearedFace).run
        ⟨(Integrator.new .vector).withRule middleRule, #[]⟩ =
      .error (.refused cause) ⟨(Integrator.new .vector).withRule middleRule, journal⟩ := by
  have hbuilt (rule : TensorRule ℝ) (h : some middleRule = some rule) : rule.Built :=
    Option.some.inj h ▸ middleRule_built
  constructor
  · obtain ⟨rule, hrule, hok, -⟩ :=
      assembly_decides #[] rfl hbuilt (tame_shearedFace (.constant 1))
    obtain rfl := Except.ok.inj hrule
    exact hok ⟨⟨hasKernel_plane, Nat.one_pos, rfl, by decide, by decide, rfl⟩,
      fun _ h => nomatch h⟩
  · obtain ⟨rule, hrule, -, hrefused⟩ :=
      assembly_decides #[] rfl hbuilt (tame_shearedFace .vector)
    obtain rfl := Except.ok.inj hrule
    exact hrefused fun h => nomatch h.scalar

end TensorDiffusion
