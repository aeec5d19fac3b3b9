import TensorDiffusion.Proofs.CellAction
import TensorDiffusion.Proofs.CellDiagonal
import TensorDiffusion.Proofs.FaceAction
import TensorDiffusion.Proofs.FaceDiagonal
import TensorDiffusion.Proofs.Interleaving
import TensorDiffusion.Proofs.Sampling
import TensorDiffusion.Proofs.Setup

/-!
# Outputs do not depend on the schedule

Every loop over elements of the library — the setup, the action and the diagonal on faces and on
cells, the geometric factors and the samples of a function — gives the output of the serial policy
under all settings and under every interleaving of the workers' turns (`outputs_free_of_schedule`).  No
law of arithmetic is used, so this holds of rounded scalars as they are.
-/

namespace TensorDiffusion

variable {α β σ : Type}

/-- A function of the settings, whose element loop on `buf` is `loop`, makes the same output of
`buf` under all settings with these limits and under every interleaving. -/
def FreeOfSchedule (loop : ElementLoop σ β) (Fits : σ → Prop) (ne : Nat) (limits : Limits)
    (run : Execution → Update β Unit) (buf : Array β) : Prop :=
  ∃ out, loop.Determines Fits ne buf out ∧
    ∀ config : Execution, config.limits = limits → (run config).run buf = .ok () out

/-! ### Setup -/

/-- The loop of a setup. -/
def OperatorData.loop [Mul α] (kernel : Kernel α) (p : Plan α) : ElementLoop Unit α :=
  ⟨p.chunk, .ofValue (), element kernel p⟩

theorem OperatorData.free_of_schedule [Zero α] [Mul α] {kernel : Kernel α}
    {form : α → (Nat → Nat → α) → Array α} (hform : kernel.Computes form)
    (hk : HasKernel kernel.dim kernel.sdim) {q1d ne : Nat} {w j c op : Array α} {p : Plan α}
    (hplan : plan kernel q1d ne w j c op.size = .ok p) (limits : Limits) :
    FreeOfSchedule (loop kernel p) (fun _ => True) ne limits
      (fun config => run kernel config q1d ne w j c) op := by
  have h := sizes_of_plan hk hplan
  obtain ⟨v, hv, rfl, hshape⟩ := plan_ok hk h
  obtain rfl := Except.ok.inj (hplan.symm.trans hv)
  have hacts := element_acts h.w hshape h.c (h.samples_lt hk) hform (h.chunk_pos hk)
    (h.chunk_lt hk)
  have hop : op.size = ne * (q1d ^ kernel.dim * symmetricEntries kernel.dim) := by
    rw [h.op, Nat.mul_comm]
  exact ⟨_, (loop kernel _).determines hacts (h.chunk_pos hk) rfl trivial hop,
    fun _ _ => run_eq hform hk h⟩

/-! ### Action and diagonal -/

namespace Action

variable [Zero α] [Add α] [Mul α] [Stored α] {fixed : FixedSizes} {limits : Limits} {ne vdim : Nat}
  {tables : Tables α} {op x y : Array α} {p : Plan α}

/-- The loop of an action on faces. -/
def faceLoop (fixed : FixedSizes) (p : Plan α) : ElementLoop (Array α) α :=
  ⟨p.chunk, .scratch p.room, face fixed p⟩

theorem faces_free_of_schedule
    (hplan : facePlan fixed limits ne tables op x y.size vdim = .ok p)
    (hroom : Size.reserve (Stored.bytes α) p.room = .ok ()) :
    FreeOfSchedule (faceLoop fixed p) (fun scratch => scratch.size = p.room) ne limits
      (fun config => onFaces fixed config ne tables op x vdim) y := by
  have hp := facePlanned hplan
  have hbytes := Size.reserve_eq_ok.1 hroom
  refine ⟨_, (faceLoop fixed p).determines (face_actsBy hp (lt_of_bytes hbytes)) hp.chunk_pos hroom
    Array.size_replicate hp.yLen, ?_⟩
  rintro config rfl
  exact onFaces_eq hplan hbytes

/-- The loop of an action on cells. -/
def cellLoop (fixed : FixedSizes) (p : Plan α) : ElementLoop (Array α) α :=
  ⟨p.chunk, .scratch p.room, cell fixed p⟩

theorem cells_free_of_schedule (hplan : cellPlan fixed limits ne tables op x y.size = .ok p)
    (hroom : Size.reserve (Stored.bytes α) p.room = .ok ()) :
    FreeOfSchedule (cellLoop fixed p) (fun scratch => scratch.size = p.room) ne limits
      (fun config => onCells fixed config ne tables op x) y := by
  have hp := cellPlanned hplan
  have hbytes := Size.reserve_eq_ok.1 hroom
  refine ⟨_, (cellLoop fixed p).determines (cell_actsBy hp (lt_of_bytes hbytes)) hp.chunk_pos hroom
    Array.size_replicate hp.yLen, ?_⟩
  rintro config rfl
  exact onCells_eq hplan hbytes

end Action

namespace Diagonal

variable [Zero α] [Add α] [Mul α] [Stored α] {fixed : FixedSizes} {limits : Limits} {ne vdim : Nat}
  {tables : Tables α} {op diag : Array α} {p : Plan α}

/-- The loop of a diagonal on faces. -/
def faceLoop (fixed : FixedSizes) (p : Plan α) : ElementLoop (Array α) α :=
  ⟨p.chunk, .scratch p.room, face fixed p⟩

theorem faces_free_of_schedule
    (hplan : facePlan fixed limits ne tables op diag.size vdim = .ok p)
    (hroom : Size.reserve (Stored.bytes α) p.room = .ok ())
    (hchunk : 0 < ne → p.chunk < Size.bufferBound) :
    FreeOfSchedule (faceLoop fixed p) (fun scratch => scratch.size = p.room) ne limits
      (fun config => onFaces fixed config ne tables op vdim) diag := by
  have hp := facePlanned hplan
  have hbytes := Size.reserve_eq_ok.1 hroom
  refine ⟨_, (faceLoop fixed p).determines (face_actsBy hp (lt_of_bytes hbytes) hchunk) hp.chunk_pos
    hroom Array.size_replicate hp.diagLen, ?_⟩
  rintro config rfl
  exact onFaces_eq hplan hbytes hchunk

/-- The loop of a diagonal on cells. -/
def cellLoop (fixed : FixedSizes) (p : Plan α) : ElementLoop (Array α) α :=
  ⟨p.chunk, .scratch p.room, cell fixed p⟩

theorem cells_free_of_schedule (hplan : cellPlan fixed limits ne tables op diag.size = .ok p)
    (hroom : Size.reserve (Stored.bytes α) p.room = .ok ())
    (hchunk : 0 < ne → p.chunk < Size.bufferBound) :
    FreeOfSchedule (cellLoop fixed p) (fun scratch => scratch.size = p.room) ne limits
      (fun config => onCells fixed config ne tables op) diag := by
  have hp := cellPlanned hplan
  have hbytes := Size.reserve_eq_ok.1 hroom
  refine ⟨_, (cellLoop fixed p).determines (cell_actsBy hp (lt_of_bytes hbytes) hchunk) hp.chunk_pos
    hroom Array.size_replicate hp.diagLen, ?_⟩
  rintro config rfl
  exact onCells_eq hplan hbytes hchunk

end Diagonal

/-! ### Geometric factors and samples -/

section

variable [Zero α] [Stored α]

/-- The loop of the geometric factors, with a scratch buffer of `len` entries. -/
def Geometry.loop [Add α] [Mul α] (tables : Tables α) (p : Plan) (len : Nat) (nodes : Array α) :
    ElementLoop (Array α) α :=
  ⟨p.chunk, .scratch len, element tables p nodes⟩

/-- All settings give the same factors.  They are taken from chunks that every interleaving fills
alike. -/
def Geometry.FreeOfSchedule [Add α] [Mul α] (dim sdim : Nat) (tables : Tables α) (nodes : Array α)
    (want : Quantities) (p : Plan) : Prop :=
  ∃ out geometry, split dim sdim want p out = .ok geometry ∧
    (∀ config, chunks tables p nodes config = .ok out ∧
      ofNodes dim sdim tables nodes want config = .ok geometry) ∧
    (0 < p.chunk → 0 < p.ne → ∃ len, scratchLen tables.ndof tables.nqpt = .ok len ∧
      (loop tables p len nodes).Determines (fun scratch => scratch.size = len) p.ne
        (Array.replicate (p.chunk * p.ne) 0) out)

theorem Geometry.factors_free_of_schedule [Add α] [Mul α] {dim sdim : Nat} {tables : Tables α}
    {nodes : Array α} {want : Quantities} {p : Plan}
    (h : Accepted dim sdim tables nodes.size want p) :
    FreeOfSchedule dim sdim tables nodes want p := by
  obtain ⟨out, geometry, -, hsplit, hrun⟩ := ofNodes_ok h
  refine ⟨out, geometry, hsplit, hrun, fun hchunk hne => ?_⟩
  obtain ⟨hsizes, hp⟩ := plan_eq_ok.1 h.plan
  have hq := nqpt_pos hsizes hp hchunk
  have hloop := h.loop hchunk hne
  obtain ⟨b, g, hb, hg⟩ := hloop.views hsizes.d1d_pos hq
  obtain rfl : chunksOf tables b g p nodes = out :=
    Except.ok.inj ((chunks_eq h hchunk hne hb hg).symm.trans (hrun {}).1)
  have hfits : p.chunk < Size.bufferBound :=
    Nat.lt_of_le_of_lt (Nat.le_mul_of_pos_right _ hne) (lt_of_bytes h.room)
  have hacts := element_acts rfl rfl hsizes hq hb hg hloop.element_lt (lt_of_bytes hloop.room)
    (hp ▸ hfits)
  rw [← hp] at hacts
  have hblank : (Array.replicate (p.chunk * p.ne) (0 : α)).size = p.ne * p.chunk := by
    rw [Array.size_replicate, Nat.mul_comm]
  have hdetermines := (loop tables p _ nodes).determines hacts hchunk
    (Size.reserve_eq_ok.2 hloop.room) Array.size_replicate hblank
  rw [mapIdx_eq_ofFn Array.size_replicate] at hdetermines
  have hdim : p.layout.dim = dim := by rw [hp]; rfl
  have hsdim : p.layout.sdim = sdim := by rw [hp]; rfl
  refine ⟨_, hloop.scratchLen_ok hsizes.d1d_pos hq, ?_⟩
  rw [chunksOf, hdim, hsdim]
  exact hdetermines

/-- The loop of the samples of a field. -/
def Samples.loop (field : Array α → α) (coordinates : View α) (nq sdim : Nat) :
    ElementLoop (Array α) α :=
  ⟨nq, pointWorkspace sdim, sampleElement field coordinates sdim⟩

/-- All settings give the same samples, and so does every interleaving. -/
def Samples.FreeOfSchedule (field : Array α → α) (geometry : Geometry α) (coordinates : View α)
    (storage : Storage) : Prop :=
  ∃ values, (∀ config, take (.function field) geometry storage config =
      .ok ⟨geometry.nq, geometry.ne, values⟩) ∧
    (0 < geometry.nq → 0 < geometry.ne →
      (loop field coordinates geometry.nq geometry.sdim).Determines
        (fun point => point.size = geometry.sdim) geometry.ne
        (Array.replicate (geometry.nq * geometry.ne) 0) values)

theorem Samples.values_free_of_schedule {field : Array α → α} {geometry : Geometry α}
    {x : Array α} {coordinates : View α} {storage : Storage} (hx : geometry.coordinates = some x)
    (hv : View.ofBuffer x [geometry.nq, geometry.sdim, geometry.ne] = .ok coordinates)
    (hroom : Size.reserve (Stored.bytes α) (geometry.nq * geometry.ne) = .ok ())
    (hpoint : 0 < geometry.nq → 0 < geometry.ne →
      (pointWorkspace geometry.sdim : Workspace (Array α)).reserve = .ok ()) :
    FreeOfSchedule field geometry coordinates storage := by
  refine ⟨_, take_function_ok hx hv (Size.reserve_eq_ok.1 hroom)
    (fun hq he => Size.reserve_eq_ok.1 (hpoint hq he)), fun hq he => ?_⟩
  have hblank : (Array.replicate (geometry.nq * geometry.ne) (0 : α)).size =
      geometry.ne * geometry.nq := by
    rw [Array.size_replicate, Nat.mul_comm]
  have hdetermines := (loop field coordinates geometry.nq geometry.sdim).determines
    (sampleElement_acts (View.ofBuffer_eq_ok.1 hv).2.2) hq (hpoint hq he) Array.size_replicate hblank
  rw [mapIdx_eq_ofFn Array.size_replicate] at hdetermines
  exact hdetermines

end

/-! ### All of them -/

/-- The setup kernels. -/
theorem OperatorData.kernel_cases [One α] [Add α] [Sub α] [Mul α] [Neg α] [Div α] [SquareRoot α]
    {kernel : Kernel α} (h : kernel ∈ [planar, surface, solid]) :
    HasKernel kernel.dim kernel.sdim ∧ ∃ form, kernel.Computes form := by
  simp only [List.mem_cons, List.not_mem_nil, or_false] at h
  rcases h with rfl | rfl | rfl
  · exact ⟨.inl ⟨rfl, rfl⟩, _, planar_computes⟩
  · exact ⟨.inr (.inl ⟨rfl, rfl⟩), _, surface_computes⟩
  · exact ⟨.inr (.inr ⟨rfl, rfl⟩), _, solid_computes⟩

/-- **Outputs do not depend on the schedule.**  Every schedule of the library visits every element
once.  On sizes that pass their checks, every loop over elements gives the output of the serial
policy under all settings and under every interleaving of the workers' turns, and makes each chunk
from the same chunk of the buffer, whatever the scratch buffer of the worker holds.  A diagonal
alone does not view its output as a whole, so that the output has a length that a buffer can have is
a premise there. -/
theorem outputs_free_of_schedule [Zero α] [One α] [Add α] [Sub α] [Mul α] [Neg α] [Div α]
    [SquareRoot α] [Stored α] :
    (∀ (config : Execution) ne, (config.schedule ne).Covers ne) ∧
    (∀ (kernel : OperatorData.Kernel α) q1d ne w j c op p limits,
      kernel ∈ [OperatorData.planar, OperatorData.surface, OperatorData.solid] →
      OperatorData.plan kernel q1d ne w j c op.size = .ok p →
      FreeOfSchedule (OperatorData.loop kernel p) (fun _ => True) ne limits
        (fun config => OperatorData.run kernel config q1d ne w j c) op) ∧
    (∀ fixed limits ne (tables : Tables α) op x y vdim p,
      Action.facePlan fixed limits ne tables op x y.size vdim = .ok p →
      Size.reserve (Stored.bytes α) p.room = .ok () →
      FreeOfSchedule (Action.faceLoop fixed p) (fun scratch => scratch.size = p.room) ne limits
        (fun config => Action.onFaces fixed config ne tables op x vdim) y) ∧
    (∀ fixed limits ne (tables : Tables α) op x y p,
      Action.cellPlan fixed limits ne tables op x y.size = .ok p →
      Size.reserve (Stored.bytes α) p.room = .ok () →
      FreeOfSchedule (Action.cellLoop fixed p) (fun scratch => scratch.size = p.room) ne limits
        (fun config => Action.onCells fixed config ne tables op x) y) ∧
    (∀ fixed limits ne (tables : Tables α) op diag vdim p,
      Diagonal.facePlan fixed limits ne tables op diag.size vdim = .ok p →
      Size.reserve (Stored.bytes α) p.room = .ok () → diag.size < Size.bufferBound →
      FreeOfSchedule (Diagonal.faceLoop fixed p) (fun scratch => scratch.size = p.room) ne limits
        (fun config => Diagonal.onFaces fixed config ne tables op vdim) diag) ∧
    (∀ fixed limits ne (tables : Tables α) op diag p,
      Diagonal.cellPlan fixed limits ne tables op diag.size = .ok p →
      Size.reserve (Stored.bytes α) p.room = .ok () → diag.size < Size.bufferBound →
      FreeOfSchedule (Diagonal.cellLoop fixed p) (fun scratch => scratch.size = p.room) ne limits
        (fun config => Diagonal.onCells fixed config ne tables op) diag) ∧
    (∀ dim sdim (tables : Tables α) nodes want p,
      Geometry.Accepted dim sdim tables nodes.size want p →
      Geometry.FreeOfSchedule dim sdim tables nodes want p) ∧
    (∀ (field : Array α → α) (geometry : Geometry α) x coordinates storage,
      geometry.coordinates = some x →
      View.ofBuffer x [geometry.nq, geometry.sdim, geometry.ne] = .ok coordinates →
      Size.reserve (Stored.bytes α) (geometry.nq * geometry.ne) = .ok () →
      (0 < geometry.nq → 0 < geometry.ne →
        (Samples.pointWorkspace geometry.sdim : Workspace (Array α)).reserve = .ok ()) →
      Samples.FreeOfSchedule field geometry coordinates storage) := by
  refine ⟨fun config ne => ?_, ?_, ?_, ?_, ?_, ?_, ?_, ?_⟩
  · rw [Schedule.Covers, config.flatten_schedule]
  · intro kernel q1d ne w j c op p limits hkernel hplan
    obtain ⟨hk, form, hform⟩ := OperatorData.kernel_cases hkernel
    exact OperatorData.free_of_schedule hform hk hplan limits
  · exact fun fixed limits ne tables op x y vdim p => Action.faces_free_of_schedule
  · exact fun fixed limits ne tables op x y p => Action.cells_free_of_schedule
  · exact fun fixed limits ne tables op diag vdim p hplan hroom hdiag =>
      Diagonal.faces_free_of_schedule hplan hroom
        (Diagonal.chunk_lt_of_len (Diagonal.facePlanned hplan).diagLen hdiag)
  · exact fun fixed limits ne tables op diag p hplan hroom hdiag =>
      Diagonal.cells_free_of_schedule hplan hroom
        (Diagonal.chunk_lt_of_len (Diagonal.cellPlanned hplan).diagLen hdiag)
  · exact fun dim sdim tables nodes want p => Geometry.factors_free_of_schedule
  · exact fun field geometry x coordinates storage => Samples.values_free_of_schedule

/-- Tables of two nodes and one point per axis. -/
def rowTables : Tables Float :=
  ⟨2, 1, #[0.5, 0.5], #[-1, 1], #[0.5, 0.5], #[-1, 1]⟩

/-- Factors of two faces in the plane with one point each. -/
def twoPoints : Geometry Float :=
  { dim := 2, sdim := 2, nq := 1, ne := 2, jacobians := none,
    coordinates := some #[0.5, 0.5, 1.5, 0.5] }

/-- Two elements with one point each pass the checks of every loop. -/
theorem outputs_free_of_schedule_two_elements :
    (∃ p, OperatorData.plan OperatorData.surface 1 2 #[(1 : Float)] (.replicate 12 2) #[3] 6 = .ok p ∧
      FreeOfSchedule (OperatorData.loop OperatorData.surface p) (fun _ => True) 2 {}
        (fun config => OperatorData.run OperatorData.surface config 1 2 #[1] (.replicate 12 2) #[3])
        (.replicate 6 0)) ∧
    (∃ p, Action.facePlan {} {} 2 rowTables (.replicate 6 1) (.replicate 8 2) 8 1 = .ok p ∧
      FreeOfSchedule (Action.faceLoop {} p) (fun scratch => scratch.size = p.room) 2 {}
        (fun config =>
          Action.onFaces {} config 2 rowTables (.replicate 6 1) (.replicate 8 2) 1)
        (.replicate 8 0)) ∧
    (∃ p, Action.cellPlan {} {} 2 rowTables (.replicate 12 1) (.replicate 48 2) 48 = .ok p ∧
      FreeOfSchedule (Action.cellLoop {} p) (fun scratch => scratch.size = p.room) 2 {}
        (fun config => Action.onCells {} config 2 rowTables (.replicate 12 1) (.replicate 48 2))
        (.replicate 48 0)) ∧
    (∃ p, Diagonal.facePlan {} {} 2 rowTables (.replicate 6 1) 8 1 = .ok p ∧
      FreeOfSchedule (Diagonal.faceLoop {} p) (fun scratch => scratch.size = p.room) 2 {}
        (fun config => Diagonal.onFaces {} config 2 rowTables (.replicate 6 1) 1)
        (.replicate 8 0)) ∧
    (∃ p, Diagonal.cellPlan {} {} 2 rowTables (.replicate 12 1) 48 = .ok p ∧
      FreeOfSchedule (Diagonal.cellLoop {} p) (fun scratch => scratch.size = p.room) 2 {}
        (fun config => Diagonal.onCells {} config 2 rowTables (.replicate 12 1))
        (.replicate 48 0)) ∧
    (∃ p, Geometry.Accepted 2 2 rowTables 16 ⟨true, true⟩ p ∧
      Geometry.FreeOfSchedule 2 2 rowTables (.replicate 16 1) ⟨true, true⟩ p) ∧
    ∃ coordinates, View.ofBuffer #[0.5, 0.5, 1.5, 0.5] [1, 2, 2] = .ok coordinates ∧
      Samples.FreeOfSchedule (fun x => x.getD 0 0) twoPoints coordinates .full := by
  have haccepted : Geometry.Accepted 2 2 rowTables 16 ⟨true, true⟩
      (Geometry.planOf 2 2 2 1 16 ⟨true, true⟩) :=
    ⟨rfl, fun _ => by decide, by decide, fun _ _ =>
      ⟨by decide, by decide, by decide, by decide⟩⟩
  obtain ⟨-, hsetup, hfaces, hcells, hfaceDiagonal, hcellDiagonal, hfactors, hvalues⟩ :=
    outputs_free_of_schedule (α := Float)
  exact ⟨⟨_, rfl, hsetup OperatorData.surface 1 2 _ _ _ (.replicate 6 0) _ {} (by simp) rfl⟩,
    ⟨_, rfl, hfaces {} {} 2 _ _ _ (.replicate 8 0) 1 _ rfl rfl⟩,
    ⟨_, rfl, hcells {} {} 2 _ _ _ (.replicate 48 0) _ rfl rfl⟩,
    ⟨_, rfl, hfaceDiagonal {} {} 2 _ _ (.replicate 8 0) 1 _ rfl rfl (by decide)⟩,
    ⟨_, rfl, hcellDiagonal {} {} 2 _ _ (.replicate 48 0) _ rfl rfl (by decide)⟩,
    ⟨_, haccepted, hfactors 2 2 _ (.replicate 16 1) _ _ haccepted⟩,
    ⟨_, rfl, hvalues _ twoPoints _ _ .full rfl rfl rfl fun _ _ => rfl⟩⟩

end TensorDiffusion
