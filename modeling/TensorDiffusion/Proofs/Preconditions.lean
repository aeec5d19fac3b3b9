import TensorDiffusion.Proofs.Schedules

/-!
# Preconditions are checked first

A kernel checks its sizes and builds its views before it visits an element.  Whatever the tables
hold, however their sizes disagree and however long the buffers are, either a check fails and the
output is as it was, or every element is visited to its end (`kernels_check_first`).  So the checks
are complete: in the element loop no read of a table or of a buffer can fail, and no cut, window or
view of a scratch buffer or of a chunk.

* `Checked`: a computation that fails, if it does, with a broken precondition of a kernel.
* `ChecksFirst`: what a call of a kernel comes to.
* `checksFirst_of_free`: the one argument for all kernels.
-/

namespace TensorDiffusion

/-! ### Computations that check -/

/-- What the checks and the views of a kernel report. -/
def Violation.IsPrecondition : Violation → Prop
  | .addOverflow | .mulOverflow | .powOverflow | .shortBuffer _ | .shapeOverflow _
  | .nodeLimit _ _ | .pointLimit _ _ | .fixedSize _ _ _ | .zeroSize | .noSetupPoints
  | .bufferLength _ _ _ | .samplesLength _ _ => True
  | _ => False

/-- A computation that fails, if it does, with a broken precondition of a kernel. -/
def Checked {β : Type} (m : Except Fault β) : Prop :=
  ∀ fault, m = .error fault → ∃ cause : Violation, cause.IsPrecondition ∧ fault = .violated cause

namespace Checked

variable {β γ : Type}

theorem ok (a : β) : Checked (.ok a) :=
  fun _ h => nomatch h

theorem violate {cause : Violation} (h : cause.IsPrecondition) :
    Checked (violate cause : Except Fault β) :=
  fun _ hfault => ⟨cause, h, (Except.error.inj hfault).symm⟩

theorem bind {m : Except Fault β} {f : β → Except Fault γ} (hm : Checked m)
    (hf : ∀ a, Checked (f a)) : Checked (m >>= f) := by
  intro fault h
  rcases bind_eq_error.1 h with h | ⟨a, -, h⟩
  · exact hm fault h
  · exact hf a fault h

theorem require {p : Prop} [Decidable p] {cause : Violation} (h : cause.IsPrecondition) :
    Checked (require p cause) := by
  unfold TensorDiffusion.require
  split
  · exact .ok ()
  · exact .violate h

theorem checkBuffer (name : String) (len expected : Nat) :
    Checked (checkBuffer name len expected) :=
  .require trivial

theorem fit (n : Nat) (cause : Violation) (h : cause.IsPrecondition) :
    Checked (Size.fit n cause) := by
  unfold Size.fit
  split
  · exact .ok n
  · exact .violate h

theorem add (a b : Nat) : Checked (Size.add a b) :=
  .fit _ .addOverflow trivial

theorem mul (a b : Nat) : Checked (Size.mul a b) :=
  .fit _ .mulOverflow trivial

theorem pow (a k : Nat) : Checked (Size.pow a k) :=
  .fit _ .powOverflow trivial

theorem product (sizes : List Nat) : Checked (Size.product sizes) := by
  suffices h : ∀ a, Checked (sizes.foldlM Size.mul a) from h 1
  induction sizes with
  | nil => exact fun a => .ok a
  | cons n sizes ih =>
    intro a
    rw [List.foldlM_cons]
    exact .bind (.mul a n) ih

theorem view (data : Array β) (shape : List Nat) : Checked (View.ofBuffer data shape) := by
  unfold View.ofBuffer
  refine .bind (.require trivial) fun _ => ?_
  split
  · exact .ok _
  · exact .violate trivial

theorem fixed (name : String) (fixed actual : Nat) : Checked (FixedSizes.check name fixed actual) :=
  .require trivial

theorem limits (limits : Limits) (d1d q1d : Nat) : Checked (limits.check d1d q1d) :=
  .bind (.require trivial) fun _ => .require trivial

end Checked

/-! ### Plans -/

section

variable {α : Type} {fixed : FixedSizes} {limits : Limits} {ne : Nat} {tables : Tables α}
  {op x : Array α} {len vdim : Nat}

theorem Action.facePlan_checked : Checked (facePlan fixed limits ne tables op x len vdim) := by
  -- The sizes of the axes,
  refine .bind (.fixed "D1D" _ _) fun _ => ?_
  refine .bind (.fixed "Q1D" _ _) fun _ => ?_
  refine .bind (.fixed "VDIM" _ _) fun _ => ?_
  refine .bind (.limits limits _ _) fun _ => ?_
  refine .bind (.require trivial) fun _ => ?_
  refine .bind (.mul _ _) fun nd => ?_
  refine .bind (.mul _ _) fun nq => ?_
  -- the lengths of the buffers,
  refine .bind (.product [nq, 3, ne]) fun opLen => ?_
  refine .bind (.checkBuffer "operator data" _ opLen) fun _ => ?_
  refine .bind (.product [nd, vdim, ne]) fun xLen => ?_
  refine .bind (.checkBuffer "x" _ xLen) fun _ => ?_
  refine .bind (.product [nd, vdim, ne]) fun yLen => ?_
  refine .bind (.checkBuffer "y" _ yLen) fun _ => ?_
  -- their views,
  refine .bind (.view tables.b _) fun b => ?_
  refine .bind (.view tables.g _) fun g => ?_
  refine .bind (.view tables.bt _) fun bt => ?_
  refine .bind (.view tables.gt _) fun gt => ?_
  refine .bind (.view op _) fun op => ?_
  refine .bind (.view x _) fun x => ?_
  -- and the room of a worker.
  refine .bind (.product _) fun points => ?_
  refine .bind (.mul 2 _) fun line => ?_
  refine .bind (.add points line) fun room => ?_
  exact .bind (.mul nd vdim) fun chunk => .ok _

theorem Action.cellPlan_checked : Checked (cellPlan fixed limits ne tables op x len) := by
  -- The sizes of the axes,
  refine .bind (.fixed "D1D" _ _) fun _ => ?_
  refine .bind (.fixed "Q1D" _ _) fun _ => ?_
  refine .bind (.limits limits _ _) fun _ => ?_
  refine .bind (.require trivial) fun _ => ?_
  refine .bind (.product _) fun nd => ?_
  refine .bind (.product _) fun nq => ?_
  -- the lengths of the buffers,
  refine .bind (.product [nq, 6, ne]) fun opLen => ?_
  refine .bind (.checkBuffer "operator data" _ opLen) fun _ => ?_
  refine .bind (.product [nd, 3, ne]) fun xLen => ?_
  refine .bind (.checkBuffer "x" _ xLen) fun _ => ?_
  refine .bind (.product [nd, 3, ne]) fun yLen => ?_
  refine .bind (.checkBuffer "y" _ yLen) fun _ => ?_
  -- their views,
  refine .bind (.view tables.b _) fun b => ?_
  refine .bind (.view tables.g _) fun g => ?_
  refine .bind (.view tables.bt _) fun bt => ?_
  refine .bind (.view tables.gt _) fun gt => ?_
  refine .bind (.view op _) fun op => ?_
  refine .bind (.view x _) fun x => ?_
  -- and the room of a worker.
  refine .bind (.mul 3 nq) fun points => ?_
  refine .bind (.product _) fun plane => ?_
  refine .bind (.add points plane) fun used => ?_
  refine .bind (.mul 3 _) fun line => ?_
  refine .bind (.add used line) fun room => ?_
  exact .bind (.mul nd 3) fun chunk => .ok _

theorem Diagonal.facePlan_checked : Checked (facePlan fixed limits ne tables op len vdim) := by
  -- The sizes of the axes,
  refine .bind (.fixed "D1D" _ _) fun _ => ?_
  refine .bind (.fixed "Q1D" _ _) fun _ => ?_
  refine .bind (.limits limits _ _) fun _ => ?_
  refine .bind (.require trivial) fun _ => ?_
  refine .bind (.mul _ _) fun nd => ?_
  -- the lengths of the buffers,
  refine .bind (.product _) fun opLen => ?_
  refine .bind (.checkBuffer "operator data" _ opLen) fun _ => ?_
  refine .bind (.product [nd, vdim, ne]) fun diagLen => ?_
  refine .bind (.checkBuffer "diagonal" _ diagLen) fun _ => ?_
  -- their views,
  refine .bind (.view tables.b _) fun b => ?_
  refine .bind (.view tables.g _) fun g => ?_
  refine .bind (.mul _ _) fun nq => ?_
  refine .bind (.view op [nq, 3, ne]) fun op => ?_
  -- and the room of a worker.
  refine .bind (.product _) fun room => ?_
  exact .bind (.mul nd vdim) fun chunk => .ok _

theorem Diagonal.cellPlan_checked : Checked (cellPlan fixed limits ne tables op len) := by
  -- The sizes of the axes,
  refine .bind (.fixed "D1D" _ _) fun _ => ?_
  refine .bind (.fixed "Q1D" _ _) fun _ => ?_
  refine .bind (.limits limits _ _) fun _ => ?_
  refine .bind (.require trivial) fun _ => ?_
  refine .bind (.product _) fun nd => ?_
  -- the lengths of the buffers,
  refine .bind (.product _) fun opLen => ?_
  refine .bind (.checkBuffer "operator data" _ opLen) fun _ => ?_
  refine .bind (.product [nd, 3, ne]) fun diagLen => ?_
  refine .bind (.checkBuffer "diagonal" _ diagLen) fun _ => ?_
  -- their views,
  refine .bind (.view tables.b _) fun b => ?_
  refine .bind (.view tables.g _) fun g => ?_
  refine .bind (.product _) fun nq => ?_
  refine .bind (.view op [nq, 6, ne]) fun op => ?_
  -- and the room of a worker.
  refine .bind (.product _) fun planes => ?_
  refine .bind (.product _) fun lines => ?_
  refine .bind (.add planes lines) fun room => ?_
  exact .bind (.mul nd 3) fun chunk => .ok _

section

variable {kernel : OperatorData.Kernel α} {q1d : Nat} {w j c : Array α}

theorem OperatorData.checks_checked : Checked (checks kernel q1d ne w j len) := by
  refine .bind (.require trivial) fun _ => ?_
  refine .bind (.pow q1d _) fun nq => ?_
  refine .bind (.checkBuffer "quadrature weights" _ nq) fun _ => ?_
  refine .bind (.product _) fun jLen => ?_
  refine .bind (.checkBuffer "Jacobians" _ jLen) fun _ => ?_
  refine .bind (.product _) fun opLen => ?_
  refine .bind (.checkBuffer "operator data" _ opLen) fun _ => ?_
  exact .bind (.view j _) fun jacobians => .ok _

theorem OperatorData.plan_checked : Checked (plan kernel q1d ne w j c len) := by
  rw [plan_eq_checks]
  refine .bind checks_checked fun ⟨nq, jacobians⟩ => ?_
  have hchunk : Checked (do
      let chunk ← Size.mul nq (symmetricEntries kernel.dim)
      return ({ nq, chunk, weights := w, jacobians, samples := ⟨nq, ne, c⟩ } : Plan α)) :=
    .bind (.mul _ _) fun chunk => .ok _
  -- Samples are counted only where there is more than one.
  dsimp only
  split
  · refine .bind (.mul nq ne) fun expected => ?_
    exact .bind (.require trivial) fun _ => hchunk
  · exact hchunk

end

end

/-! ### What a call comes to -/

/-- A call of a kernel: its checks, which know the limits and the length of the output; the room of
a worker; and the loop over `ne` elements, with what a worker's workspace is before and after each. -/
structure Call (P σ β : Type) where
  ne : Nat
  plan : Limits → Nat → Except Fault P
  room : P → Nat
  loop : P → ElementLoop σ β
  Fits : P → σ → Prop
  run : Execution → Update β Unit

/-- What a call on `buf` comes to, under all settings with these limits. -/
inductive ChecksFirst {P σ β : Type} (call : Call P σ β) (limits : Limits) (buf : Array β) : Prop
  /-- A check fails, and the output is as it was. -/
  | fails (cause : Violation) (hcause : cause.IsPrecondition)
      (hplan : call.plan limits buf.size = .error (.violated cause))
      (hrun : ∀ config, config.limits = limits →
        (call.run config).run buf = .error (.violated cause) buf)
  /-- The room of a worker or a chunk is more than a buffer holds, and the output is as it was. -/
  | crowded (p : P) (cause : Violation) (hcause : cause.IsPrecondition ∨ cause = .capacityOverflow)
      (hplan : call.plan limits buf.size = .ok p)
      (hlarge : 2 ^ 56 ≤ call.room p ∨ Size.bufferBound ≤ (call.loop p).len)
      (hrun : ∀ config, config.limits = limits →
        (call.run config).run buf = .error (.violated cause) buf)
  /-- Every element is visited to its end. -/
  | completes (p : P) (hplan : call.plan limits buf.size = .ok p)
      (hfree : FreeOfSchedule (call.loop p) (call.Fits p) call.ne limits call.run buf)

/-- What a call of a kernel reports. -/
def Fault.OfKernel (fault : Fault) : Prop :=
  ∃ cause : Violation, fault = .violated cause ∧ (cause.IsPrecondition ∨ cause = .capacityOverflow)

/-- A call that fails leaves the output as it was. -/
theorem ChecksFirst.of_error {P σ β : Type} {call : Call P σ β} {limits : Limits} {buf : Array β}
    (h : ChecksFirst call limits buf) {config : Execution} (hconfig : config.limits = limits)
    {fault : Fault} {after : Array β} (hrun : (call.run config).run buf = .error fault after) :
    after = buf ∧ fault.OfKernel := by
  cases h with
  | fails cause hcause _ hfails =>
    cases hrun.symm.trans (hfails config hconfig)
    exact ⟨rfl, cause, rfl, .inl hcause⟩
  | crowded p cause hcause _ _ hfails =>
    cases hrun.symm.trans (hfails config hconfig)
    exact ⟨rfl, cause, rfl, hcause⟩
  | completes p _ hfree =>
    obtain ⟨out, -, hout⟩ := hfree
    exact nomatch hrun.symm.trans (hout config hconfig)

/-- No call of a kernel reports that there is no such kernel. -/
theorem Fault.OfKernel.ne_noInstance {text kernel : String} :
    ¬ (violated (.noInstance text kernel)).OfKernel := by
  rintro ⟨cause, hcause, h⟩
  cases hcause
  rcases h with h | h
  · exact h
  · exact nomatch h

/-- A call whose sizes are checked, whose workers take the room they ask for, whose loop refuses
chunks that are too long for a view, and whose loop is free of the schedule on sizes that pass. -/
theorem checksFirst_of_free {P σ β : Type} [Stored β] {call : Call P σ β} {limits : Limits}
    {buf : Array β} (hchecked : Checked (call.plan limits buf.size))
    (hrun : ∀ config, config.limits = limits → (call.run config).run buf =
      EStateM.run (do
        let p ← ofExcept (call.plan limits buf.size)
        forElements config (call.loop p).len (call.loop p).workspace (call.loop p).body) buf)
    (hwhole : ∀ p, call.plan limits buf.size = .ok p →
      0 < (call.loop p).len ∧ buf.size = call.ne * (call.loop p).len)
    (hroom : ∀ p, (call.loop p).workspace.reserve = Size.reserve (Stored.bytes β) (call.room p))
    (hlong : ∀ p, call.plan limits buf.size = .ok p → ¬ (call.loop p).len < Size.bufferBound →
      ∀ own e chunk, e < call.ne → chunk.size = (call.loop p).len →
        (call.loop p).body own e chunk = .error (.violated (.shapeOverflow (call.loop p).len)))
    (hfree : ∀ p, call.plan limits buf.size = .ok p → (call.loop p).workspace.reserve = .ok () →
      (0 < call.ne → (call.loop p).len < Size.bufferBound) →
      FreeOfSchedule (call.loop p) (call.Fits p) call.ne limits call.run buf) :
    ChecksFirst call limits buf := by
  cases hplan : call.plan limits buf.size with
  | error fault =>
    obtain ⟨cause, hcause, rfl⟩ := hchecked fault hplan
    refine .fails cause hcause hplan fun config hconfig => ?_
    rw [hrun config hconfig, run_bind_error (run_ofExcept_error hplan buf)]
  | ok p =>
    obtain ⟨hlen, hsize⟩ := hwhole p hplan
    by_cases hbytes : Stored.bytes β * call.room p < Size.bufferBound
    · have hreserve : (call.loop p).workspace.reserve = .ok () :=
        (hroom p).trans (Size.reserve_eq_ok.2 hbytes)
      by_cases hchunk : 0 < call.ne → (call.loop p).len < Size.bufferBound
      · exact .completes p hplan (hfree p hplan hreserve hchunk)
      · obtain ⟨hne, hnot⟩ := Classical.not_imp.1 hchunk
        refine .crowded p (.shapeOverflow (call.loop p).len) (.inl trivial) hplan
          (.inr (Nat.not_lt.1 hnot)) fun config hconfig => ?_
        rw [hrun config hconfig, run_bind_ok (run_ofExcept hplan buf)]
        exact forElements_error (hlong p hplan hnot) hlen hreserve hne hsize
    · have hlarge : 2 ^ 56 ≤ call.room p :=
        Nat.not_lt.1 fun hlt => hbytes (Size.bytes_mul_lt Stored.bytes_le hlt)
      have herror : (call.loop p).workspace.reserve = .error (.violated .capacityOverflow) :=
        (hroom p).trans (Size.reserve_of_not_lt hbytes)
      refine .crowded p .capacityOverflow (.inr rfl) hplan (.inl hlarge) fun config hconfig => ?_
      rw [hrun config hconfig, run_bind_ok (run_ofExcept hplan buf)]
      exact forElements_reserve_error hlen (by rw [hsize, Nat.mul_mod_left]) herror

/-! ### The kernels -/

section

variable {α : Type} {fixed : FixedSizes} {limits : Limits} {ne vdim : Nat}
  {tables : Tables α} {op x y diag : Array α}

variable [Zero α] [Add α] [Mul α] [Stored α]

namespace Action

/-- A call of the action on faces. -/
def faceCall (fixed : FixedSizes) (ne : Nat) (tables : Tables α) (op x : Array α) (vdim : Nat) :
    Call (Plan α) (Array α) α where
  ne
  plan limits yLen := facePlan fixed limits ne tables op x yLen vdim
  room := Plan.room
  loop := faceLoop fixed
  Fits p := fun scratch => scratch.size = p.room
  run config := onFaces fixed config ne tables op x vdim

theorem faces_check_first : ChecksFirst (faceCall fixed ne tables op x vdim) limits y :=
  checksFirst_of_free facePlan_checked (by rintro config rfl; rfl)
    (fun _ hplan => ⟨(facePlanned hplan).chunk_pos, (facePlanned hplan).yLen⟩) (fun _ => rfl)
    (fun _ hplan hnot => absurd (facePlanned hplan).chunk_lt hnot)
    fun _ hplan hroom _ => faces_free_of_schedule hplan hroom

/-- A call of the action on cells. -/
def cellCall (fixed : FixedSizes) (ne : Nat) (tables : Tables α) (op x : Array α) :
    Call (Plan α) (Array α) α where
  ne
  plan limits yLen := cellPlan fixed limits ne tables op x yLen
  room := Plan.room
  loop := cellLoop fixed
  Fits p := fun scratch => scratch.size = p.room
  run config := onCells fixed config ne tables op x

theorem cells_check_first : ChecksFirst (cellCall fixed ne tables op x) limits y :=
  checksFirst_of_free cellPlan_checked (by rintro config rfl; rfl)
    (fun _ hplan => ⟨(cellPlanned hplan).chunk_pos, (cellPlanned hplan).yLen⟩) (fun _ => rfl)
    (fun _ hplan hnot => absurd (cellPlanned hplan).chunk_lt hnot)
    fun _ hplan hroom _ => cells_free_of_schedule hplan hroom

end Action

namespace Diagonal

/-- A call of the diagonal on faces. -/
def faceCall (fixed : FixedSizes) (ne : Nat) (tables : Tables α) (op : Array α) (vdim : Nat) :
    Call (Plan α) (Array α) α where
  ne
  plan limits diagLen := facePlan fixed limits ne tables op diagLen vdim
  room := Plan.room
  loop := faceLoop fixed
  Fits p := fun scratch => scratch.size = p.room
  run config := onFaces fixed config ne tables op vdim

theorem faces_check_first : ChecksFirst (faceCall fixed ne tables op vdim) limits diag :=
  checksFirst_of_free facePlan_checked (by rintro config rfl; rfl)
    (fun _ hplan => ⟨(facePlanned hplan).chunk_pos, (facePlanned hplan).diagLen⟩) (fun _ => rfl)
    (fun _ hplan hnot own e _ _ => face_overflow (facePlanned hplan) hnot own e)
    fun _ => faces_free_of_schedule

/-- A call of the diagonal on cells. -/
def cellCall (fixed : FixedSizes) (ne : Nat) (tables : Tables α) (op : Array α) :
    Call (Plan α) (Array α) α where
  ne
  plan limits diagLen := cellPlan fixed limits ne tables op diagLen
  room := Plan.room
  loop := cellLoop fixed
  Fits p := fun scratch => scratch.size = p.room
  run config := onCells fixed config ne tables op

theorem cells_check_first : ChecksFirst (cellCall fixed ne tables op) limits diag :=
  checksFirst_of_free cellPlan_checked (by rintro config rfl; rfl)
    (fun _ hplan => ⟨(cellPlanned hplan).chunk_pos, (cellPlanned hplan).diagLen⟩) (fun _ => rfl)
    (fun _ hplan hnot own e _ _ => cell_overflow (cellPlanned hplan) hnot own e)
    fun _ => cells_free_of_schedule

end Diagonal

namespace OperatorData

variable {kernel : Kernel α} {q1d : Nat} {w j c : Array α}

omit [Zero α] [Add α] [Stored α] in
/-- A call of a setup kernel, whose workers keep nothing. -/
def call (kernel : Kernel α) (q1d ne : Nat) (w j c : Array α) : Call (Plan α) Unit α where
  ne
  plan _ opLen := plan kernel q1d ne w j c opLen
  room _ := 0
  loop := loop kernel
  Fits _ _ := True
  run config := run kernel config q1d ne w j c

omit [Zero α] [Add α] [Mul α] [Stored α] in
/-- What the checks of a setup establish for the chunks. -/
theorem chunk_of_plan (hk : HasKernel kernel.dim kernel.sdim) {p : Plan α}
    (hplan : plan kernel q1d ne w j c op.size = .ok p) :
    0 < p.chunk ∧ p.chunk < Size.bufferBound ∧ op.size = ne * p.chunk := by
  have hsizes := sizes_of_plan hk hplan
  obtain ⟨v, hv, rfl, -⟩ := plan_ok hk hsizes
  cases hplan.symm.trans hv
  exact ⟨hsizes.chunk_pos hk, hsizes.chunk_lt hk, by rw [hsizes.op]; exact Nat.mul_comm _ _⟩

omit [Add α] in
theorem check_first {form : α → (Nat → Nat → α) → Array α} (hform : kernel.Computes form)
    (hk : HasKernel kernel.dim kernel.sdim) : ChecksFirst (call kernel q1d ne w j c) limits op := by
  have hroom : Size.reserve (Stored.bytes α) 0 = .ok () :=
    Size.reserve_eq_ok.2 (show Stored.bytes α * 0 < Size.bufferBound by rw [Nat.mul_zero]; decide)
  refine checksFirst_of_free plan_checked (by rintro config rfl; rfl) (fun p hplan => ?_)
    (fun _ => hroom.symm) (fun p hplan hnot => absurd (chunk_of_plan hk hplan).2.1 hnot)
    fun _ hplan _ _ => free_of_schedule hform hk hplan limits
  obtain ⟨hpos, -, hsize⟩ := chunk_of_plan hk hplan
  exact ⟨hpos, hsize⟩

end OperatorData

end

/-- **Preconditions are checked first.**  Whatever is in the tables and the buffers, and however
long they are, a call of a kernel leaves the output as it was, because a check fails or the room of
a worker or a chunk is more than a buffer holds, or it visits every element to its end. -/
theorem kernels_check_first {α : Type} [Zero α] [One α] [Add α] [Sub α] [Mul α] [Neg α] [Div α]
    [SquareRoot α] [Stored α] (limits : Limits) (ne : Nat) :
    (∀ fixed (tables : Tables α) op x vdim y,
      ChecksFirst (Action.faceCall fixed ne tables op x vdim) limits y) ∧
    (∀ fixed (tables : Tables α) op x y,
      ChecksFirst (Action.cellCall fixed ne tables op x) limits y) ∧
    (∀ fixed (tables : Tables α) op vdim diag,
      ChecksFirst (Diagonal.faceCall fixed ne tables op vdim) limits diag) ∧
    (∀ fixed (tables : Tables α) op diag,
      ChecksFirst (Diagonal.cellCall fixed ne tables op) limits diag) ∧
    (∀ (kernel : OperatorData.Kernel α) q1d w j c op,
      kernel ∈ [OperatorData.planar, OperatorData.surface, OperatorData.solid] →
      ChecksFirst (OperatorData.call kernel q1d ne w j c) limits op) := by
  refine ⟨fun _ _ _ _ _ _ => Action.faces_check_first, fun _ _ _ _ _ => Action.cells_check_first,
    fun _ _ _ _ _ => Diagonal.faces_check_first, fun _ _ _ _ => Diagonal.cells_check_first, ?_⟩
  intro kernel q1d w j c op hkernel
  obtain ⟨hk, form, hform⟩ := OperatorData.kernel_cases hkernel
  exact OperatorData.check_first hform hk

/-- Tables of two nodes and one point per axis, with one value for two nodes. -/
def brokenTables : Tables Float :=
  ⟨2, 1, #[0.5], #[-1, 1], #[0.5, 0.5], #[-1, 1]⟩

/-- A setup of two faces passes its checks; an action that reads broken tables does not, and leaves
the output as it was. -/
theorem kernels_check_first_two_faces :
    (∃ p, OperatorData.plan OperatorData.surface 1 2 #[(1 : Float)] (.replicate 12 2) #[3] 6 =
      .ok p) ∧
    ChecksFirst (OperatorData.call OperatorData.surface 1 2 #[(1 : Float)] (.replicate 12 2) #[3])
      {} (.replicate 6 0) ∧
    (Action.onFaces {} {} 2 brokenTables (.replicate 6 1) (.replicate 8 2) 1).run (.replicate 8 0) =
      .error (.violated (.shortBuffer 1)) (.replicate 8 0) ∧
    ChecksFirst (Action.faceCall {} 2 brokenTables (.replicate 6 1) (.replicate 8 2) 1)
      {} (.replicate 8 0) := by
  obtain ⟨hfaces, -, -, -, hsetup⟩ := kernels_check_first (α := Float) {} 2
  exact ⟨⟨_, rfl⟩, hsetup OperatorData.surface 1 _ _ _ _ (by simp), rfl, hfaces {} _ _ _ 1 _⟩

end TensorDiffusion
