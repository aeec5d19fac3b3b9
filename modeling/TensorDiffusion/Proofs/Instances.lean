import TensorDiffusion.Proofs.Preconditions
import TensorDiffusion.Proofs.Selection

/-!
# Kernels compiled for a size

A kernel that is compiled for sizes which agree with the actual ones does what the kernel for any
size does: the same checks pass, and the loop runs over the same indices in the same order.  So the
kernel that a shape selects is the generic one, but for the entry in the journal that says which of
them ran (`selected_eq_generic`).  No law of arithmetic is used.

* `Action.kernel_fixed`, `Diagonal.kernel_fixed`: sizes that agree make no difference.
* `Action.generic_error`, `Diagonal.generic_error`: what a generic kernel reports.
-/

namespace TensorDiffusion

/-- A computation that goes on in the same way from every result goes on in the same way. -/
theorem ofExcept_bind_congr {σ β τ : Type} {m : Except Fault β} {f g : β → EStateM Fault σ τ}
    (h : ∀ a, m = .ok a → f a = g a) : (ofExcept m >>= f) = (ofExcept m >>= g) := by
  cases m with
  | ok a =>
    exact h a rfl
  | error fault => rfl

variable {α : Type} {fixed : FixedSizes} {limits : Limits} {config : Execution} {ne vdim : Nat}
  {tables : Tables α} {op x : Array α} {len : Nat}

/-! ### Actions -/

namespace Action

theorem facePlan_fixed (h : fixed.Agrees tables.ndof tables.nqpt vdim) :
    facePlan fixed limits ne tables op x len vdim = facePlan {} limits ne tables op x len vdim := by
  simp only [facePlan, FixedSizes.check_ok h.d1d, FixedSizes.check_ok h.q1d,
    FixedSizes.check_ok h.vdim, FixedSizes.check_ok (.inl rfl)]

theorem cellPlan_fixed (h : fixed.Agrees tables.ndof tables.nqpt vdim) :
    cellPlan fixed limits ne tables op x len = cellPlan {} limits ne tables op x len := by
  simp only [cellPlan, FixedSizes.check_ok h.d1d, FixedSizes.check_ok h.q1d,
    FixedSizes.check_ok (.inl rfl)]

variable [Zero α] [Add α] [Mul α]

theorem face_fixed {plan : Plan α} (h : fixed.Agrees plan.d1d plan.q1d plan.vdim) :
    face fixed plan = face {} plan := by
  funext workspace e y
  simp only [face, FixedSizes.pick_eq h.d1d, FixedSizes.pick_eq h.q1d, FixedSizes.pick_eq h.vdim,
    FixedSizes.pick_eq (.inl rfl)]

theorem cell_fixed {plan : Plan α} (h : fixed.Agrees plan.d1d plan.q1d vdim) :
    cell fixed plan = cell {} plan := by
  funext workspace e y
  simp only [cell, FixedSizes.pick_eq h.d1d, FixedSizes.pick_eq h.q1d,
    FixedSizes.pick_eq (.inl rfl)]

variable [Stored α]

theorem onFaces_fixed (h : fixed.Agrees tables.ndof tables.nqpt vdim) :
    onFaces fixed config ne tables op x vdim = onFaces {} config ne tables op x vdim := by
  refine bind_congr fun y => ?_
  rw [facePlan_fixed h]
  refine ofExcept_bind_congr fun plan hplan => ?_
  have hp := facePlanned hplan
  rw [face_fixed (by rwa [hp.d1d, hp.q1d, hp.vdim])]

theorem onCells_fixed (h : fixed.Agrees tables.ndof tables.nqpt vdim) :
    onCells fixed config ne tables op x = onCells {} config ne tables op x := by
  refine bind_congr fun y => ?_
  rw [cellPlan_fixed h]
  refine ofExcept_bind_congr fun plan hplan => ?_
  have hp := cellPlanned hplan
  rw [cell_fixed (by rwa [hp.d1d, hp.q1d])]

/-- **Sizes that agree** make no difference to an action. -/
theorem kernel_fixed {shape : Shape} (h : fixed.Agrees tables.ndof tables.nqpt shape.vdim) :
    kernel fixed config shape ne tables op x = generic config shape ne tables op x := by
  rw [kernel, generic, onFaces_fixed h, onCells_fixed h]

/-- What a generic action reports. -/
theorem generic_error {shape : Shape} {y after : Array α} {fault : Fault}
    (h : (generic config shape ne tables op x).run y = .error fault after) :
    after = y ∧ fault.OfKernel := by
  rw [generic] at h
  split at h
  · exact faces_check_first.of_error rfl h
  · exact cells_check_first.of_error rfl h

end Action

/-! ### Diagonals -/

namespace Diagonal

theorem facePlan_fixed (h : fixed.Agrees tables.ndof tables.nqpt vdim) :
    facePlan fixed limits ne tables op len vdim = facePlan {} limits ne tables op len vdim := by
  simp only [facePlan, FixedSizes.check_ok h.d1d, FixedSizes.check_ok h.q1d,
    FixedSizes.check_ok (.inl rfl)]

theorem cellPlan_fixed (h : fixed.Agrees tables.ndof tables.nqpt vdim) :
    cellPlan fixed limits ne tables op len = cellPlan {} limits ne tables op len := by
  simp only [cellPlan, FixedSizes.check_ok h.d1d, FixedSizes.check_ok h.q1d,
    FixedSizes.check_ok (.inl rfl)]

variable [Zero α] [Add α] [Mul α]

theorem face_fixed {plan : Plan α} (h : fixed.Agrees plan.d1d plan.q1d vdim) :
    face fixed plan = face {} plan := by
  funext workspace e y
  simp only [face, FixedSizes.pick_eq h.d1d, FixedSizes.pick_eq h.q1d,
    FixedSizes.pick_eq (.inl rfl)]

theorem cell_fixed {plan : Plan α} (h : fixed.Agrees plan.d1d plan.q1d vdim) :
    cell fixed plan = cell {} plan := by
  funext workspace e y
  simp only [cell, FixedSizes.pick_eq h.d1d, FixedSizes.pick_eq h.q1d,
    FixedSizes.pick_eq (.inl rfl)]

variable [Stored α]

theorem onFaces_fixed (h : fixed.Agrees tables.ndof tables.nqpt vdim) :
    onFaces fixed config ne tables op vdim = onFaces {} config ne tables op vdim := by
  refine bind_congr fun diag => ?_
  rw [facePlan_fixed h]
  refine ofExcept_bind_congr fun plan hplan => ?_
  have hp := facePlanned hplan
  rw [face_fixed (by rwa [hp.d1d, hp.q1d])]

theorem onCells_fixed (h : fixed.Agrees tables.ndof tables.nqpt vdim) :
    onCells fixed config ne tables op = onCells {} config ne tables op := by
  refine bind_congr fun diag => ?_
  rw [cellPlan_fixed h]
  refine ofExcept_bind_congr fun plan hplan => ?_
  have hp := cellPlanned hplan
  rw [cell_fixed (by rwa [hp.d1d, hp.q1d])]

/-- **Sizes that agree** make no difference to a diagonal. -/
theorem kernel_fixed {shape : Shape} (h : fixed.Agrees tables.ndof tables.nqpt shape.vdim) :
    kernel fixed config shape ne tables op = generic config shape ne tables op := by
  rw [kernel, generic, onFaces_fixed h, onCells_fixed h]

/-- What a generic diagonal reports. -/
theorem generic_error {shape : Shape} {diag after : Array α} {fault : Fault}
    (h : (generic config shape ne tables op).run diag = .error fault after) :
    after = diag ∧ fault.OfKernel := by
  rw [generic] at h
  split at h
  · exact faces_check_first.of_error rfl h
  · exact cells_check_first.of_error rfl h

end Diagonal

/-! ### Selected kernels -/

/-- A fault after an entry in the journal comes from the work on the value. -/
theorem Run.run_record_onValue_error {σ β : Type} {event : Event} {update : EStateM Fault σ β}
    {fault : Fault} {session after : Session σ}
    (h : (do record event; onValue update : Run σ β).run session = .error fault after) :
    update.run session.value = .error fault after.value := by
  obtain ⟨value, events⟩ := session
  rw [run_bind_ok (run_record event)] at h
  change onValue update ⟨value, _⟩ = _ at h
  rw [onValue] at h
  cases hrun : update value with
  | ok result value' =>
    rw [hrun] at h
    cases h
  | error cause value' =>
    rw [hrun] at h
    cases h
    exact hrun

/-- **The selected kernel is the generic one**, but for the entry in the journal.  On tables of the
sizes of the shape they give the same output, entry for entry, or the same fault, and a shape never
selects a kernel that does not exist. -/
theorem selected_eq_generic [Zero α] [Add α] [Mul α] [Stored α] (config : Execution) (shape : Shape)
    (ne : Nat) (tables : Tables α) (op x : Array α) (hd : tables.ndof = shape.d1d)
    (hq : tables.nqpt = shape.q1d) :
    (Action.select config shape ne tables op x = do
      Run.record (.applied shape shape.variant)
      Run.onValue (Action.generic config shape ne tables op x)) ∧
    (Diagonal.select config shape ne tables op = do
      Run.record (.diagonal shape shape.variant)
      Run.onValue (Diagonal.generic config shape ne tables op)) ∧
    ∀ (session after : Session (Array α)) text kernel,
      (Action.select config shape ne tables op x).run session ≠
        .error (.violated (.noInstance text kernel)) after ∧
      (Diagonal.select config shape ne tables op).run session ≠
        .error (.violated (.noInstance text kernel)) after := by
  obtain ⟨fixed, hfixed, haction⟩ := Action.select_eq config shape ne tables op x
  obtain ⟨fixed', hfixed', hdiagonal⟩ := Diagonal.select_eq config shape ne tables op
  rw [Action.kernel_fixed (by rwa [hd, hq])] at haction
  rw [Diagonal.kernel_fixed (by rwa [hd, hq])] at hdiagonal
  refine ⟨haction, hdiagonal, fun session after text kernel => ⟨fun h => ?_, fun h => ?_⟩⟩
  · rw [haction] at h
    have hgeneric := Action.generic_error (Run.run_record_onValue_error h)
    exact Fault.OfKernel.ne_noInstance hgeneric.2
  · rw [hdiagonal] at h
    have hgeneric := Diagonal.generic_error (Run.run_record_onValue_error h)
    exact Fault.OfKernel.ne_noInstance hgeneric.2

/-- Faces in space with three nodes and three points per axis. -/
def threeByThree : Shape :=
  ⟨2, 3, 3, 3, .inr (.inl ⟨rfl, rfl⟩), Nat.succ_pos 2, Nat.succ_pos 2⟩

/-- Tables for three nodes and three points per axis, of no basis in particular. -/
def levelTables : Tables Float :=
  ⟨3, 3, .replicate 9 1, .replicate 9 2, .replicate 9 3, .replicate 9 4⟩

/-- Faces with three nodes and points per axis have kernels of their own, and these read any
tables. -/
theorem selected_eq_generic_three_nodes :
    threeByThree.variant = .fixed 3 3 ∧
    (Action.select {} threeByThree 1 levelTables (.replicate 27 1) (.replicate 27 2) = do
      Run.record (.applied threeByThree (.fixed 3 3))
      Run.onValue (Action.generic {} threeByThree 1 levelTables (.replicate 27 1)
        (.replicate 27 2))) ∧
    (Diagonal.select {} threeByThree 1 levelTables (.replicate 27 1) = do
      Run.record (.diagonal threeByThree (.fixed 3 3))
      Run.onValue (Diagonal.generic {} threeByThree 1 levelTables (.replicate 27 1))) := by
  obtain ⟨haction, hdiagonal, -⟩ :=
    selected_eq_generic {} threeByThree 1 levelTables (.replicate 27 1) (.replicate 27 2) rfl rfl
  exact ⟨rfl, haction, hdiagonal⟩

end TensorDiffusion
