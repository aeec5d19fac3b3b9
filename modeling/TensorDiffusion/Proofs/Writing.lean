import TensorDiffusion.Proofs.Integration

/-!
# Computations that only write to the journal

What such a computation returns, and what it leaves of the value under work, is the same whatever
was recorded before; its own events come after those.  Assemblies are such computations
(`Integrator.ruleFor_onlyWrites`, `Integrator.chosen_onlyWrites`), if the provider's are.
-/

namespace TensorDiffusion

variable {α : Type}

namespace Run

variable {σ β γ : Type}

/-- A result with its events after some earlier ones. -/
def appended (earlier : Array Event) :
    EStateM.Result Fault (Session σ) β → EStateM.Result Fault (Session σ) β
  | .ok result s    => .ok result ⟨s.value, earlier ++ s.events⟩
  | .error fault s  => .error fault ⟨s.value, earlier ++ s.events⟩

/-- A computation that writes to the journal without reading it. -/
def OnlyWrites (run : Run σ β) : Prop :=
  ∀ value events, run.run ⟨value, events⟩ = appended events (run.run ⟨value, #[]⟩)

theorem appended_appended (first second : Array Event)
    (result : EStateM.Result Fault (Session σ) β) :
    appended first (appended second result) = appended (first ++ second) result := by
  cases result <;> simp [appended]

namespace OnlyWrites

theorem pure (a : β) : OnlyWrites (pure a : Run σ β) :=
  fun value events => by simp [appended]

theorem bind {x : Run σ β} {f : β → Run σ γ} (hx : OnlyWrites x) (hf : ∀ a, OnlyWrites (f a)) :
    OnlyWrites (x >>= f) := by
  intro value events
  have hfirst := hx value events
  cases hrun : x.run ⟨value, #[]⟩ with
  | error fault s =>
    rw [hrun] at hfirst
    rw [run_bind_error hfirst, run_bind_error hrun]
    rfl
  | ok a s =>
    rw [hrun] at hfirst
    have hsecond : (f a).run s = appended s.events ((f a).run ⟨s.value, #[]⟩) :=
      hf a s.value s.events
    rw [run_bind_ok hfirst, run_bind_ok hrun, hf a, hsecond, appended_appended]

theorem map {x : Run σ β} (f : β → γ) (hx : OnlyWrites x) : OnlyWrites (f <$> x) := by
  rw [map_eq_pure_bind]
  exact hx.bind fun a => .pure (f a)

theorem ofExcept (m : Except Fault β) : OnlyWrites (ofExcept m : Run σ β) := by
  intro value events
  cases m with
  | ok a => rw [run_ofExcept rfl, run_ofExcept rfl, appended, Array.append_empty]
  | error fault => rw [run_ofExcept_error rfl, run_ofExcept_error rfl, appended, Array.append_empty]

theorem record (event : Event) : OnlyWrites (record event : Run σ Unit) := by
  intro value events
  rw [run_record, run_record, appended]
  simp

theorem onValue (update : EStateM Fault σ β) : OnlyWrites (onValue update) := by
  intro value events
  show Run.onValue update ⟨value, events⟩ = appended events (Run.onValue update ⟨value, #[]⟩)
  unfold Run.onValue
  dsimp only
  cases update value <;> simp [appended]

theorem within {τ : Type} {inner : Run τ Unit} (start : τ) (h : OnlyWrites inner) :
    OnlyWrites (within start inner : Run σ τ) := by
  intro value events
  show Run.within start inner ⟨value, events⟩ =
    appended events (Run.within start inner ⟨value, #[]⟩)
  have hinner : inner ⟨start, events⟩ = appended events (inner ⟨start, #[]⟩) := h start events
  unfold Run.within
  dsimp only
  rw [hinner]
  cases inner ⟨start, #[]⟩ <;> rfl

end OnlyWrites

/-- What was recorded before does not change the result. -/
theorem OnlyWrites.result {run : Run σ β} (h : OnlyWrites run) {value : σ}
    {events : Array Event} {a : β} {s : Session σ} (hrun : run.run ⟨value, events⟩ = .ok a s)
    (others : Array Event) : ∃ s', run.run ⟨value, others⟩ = .ok a s' := by
  rw [h] at hrun
  rw [h]
  cases hblank : run.run ⟨value, #[]⟩ with
  | error fault s => rw [hblank] at hrun; exact nomatch hrun
  | ok a' s' =>
    rw [hblank] at hrun
    cases hrun
    exact ⟨_, rfl⟩

end Run

open Run

section

variable [Zero α] [One α] [Add α] [Sub α] [Mul α] [Neg α] [Div α] [BEq α] [OfDouble α]
  [SquareRoot α] [Stored α]

omit [Zero α] [BEq α] [OfDouble α] [Stored α] in
theorem OperatorData.setup_onlyWrites (config : Execution) (dim sdim q1d ne : Nat)
    (w j c : Array α) : OnlyWrites (setup config dim sdim q1d ne w j c) := by
  refine .bind (.record _) fun _ => ?_
  split
  · exact .onValue _
  · exact .onValue _
  · exact .onValue _
  · exact .ofExcept _
  · exact .ofExcept _

theorem Factorized.assemble_onlyWrites (context : Context α) : OnlyWrites (assemble context) :=
  .bind (.ofExcept _) fun _ => .bind (.record _) fun _ => .bind (.ofExcept _) fun _ =>
    .bind (.ofExcept _) fun _ =>
      .bind (.within _ (OperatorData.setup_onlyWrites _ _ _ _ _ _ _ _)) fun _ => .pure _

theorem Dense.assemble_onlyWrites (context : Context α) : OnlyWrites (assemble context) :=
  .bind (.ofExcept _) fun _ => .bind (.ofExcept _) fun _ => .bind (.ofExcept _) fun _ =>
    .bind (.ofExcept _) fun _ => .bind (.record _) fun _ => .pure _

/-- A provider that makes backends without reading the journal. -/
def Provider.OnlyWrites (provider : Provider α) : Prop :=
  ∀ context, Run.OnlyWrites (provider.create context)

theorem Provider.denseIf_onlyWrites (accepts : Context α → Bool) :
    (Provider.denseIf accepts).OnlyWrites :=
  fun context => .map _ (Dense.assemble_onlyWrites context)

namespace Integrator

omit [Zero α] [One α] [Add α] [Sub α] [Mul α] [Neg α] [Div α] [BEq α] [SquareRoot α] [Stored α] in
theorem ruleFor_onlyWrites (integrator : Integrator α) (space : Space α) :
    OnlyWrites (integrator.ruleFor space) := by
  refine .bind (.ofExcept _) fun rule => .bind ?_ fun _ => .pure _
  unfold noteRule
  split
  · refine .bind (.ofExcept _) fun default => ?_
    split
    · exact .record _
    · exact .pure _
  · exact .pure _

theorem chosen_onlyWrites {provider : Option (Provider α)}
    (h : ∀ p, provider = some p → p.OnlyWrites) (context : Context α) :
    OnlyWrites (chosen provider context) := by
  unfold chosen
  split
  · exact .map _ (Factorized.assemble_onlyWrites context)
  · next p =>
    split
    · exact h p rfl context
    · exact .map _ (Factorized.assemble_onlyWrites context)

end Integrator

end

end TensorDiffusion
