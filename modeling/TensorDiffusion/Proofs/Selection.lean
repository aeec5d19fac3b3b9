import TensorDiffusion.Diffusion.Selection
import TensorDiffusion.Proofs.Elements
import TensorDiffusion.Proofs.Kernels

/-!
# Which kernel runs

Every shape is served by the kernel for its dimension, compiled for sizes that agree with it
(`Action.select_eq`, `Diagonal.select_eq`).  No law of arithmetic is used.
-/

namespace TensorDiffusion

/-! ### Computations with a journal -/

namespace Run

variable {σ β : Type} {value value' : σ} {events : Array Event}

/-- A computation on the value alone leaves the journal as it is. -/
theorem run_onValue {update : EStateM Fault σ β} {result : β}
    (h : update.run value = .ok result value') :
    (onValue update).run ⟨value, events⟩ = .ok result ⟨value', events⟩ := by
  show onValue update ⟨value, events⟩ = _
  rw [onValue, show update value = .ok result value' from h]

theorem run_onValue_eq_ok {update : EStateM Fault σ β} {result : β} {session : Session σ}
    (h : (onValue update).run ⟨value, events⟩ = .ok result session) :
    update.run value = .ok result session.value := by
  change onValue update ⟨value, events⟩ = _ at h
  rw [onValue] at h
  cases hrun : update value with
  | ok a v =>
    rw [hrun] at h
    cases h
    exact hrun
  | error fault v => rw [hrun] at h; exact nomatch h

/-- A computation on a value of its own leaves that value. -/
theorem run_within {τ : Type} {inner : Run τ Unit} {start : τ} {last : Session τ}
    (h : inner.run ⟨start, events⟩ = .ok () last) :
    (within start inner).run ⟨value, events⟩ = .ok last.value ⟨value, last.events⟩ := by
  show within start inner ⟨value, events⟩ = _
  rw [within, show inner ⟨start, events⟩ = .ok () last from h]

theorem run_within_eq_ok {τ : Type} {inner : Run τ Unit} {start result : τ}
    {session session' : Session σ} (h : (within start inner).run session = .ok result session') :
    ∃ last, inner.run ⟨start, session.events⟩ = .ok () last ∧ result = last.value := by
  change within start inner session = _ at h
  rw [within] at h
  cases hrun : inner ⟨start, session.events⟩ with
  | ok _ last =>
    rw [hrun] at h
    cases h
    exact ⟨last, hrun, rfl⟩
  | error fault last => rw [hrun] at h; exact nomatch h

theorem run_record (event : Event) :
    (record event : Run σ Unit).run ⟨value, events⟩ = .ok () ⟨value, events.push event⟩ := rfl

/-- An event is recorded, then the value is worked on. -/
theorem run_record_onValue {event : Event} {update : EStateM Fault σ β} {result : β}
    (h : update.run value = .ok result value') :
    (do record event; onValue update : Run σ β).run ⟨value, events⟩ =
      .ok result ⟨value', events.push event⟩ := by
  rw [run_bind_ok (run_record event), run_onValue h]

end Run

/-! ### Variants -/

/-- A shape has a kernel of its own only for as many points as nodes per axis. -/
theorem Shape.variant_cases (shape : Shape) :
    shape.variant = .generic ∨ ∃ n, shape.d1d = n ∧ shape.q1d = n ∧ shape.variant = .fixed n n ∧
      (n = 2 ∨ n = 3 ∨ n = 4 ∨ shape.dim = 2 ∧ n = 5) := by
  unfold Shape.variant
  split <;> simp_all

/-- The dimensions of a shape. -/
theorem Shape.dim_cases (shape : Shape) :
    shape.dim = 2 ∧ shape.vdim = 2 ∨ shape.dim = 2 ∧ shape.vdim = 3 ∨
      shape.dim = 3 ∧ shape.vdim = 3 :=
  shape.hasKernel

variable {α : Type} [Zero α] [Add α] [Mul α] [Stored α]

namespace Action

/-- The kernel for the dimension of a shape. -/
def kernel (fixed : FixedSizes) (config : Execution) (shape : Shape) (ne : Nat) (tables : Tables α)
    (op x : Array α) : Update α Unit :=
  if shape.dim = 2 then onFaces fixed config ne tables op x shape.vdim
  else onCells fixed config ne tables op x

/-- **The selected action** is the kernel for the dimension, compiled for sizes that agree. -/
theorem select_eq (config : Execution) (shape : Shape) (ne : Nat) (tables : Tables α)
    (op x : Array α) :
    ∃ fixed : FixedSizes, fixed.Agrees shape.d1d shape.q1d shape.vdim ∧
      select config shape ne tables op x = (do
        Run.record (.applied shape shape.variant)
        Run.onValue (kernel fixed config shape ne tables op x)) := by
  rcases shape.variant_cases with hv | ⟨n, hd, hq, hv, hn⟩
  · refine ⟨{}, FixedSizes.agrees_open .., ?_⟩
    rw [select, hv]
    rfl
  · obtain ⟨dim, sdim, d1d, q1d, hk, hd₀, hq₀⟩ := shape
    obtain rfl : d1d = n := hd
    obtain rfl : q1d = d1d := hq
    rw [select, hv]
    rcases hk with ⟨rfl, rfl⟩ | ⟨rfl, rfl⟩ | ⟨rfl, rfl⟩
    · refine ⟨⟨q1d, q1d, 2⟩, ⟨.inr rfl, .inr rfl, .inr rfl⟩, ?_⟩
      rcases hn with rfl | rfl | rfl | ⟨-, rfl⟩ <;> rfl
    · refine ⟨⟨q1d, q1d, 3⟩, ⟨.inr rfl, .inr rfl, .inr rfl⟩, ?_⟩
      rcases hn with rfl | rfl | rfl | ⟨-, rfl⟩ <;> rfl
    · refine ⟨⟨q1d, q1d, 0⟩, ⟨.inr rfl, .inr rfl, .inl rfl⟩, ?_⟩
      rcases hn with rfl | rfl | rfl | ⟨h, -⟩
      · rfl
      · rfl
      · rfl
      · exact absurd h (show ¬ 3 = 2 by decide)

end Action

namespace Diagonal

/-- The kernel for the dimension of a shape. -/
def kernel (fixed : FixedSizes) (config : Execution) (shape : Shape) (ne : Nat) (tables : Tables α)
    (op : Array α) : Update α Unit :=
  if shape.dim = 2 then onFaces fixed config ne tables op shape.vdim
  else onCells fixed config ne tables op

/-- **The selected diagonal** is the kernel for the dimension, compiled for sizes that agree. -/
theorem select_eq (config : Execution) (shape : Shape) (ne : Nat) (tables : Tables α)
    (op : Array α) :
    ∃ fixed : FixedSizes, fixed.Agrees shape.d1d shape.q1d shape.vdim ∧
      select config shape ne tables op = (do
        Run.record (.diagonal shape shape.variant)
        Run.onValue (kernel fixed config shape ne tables op)) := by
  rcases shape.variant_cases with hv | ⟨n, hd, hq, hv, hn⟩
  · refine ⟨{}, FixedSizes.agrees_open .., ?_⟩
    rw [select, hv]
    rfl
  · obtain ⟨dim, sdim, d1d, q1d, hk, hd₀, hq₀⟩ := shape
    obtain rfl : d1d = n := hd
    obtain rfl : q1d = d1d := hq
    refine ⟨⟨q1d, q1d, 0⟩, ⟨.inr rfl, .inr rfl, .inl rfl⟩, ?_⟩
    rw [select, hv]
    rcases hk with ⟨rfl, rfl⟩ | ⟨rfl, rfl⟩ | ⟨rfl, rfl⟩
    · rcases hn with rfl | rfl | rfl | ⟨-, rfl⟩ <;> rfl
    · rcases hn with rfl | rfl | rfl | ⟨-, rfl⟩ <;> rfl
    · rcases hn with rfl | rfl | rfl | ⟨h, -⟩
      · rfl
      · rfl
      · rfl
      · exact absurd h (show ¬ 3 = 2 by decide)

end Diagonal

end TensorDiffusion
