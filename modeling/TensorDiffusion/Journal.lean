import TensorDiffusion.Diffusion.Shape
import TensorDiffusion.Elements

/-!
# The journal

What is recorded while an operator is set up and applied.  A `Run` works on a value and writes to
the journal; when it fails, the value is as the failing step left it and the events recorded so
far are kept.
-/

namespace TensorDiffusion

/-- How much attention an event deserves. -/
inductive Level where
  | trace
  | debug
  | warn
  deriving Repr, DecidableEq

/-- Something worth recording. -/
inductive Event where
  /-- A setup kernel is chosen by the dimensions. -/
  | setupKernel (dim sdim q1d ne : Nat)
  /-- The operator is applied. -/
  | applied (shape : Shape) (variant : Variant)
  /-- The diagonal is assembled. -/
  | diagonal (shape : Shape) (variant : Variant)
  /-- The operator data of a sum-factorized operator is about to be computed. -/
  | setup (shape : Shape) (ne : Nat) (isConstant : Bool)
  /-- Dense element matrices of `nd` rows are assembled. -/
  | matrices (ne nd : Nat)
  /-- The caller's rule has fewer points than the default one. -/
  | underIntegrated (points order default : Nat)
  /-- An integrator is assembled with the backend of the given name. -/
  | assembled (backend : String) (ne : Nat)

namespace Event

/-- The level of an event. -/
def level : Event → Level
  | .setupKernel .. | .applied .. | .diagonal ..  => .trace
  | .setup .. | .matrices .. | .assembled ..      => .debug
  | .underIntegrated ..                           => .warn

/-- The text of an event. -/
def message : Event → String
  | .setupKernel dim sdim q1d ne =>
    s!"setup kernel: dim = {dim}, sdim = {sdim}, Q1D = {q1d}, NE = {ne}"
  | .applied shape variant =>
    s!"vector diffusion apply for {shape.describe}: {variant.describe}"
  | .diagonal shape variant =>
    s!"vector diffusion diagonal for {shape.describe}: {variant.describe}"
  | .setup shape ne isConstant =>
    s!"vector diffusion setup: dim = {shape.dim}, sdim = {shape.sdim}, D1D = {shape.d1d}, "
      ++ s!"Q1D = {shape.q1d}, NE = {ne}, constant coefficient: "
      ++ (if isConstant then "true" else "false")
  | .matrices ne nd => s!"assembled {ne} dense element matrices of size {nd} x {nd}"
  | .underIntegrated points order default =>
    s!"custom rule with {points} points per axis under-integrates order {order} elements "
      ++ s!"(default: {default})"
  | .assembled backend ne =>
    s!"vector diffusion assembled with the {backend} backend for {ne} elements"

end Event

/-- A value under work and the events recorded so far. -/
structure Session (σ : Type) where
  value : σ
  events : Array Event := #[]

/-- A computation on a value, with a journal. -/
abbrev Run (σ : Type) := EStateM Fault (Session σ)

namespace Run

variable {σ β : Type}

/-- Records an event. -/
def record (event : Event) : Run σ Unit :=
  modify fun session => { session with events := session.events.push event }

/-- The value under work. -/
def value : Run σ σ :=
  return (← get).value

/-- Replaces the value under work. -/
def put (value : σ) : Run σ Unit :=
  modify fun session => { session with value }

/-- Runs a computation on the value alone. -/
def onValue (update : EStateM Fault σ β) : Run σ β := fun ⟨value, events⟩ =>
  match update value with
  | .ok result value   => .ok result ⟨value, events⟩
  | .error fault value => .error fault ⟨value, events⟩

/-- Runs a computation that only writes to the journal. -/
def aside (run : Run Unit β) : Run σ β := fun ⟨value, events⟩ =>
  match run ⟨(), events⟩ with
  | .ok result inner   => .ok result ⟨value, inner.events⟩
  | .error fault inner => .error fault ⟨value, inner.events⟩

/-- Runs a computation on a value of its own, which it returns. -/
def within {τ : Type} (value : τ) (run : Run τ Unit) : Run σ τ := fun ⟨outer, events⟩ =>
  match run ⟨value, events⟩ with
  | .ok () inner       => .ok inner.value ⟨outer, inner.events⟩
  | .error fault inner => .error fault ⟨outer, inner.events⟩

end Run

end TensorDiffusion
