import TensorDiffusion.Operator.Backend

/-!
# The integrator

The bilinear form `a(u, v) = ∑ (Q ∇u, ∇v)` over the components of a vector field, for a scalar
coefficient `Q`.  An integrator is configured, assembled on a space, and then applied any number of
times.  The last assembly wins: it discards the operator before it starts, so an integrator whose
last assembly failed is unassembled.
-/

namespace TensorDiffusion

/-- A question to a provider, whether it accepts a problem, with the answer. -/
structure Question (α : Type) where
  context : Context α
  accepted : Bool

/-- A vector diffusion form and the operator assembled from it, if there is one. -/
structure Integrator (α : Type) where
  coefficient : Coefficient α
  /-- The rule used instead of the default one. -/
  rule : Option (TensorRule α) := none
  provider : Option (Provider α) := none
  /-- What the provider has been asked, the latest question last. -/
  questions : Array (Question α) := #[]
  execution : Execution := {}
  backend : Option (Backend α) := none

namespace Integrator

variable {α : Type}

/-- An unassembled integrator of the default settings. -/
def new (coefficient : Coefficient α) : Integrator α :=
  { coefficient }

/-- Uses a rule instead of the default one. -/
def withRule (integrator : Integrator α) (rule : TensorRule α) : Integrator α :=
  { integrator with rule := some rule }

/-- Consults a provider in later assemblies. -/
def withProvider (integrator : Integrator α) (provider : Provider α) : Integrator α :=
  { integrator with provider := some provider, questions := #[] }

/-- Uses other settings in later assemblies. -/
def withExecution (integrator : Integrator α) (execution : Execution) : Integrator α :=
  { integrator with execution }

/-- How often the provider has been asked. -/
def queries (integrator : Integrator α) : Nat :=
  integrator.questions.size

/-- The rule for a space. -/
def integrationRule [OfDouble α] (integrator : Integrator α) (space : Space α) :
    Except Fault (TensorRule α) :=
  match integrator.rule with
  | some rule => .ok rule
  | none      => TensorRule.forDiffusion space.dim space.order

/-- An operator is assembled. -/
def isAssembled (integrator : Integrator α) : Bool :=
  integrator.backend.isSome

/-- The name of the operator's form. -/
def backendName (integrator : Integrator α) : Option String :=
  integrator.backend.map Backend.name

/-- The operator data, of layout `(NQ, DIM (DIM + 1) / 2, NE)`, if the form has any. -/
def operatorData (integrator : Integrator α) : Option (Array α) :=
  integrator.backend.bind Backend.operatorData

/-- Records that a rule of the caller's has fewer points than the default one.  Curves have no
operator, and no record. -/
def recordUnderIntegration (integrator : Integrator α) (space : Space α) (rule : TensorRule α) :
    Run (Integrator α) Unit := do
  if integrator.rule.isSome ∧ 1 < space.dim then
    let default ← ofExcept (TensorRule.diffusionPoints1d space.dim space.order)
    if rule.numPoints1d < default then
      Run.record (.underIntegrated rule.numPoints1d space.order default)

/-- Asks a provider whether it accepts a problem, and keeps the question with its answer.  Nothing
else makes a provider answer. -/
def ask (provider : Provider α) (context : Context α) : Run (Integrator α) Bool := do
  let question := ⟨context, provider.accepts context⟩
  let integrator ← Run.value
  Run.put { integrator with questions := integrator.questions.push question }
  return question.accepted

section

variable [Zero α] [One α] [Add α] [Sub α] [Mul α] [Neg α] [Div α] [BEq α] [OfDouble α]
  [SquareRoot α] [Stored α]

/-- Assembles a backend: the provider's if it accepts the problem, else a sum-factorized one. -/
def assembleBackend (context : Context α) : Run (Integrator α) (Backend α) := do
  match (← Run.value).provider with
  | none => .factorized <$> Run.aside (Factorized.assemble context)
  | some provider =>
    if ← ask provider context then Run.aside (provider.create context)
    else .factorized <$> Run.aside (Factorized.assemble context)

/-- Assembles the operator on a space, in place of any earlier one. -/
def assemble (space : Space α) : Run (Integrator α) Unit := do
  let integrator := { ← Run.value with backend := none }
  Run.put integrator
  let rule ← ofExcept (integrator.integrationRule space)
  recordUnderIntegration integrator space rule
  let { coefficient, execution, .. } := integrator
  let backend ← assembleBackend { space, rule, coefficient, execution }
  Run.record (.assembled backend.name space.numElements)
  Run.put { ← Run.value with backend := some backend }

end

variable [Zero α] [Add α] [Mul α] [Stored α]

/-- The assembled operator. -/
def assembled (integrator : Integrator α) : Except Fault (Backend α) :=
  match integrator.backend with
  | some backend => .ok backend
  | none         => refuse .notAssembled

/-- Adds the action of the operator on `x` to the output. -/
def addMult (integrator : Integrator α) (x : Array α) : Run (Array α) Unit := do
  (← ofExcept integrator.assembled).addMult x

/-- Adds the diagonal of the operator to the output. -/
def addDiagonal (integrator : Integrator α) : Run (Array α) Unit := do
  (← ofExcept integrator.assembled).addDiagonal

end Integrator

end TensorDiffusion
