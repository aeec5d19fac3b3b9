import TensorDiffusion.Operator.Dense
import TensorDiffusion.Operator.Factorized

/-!
# Backends

An assembled operator in one of the two forms of the library or in a form of its own, and providers,
which may replace the sum-factorized form for the problems that they accept.
-/

namespace TensorDiffusion

/-- What can be done with an assembled operator, whatever its form. -/
structure Operations (α : Type) where
  name : String
  operatorData : Option (Array α) := none
  /-- Adds the action on a vector to the output. -/
  addMult : Array α → Run (Array α) Unit
  /-- Adds the diagonal to the output. -/
  addDiagonal : Run (Array α) Unit

/-- An assembled diffusion operator. -/
inductive Backend (α : Type) where
  | factorized (operator : Factorized α)
  | dense (operator : Dense α)
  /-- An operator in a form that is not one of the library. -/
  | other (operations : Operations α)

namespace Backend

variable {α : Type}

/-- The name of the form. -/
def name : Backend α → String
  | .factorized _     => "native"
  | .dense _          => "dense element"
  | .other operations => operations.name

/-- The operator data, if the form has any. -/
def operatorData : Backend α → Option (Array α)
  | .factorized operator => some operator.op
  | .dense _             => none
  | .other operations    => operations.operatorData

variable [Zero α] [Add α] [Mul α] [Stored α]

/-- Adds the action on `x` to the output. -/
def addMult (backend : Backend α) (x : Array α) : Run (Array α) Unit :=
  match backend with
  | .factorized operator => operator.addMult x
  | .dense operator      => operator.addMult x
  | .other operations    => operations.addMult x

/-- Adds the diagonal to the output. -/
def addDiagonal : Backend α → Run (Array α) Unit
  | .factorized operator => operator.addDiagonal
  | .dense operator      => operator.addDiagonal
  | .other operations    => operations.addDiagonal

end Backend

/-- A source of backends: which problems it accepts, and how it assembles them. -/
structure Provider (α : Type) where
  accepts : Context α → Bool
  create : Context α → Run Unit (Backend α)

namespace Provider

variable {α : Type} [Zero α] [One α] [Add α] [Sub α] [Mul α] [Neg α] [Div α] [BEq α] [OfDouble α]
  [SquareRoot α] [Stored α]

/-- Dense element matrices for the problems that `accepts` says. -/
def denseIf (accepts : Context α → Bool) : Provider α where
  accepts := accepts
  create context := .dense <$> Dense.assemble context

/-- Dense element matrices for elements of at most `maxNodes` nodes. -/
def dense (maxNodes : Nat) : Provider α :=
  denseIf fun context => context.space.nodesPerElement ≤ maxNodes

/-- The most nodes of an element for which dense matrices are provided by default. -/
def defaultMaxNodes : Nat := 64

end Provider

end TensorDiffusion
