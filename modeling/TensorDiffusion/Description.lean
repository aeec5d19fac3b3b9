import TensorDiffusion.Integrator

/-!
# Descriptions

One-line descriptions of rules, settings and integrators, for people: the name of a type and its
fields in braces.
-/

namespace TensorDiffusion

/-- A name with named fields, such as `Point { x: 1, y: 2 }`. -/
def describeRecord (name : String) (fields : List (String × String)) : String :=
  name ++ " \x7b " ++ ", ".intercalate (fields.map fun (field, value) => field ++ ": " ++ value)
    ++ " \x7d"

/-- What may be absent. -/
def describeOption : Option String → String
  | some value => "Some(" ++ value ++ ")"
  | none       => "None"

/-- A truth value. -/
def describeBool (b : Bool) : String :=
  if b then "true" else "false"

/-- A list of numbers. -/
def describeNumbers {α : Type} [Decimal.Binary α] (xs : Array α) : String :=
  "[" ++ ", ".intercalate (xs.toList.map Decimal.description.write) ++ "]"

/-- A rule. -/
def TensorRule.describe {α : Type} [Decimal.Binary α] (rule : TensorRule α) : String :=
  describeRecord "TensorRule" [
    ("dim", Nat.repr rule.dim),
    ("points_1d", describeNumbers rule.points1d),
    ("weights_1d", describeNumbers rule.weights1d),
    ("weights", describeNumbers rule.weights)]

/-- Limits. -/
def Limits.describe (limits : Limits) : String :=
  describeRecord "KernelLimits" [
    ("max_d1d", Nat.repr limits.maxD1d),
    ("max_q1d", Nat.repr limits.maxQ1d)]

/-- A policy. -/
def Policy.describe : Policy → String
  | .serial   => "Serial"
  | .parallel => "Parallel"

/-- Settings. -/
def Execution.describe (config : Execution) : String :=
  describeRecord "ExecutionConfig" [
    ("policy", config.policy.describe),
    ("limits", config.limits.describe),
    ("min_elements_per_task", Nat.repr config.minElementsPerTask)]

/-- An integrator. -/
def Integrator.describe {α : Type} [Decimal.Binary α] (integrator : Integrator α) : String :=
  describeRecord "VectorDiffusionIntegrator" [
    ("coefficient", integrator.coefficient.describe),
    ("rule", describeOption (integrator.rule.map TensorRule.describe)),
    ("has_provider", describeBool integrator.provider.isSome),
    ("execution", integrator.execution.describe),
    ("backend", describeOption (integrator.backendName.map fun name => "\"" ++ name ++ "\""))]

end TensorDiffusion
