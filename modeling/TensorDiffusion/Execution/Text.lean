import TensorDiffusion.Execution
import TensorDiffusion.Json.Reader
import TensorDiffusion.Json.Value

/-!
# Settings as text

Settings are written as an object with all fields, and read from an object with any of them: what
is left out has its default, both among the settings and among the limits.
-/

namespace TensorDiffusion

/-- The name of a policy. -/
def Policy.name : Policy → String
  | .serial   => "serial"
  | .parallel => "parallel"

/-- The policies by name. -/
def Policy.names : List (String × Policy) :=
  [Policy.serial, Policy.parallel].map fun policy => (policy.name, policy)

/-- Limits as data. -/
def Limits.toJson (limits : Limits) : Json :=
  .object [("max_d1d", .nat limits.maxD1d), ("max_q1d", .nat limits.maxQ1d)]

/-- Settings as data. -/
def Execution.toJson (config : Execution) : Json :=
  .object [
    ("policy", .string config.policy.name),
    ("limits", config.limits.toJson),
    ("min_elements_per_task", .nat config.minElementsPerTask)]

/-- Settings as a text. -/
def Execution.toText (config : Execution) : String :=
  config.toJson.compact

/-- The fields of limits. -/
def Limits.fields : List (Reader.Field Limits) := [
  { name := "max_d1d", required := false,
    read := fun limits => return { limits with maxD1d := ← Reader.size } },
  { name := "max_q1d", required := false,
    read := fun limits => return { limits with maxQ1d := ← Reader.size } }]

/-- The fields of settings. -/
def Execution.fields : List (Reader.Field Execution) := [
  { name := "policy", required := false,
    read := fun config => return { config with policy := ← Reader.variant Policy.names } },
  { name := "limits", required := false,
    read := fun config => return { config with limits := ← Reader.record Limits.fields {} } },
  { name := "min_elements_per_task", required := false,
    read := fun config => return { config with minElementsPerTask := ← Reader.size } }]

/-- Reads settings from a text. -/
def Execution.ofText (text : String) : Except ReadError Execution :=
  Reader.readText (Reader.record Execution.fields {}) text

end TensorDiffusion
