import TensorDiffusion.Fault

/-!
# Execution

How the loop over elements is carried out: the sizes that the kernels accept, and the schedule by
which elements reach workers.  A schedule lists, worker by worker, the elements each visits and
their order; results never depend on it.
-/

namespace TensorDiffusion

/-- The sizes per axis that the kernels accept. -/
structure Limits where
  maxD1d : Nat := 14
  maxQ1d : Nat := 14
  deriving Repr, DecidableEq

namespace Limits

/-- Both sizes are within the limits. -/
def admits (limits : Limits) (d1d q1d : Nat) : Bool :=
  d1d ≤ limits.maxD1d && q1d ≤ limits.maxQ1d

/-- Reports the first size beyond its limit. -/
def check (limits : Limits) (d1d q1d : Nat) : Except Fault Unit := do
  require (d1d ≤ limits.maxD1d) (.nodeLimit d1d limits.maxD1d)
  require (q1d ≤ limits.maxQ1d) (.pointLimit q1d limits.maxQ1d)

end Limits

/-- One worker for all elements, or several. -/
inductive Policy where
  | serial
  | parallel
  deriving Repr, DecidableEq

/-- The settings of an element loop. -/
structure Execution where
  policy : Policy := .parallel
  limits : Limits := {}
  /-- The fewest elements worth a worker of their own. -/
  minElementsPerTask : Nat := 16
  deriving Repr, DecidableEq

/-- The elements that each worker visits, in the order of the visits. -/
abbrev Schedule := List (List Nat)

/-- Consecutive blocks of `size` elements, the last one taking the rest. -/
def Schedule.blocks (size ne : Nat) : Schedule :=
  let tasks := max 1 (ne / size)
  (List.range tasks).map fun t =>
    List.range' (t * size) (if t + 1 = tasks then ne - t * size else size)

namespace Execution

/-- Elements in order on one worker. -/
def serial : Execution := { policy := .serial }

/-- Elements in blocks on several workers. -/
def parallel : Execution := {}

/-- The same settings with other limits. -/
def withLimits (config : Execution) (limits : Limits) : Execution :=
  { config with limits }

/-- The same settings with another least block. -/
def withMinElementsPerTask (config : Execution) (minElementsPerTask : Nat) : Execution :=
  { config with minElementsPerTask }

/-- The schedule for `ne` elements. -/
def schedule (config : Execution) (ne : Nat) : Schedule :=
  match config.policy with
  | .serial   => [List.range ne]
  | .parallel => Schedule.blocks (max 1 config.minElementsPerTask) ne

end Execution

end TensorDiffusion
