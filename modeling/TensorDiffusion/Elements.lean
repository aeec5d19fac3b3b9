import TensorDiffusion.Buffer
import TensorDiffusion.Execution

/-!
# The element loop

Every kernel is a map over elements: element `e` reads shared input and writes only the `e`-th
chunk of the output.  A worker creates one workspace and uses it for all its elements without
clearing it in between, so a kernel must not read what an earlier element left there.

The output is the state of the loop.  It survives a fault, with the chunks of the elements already
visited replaced and the others as they were.
-/

namespace TensorDiffusion

variable {β σ : Type}

/-- A computation on an output buffer, which keeps its contents when the computation fails. -/
abbrev Update (β : Type) := EStateM Fault (Array β)

/-- What an element does to its chunk, given the worker's workspace and the element's index. -/
abbrev ElementMap (σ β : Type) := σ → Nat → Array β → Except Fault (σ × Array β)

/-- Writes a chunk into a buffer from position `start` on. -/
def writeChunk (buf : Array β) (start : Nat) (chunk : Array β) : Array β :=
  (chunk.foldl (fun (buf, i) v => (buf.setIfInBounds i v, i + 1)) (buf, start)).1

/-- Visits one element. -/
def visit (len : Nat) (body : ElementMap σ β) (workspace : σ) (e : Nat) : Update β σ := do
  let chunk := (← get).extract (e * len) ((e + 1) * len)
  let (workspace, chunk) ← ofExcept (body workspace e chunk)
  modify fun buf => writeChunk buf (e * len) chunk
  return workspace

/-- What a worker keeps between its elements. -/
structure Workspace (σ : Type) where
  /-- Makes sure of room for it. -/
  reserve : Except Fault Unit
  /-- Its contents before the first element. -/
  fresh : Unit → σ

/-- A scratch buffer of `len` entries, all zero before the first element. -/
def Workspace.scratch {α : Type} [Zero α] [Stored α] (len : Nat) : Workspace (Array α) where
  reserve := Size.reserve (Stored.bytes α) len
  fresh _ := Array.replicate len 0

/-- A workspace that takes no room. -/
def Workspace.ofValue (s : σ) : Workspace σ where
  reserve := .ok ()
  fresh _ := s

/-- Visits the elements of one worker, which starts from a workspace of its own.  Room for it is
needed even where there are no elements; then it is not filled. -/
def runWorker (len : Nat) (workspace : Workspace σ) (body : ElementMap σ β) :
    List Nat → Update β Unit
  | []       => ofExcept workspace.reserve
  | elements => do
    ofExcept workspace.reserve
    let _ ← elements.foldlM (visit len body) (workspace.fresh ())

/-- Visits the elements of all workers. -/
def runSchedule (len : Nat) (workspace : Workspace σ) (body : ElementMap σ β)
    (schedule : Schedule) : Update β Unit :=
  schedule.forM (runWorker len workspace body)

/-- Visits every chunk of length `len` of the output, by the schedule of `config`. -/
def forElements (config : Execution) (len : Nat) (workspace : Workspace σ)
    (body : ElementMap σ β) : Update β Unit := do
  let size := (← get).size
  ofExcept (require (0 < len) .emptyElements)
  ofExcept (require (size % len = 0) (.partialChunk size len))
  runSchedule len workspace body (config.schedule (size / len))

/-- The output of an element loop on a buffer made for it. -/
def Update.fill (update : Update β Unit) (buf : Array β) : Except Fault (Array β) :=
  match update.run buf with
  | .ok () buf     => .ok buf
  | .error fault _ => .error fault

end TensorDiffusion
