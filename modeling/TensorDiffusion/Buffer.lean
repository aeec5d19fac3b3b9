import TensorDiffusion.Scalar
import TensorDiffusion.Size

/-!
# Buffers

The loops that every kernel is made of: a sum whose terms are added from left to right, and the
replacement of a range of consecutive entries.  Reads and writes are checked; a position outside its
buffer is a violation, not a default value.
-/

namespace TensorDiffusion

variable {α β σ : Type}

/-- Runs a step for `first, first + 1, …`, `count` times in all.  It ends at the first fault,
whatever the count is. -/
@[specialize]
def sweepFrom (step : σ → Nat → Except Fault σ) : Nat → Nat → σ → Except Fault σ
  | _,     0,         s => .ok s
  | first, count + 1, s =>
    match step s first with
    | .ok s        => sweepFrom step (first + 1) count s
    | .error fault => .error fault

/-- Runs a step for `0, 1, …, n - 1` in this order. -/
@[inline]
def sweep (n : Nat) (step : σ → Nat → Except Fault σ) (start : σ) : Except Fault σ :=
  sweepFrom step 0 n start

theorem sweepFrom_eq_foldlM (step : σ → Nat → Except Fault σ) (first count : Nat) (s : σ) :
    sweepFrom step first count s = (List.range' first count).foldlM step s := by
  induction count generalizing first s with
  | zero => rfl
  | succ count ih =>
    rw [sweepFrom, List.range'_succ, List.foldlM_cons]
    cases h : step s first with
    | ok s         => exact ih (first + 1) s
    | error fault  => rfl

/-- A loop is a left fold over its indices. -/
theorem sweep_eq_foldlM (n : Nat) (step : σ → Nat → Except Fault σ) (start : σ) :
    sweep n step start = (List.range n).foldlM step start := by
  rw [sweep, sweepFrom_eq_foldlM, List.range_eq_range']

/-- Adds the terms `0, 1, …, n - 1` to `start`, from left to right. -/
@[inline]
def accumulate [Add α] (start : α) (n : Nat) (term : Nat → Except Fault α) : Except Fault α :=
  sweep n (fun sum k => do return sum + (← term k)) start

/-- The sum of the terms `0, 1, …, n - 1`, from left to right and starting from zero. -/
@[inline]
def total [Zero α] [Add α] (n : Nat) (term : Nat → Except Fault α) : Except Fault α :=
  accumulate 0 n term

/-- The entry at a position. -/
def slot (buf : Array β) (i : Nat) : Except Fault β :=
  if h : i < buf.size then .ok buf[i] else violate (.position buf.size i)

/-- Replaces the entry at a position. -/
def put (buf : Array β) (i : Nat) (v : β) : Except Fault (Array β) :=
  if h : i < buf.size then .ok (buf.set i v) else violate (.position buf.size i)

/-- Replaces entry `start + k` of a buffer by `f k` of it, for `k = 0, 1, …, n - 1`. -/
@[inline]
def modifyRange (start n : Nat) (f : Nat → β → Except Fault β) (buf : Array β) :
    Except Fault (Array β) :=
  sweep n (fun buf k =>
    if h : start + k < buf.size then do
      let v ← f k buf[start + k]
      return buf.set (start + k) v
    else violate (.position buf.size (start + k))) buf

/-- Replaces the first `n` entries of a buffer, whatever they hold. -/
@[inline]
def overwrite (n : Nat) (f : Nat → Except Fault β) (buf : Array β) : Except Fault (Array β) :=
  modifyRange 0 n (fun k _ => f k) buf

/-- The buffer of the entries `0, 1, …, n - 1`. -/
@[inline]
def tabulate (n : Nat) (f : Nat → Except Fault β) : Except Fault (Array β) :=
  sweep n (fun buf k => do return buf.push (← f k)) #[]

/-- A buffer of `n` copies of a scalar. -/
def filled [Stored α] (n : Nat) (v : α) : Except Fault (Array α) := do
  Size.reserve (Stored.bytes α) n
  return Array.replicate n v

/-- The entries from `start` up to `stop`.  Of two ends outside the buffer the first is
reported. -/
def slice (buf : Array β) (start stop : Nat) : Except Fault (Array β) := do
  require (start ≤ buf.size) (.rangeStart start buf.size)
  require (stop ≤ buf.size) (.rangeEnd stop buf.size)
  return buf.extract start stop

/-- The first `n` entries of a buffer and those that follow, each to be worked on by itself.  Put
together again they make the buffer. -/
def cut (buf : Array β) (n : Nat) : Except Fault (Array β × Array β) := do
  require (n ≤ buf.size) .cutBeyondEnd
  return (buf.extract 0 n, buf.extract n buf.size)

/-- Refuses a buffer of the wrong length. -/
def checkBuffer (name : String) (len expected : Nat) : Except Fault Unit :=
  require (len = expected) (.bufferLength name len expected)

end TensorDiffusion
