import TensorDiffusion.Buffer

/-!
# Small matrices

Matrices with checked entries, stored column by column, and the operations on them that dense
element matrices need.  Products add up from left to right.  Determinants and inverses are those
of 2 × 2 and 3 × 3 matrices, by cofactors.
-/

namespace TensorDiffusion

/-- A matrix, stored column by column. -/
structure Matrix (α : Type) where
  rows : Nat
  cols : Nat
  entries : Array α
  deriving BEq

namespace Matrix

variable {α : Type}

/-- The entry in row `i` and column `j`. -/
def get (a : Matrix α) (i j : Nat) : Except Fault α :=
  if i < a.rows ∧ j < a.cols then slot a.entries (i + a.rows * j) else violate .matrixIndex

/-- Views the first entries of a buffer as a matrix, column by column. -/
def ofSlice (rows cols : Nat) (entries : Array α) : Except Fault (Matrix α) := do
  require (rows * cols ≤ entries.size) .shortMatrix
  return ⟨rows, cols, entries⟩

/-- The matrix of the given entries, which are asked for column by column. -/
def build [Stored α] (rows cols : Nat) (f : Nat → Nat → Except Fault α) :
    Except Fault (Matrix α) := do
  let count ← Size.mul rows cols
  Size.reserve (Stored.bytes α) count
  return ⟨rows, cols, ← tabulate count fun k => f (k % rows) (k / rows)⟩

/-- The transpose. -/
def transpose [Stored α] (a : Matrix α) : Except Fault (Matrix α) :=
  build a.cols a.rows fun i j => a.get j i

/-- The matrix with every entry multiplied by a scalar on the right. -/
def scale [Mul α] (a : Matrix α) (s : α) : Matrix α :=
  { a with entries := a.entries.map (· * s) }

/-- Entry `(i, j)` of a product: the first term, to which the others are added one by one.  A
product over no terms is zero. -/
def productEntry [Zero α] [Add α] [Mul α] (a b : Matrix α) (i j : Nat) : Except Fault α := do
  if a.cols = 0 then
    return 0
  let first := (← a.get i 0) * (← b.get 0 j)
  sweep (a.cols - 1) (fun sum k => do
    return (← a.get i (k + 1)) * (← b.get (k + 1) j) + sum) first

/-- The product of two matrices. -/
def mul [Zero α] [Add α] [Mul α] [Stored α] (a b : Matrix α) : Except Fault (Matrix α) :=
  build a.rows b.cols (productEntry a b)

/-- The determinant of a 2 × 2 or 3 × 3 matrix. -/
def determinant [Add α] [Sub α] [Mul α] (m : Matrix α) : Except Fault α := do
  let m₁₁ ← m.get 0 0
  let m₁₂ ← m.get 0 1
  let m₂₁ ← m.get 1 0
  let m₂₂ ← m.get 1 1
  if m.rows = 2 then
    return m₁₁ * m₂₂ - m₂₁ * m₁₂
  let m₁₃ ← m.get 0 2
  let m₂₃ ← m.get 1 2
  let m₃₁ ← m.get 2 0
  let m₃₂ ← m.get 2 1
  let m₃₃ ← m.get 2 2
  return m₁₁ * (m₂₂ * m₃₃ - m₃₂ * m₂₃) - m₁₂ * (m₂₁ * m₃₃ - m₃₁ * m₂₃)
    + m₁₃ * (m₂₁ * m₃₂ - m₃₁ * m₂₂)

/-- The inverse of a 2 × 2 or 3 × 3 matrix, none if its determinant is zero. -/
def inverse? [Zero α] [Add α] [Sub α] [Mul α] [Neg α] [Div α] [BEq α] (m : Matrix α) :
    Except Fault (Option (Matrix α)) := do
  let det ← m.determinant
  if det == 0 then
    return none
  let m₁₁ ← m.get 0 0
  let m₁₂ ← m.get 0 1
  let m₂₁ ← m.get 1 0
  let m₂₂ ← m.get 1 1
  if m.rows = 2 then
    return some ⟨2, 2, #[m₂₂ / det, -m₂₁ / det, -m₁₂ / det, m₁₁ / det]⟩
  let m₁₃ ← m.get 0 2
  let m₂₃ ← m.get 1 2
  let m₃₁ ← m.get 2 0
  let m₃₂ ← m.get 2 1
  let m₃₃ ← m.get 2 2
  let minor₁₁ := m₂₂ * m₃₃ - m₃₂ * m₂₃
  let minor₁₂ := m₂₁ * m₃₃ - m₃₁ * m₂₃
  let minor₁₃ := m₂₁ * m₃₂ - m₃₁ * m₂₂
  return some ⟨3, 3, #[
    minor₁₁ / det, -minor₁₂ / det, minor₁₃ / det,
    (m₁₃ * m₃₂ - m₃₃ * m₁₂) / det, (m₁₁ * m₃₃ - m₃₁ * m₁₃) / det, (m₁₂ * m₃₁ - m₃₂ * m₁₁) / det,
    (m₁₂ * m₂₃ - m₂₂ * m₁₃) / det, (m₁₃ * m₂₁ - m₂₃ * m₁₁) / det, (m₁₁ * m₂₂ - m₂₁ * m₁₂) / det]⟩

end Matrix

end TensorDiffusion
