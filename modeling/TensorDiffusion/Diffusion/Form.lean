import TensorDiffusion.View

/-!
# Symmetric forms

The symmetric matrix that a diffusion operator has at each quadrature point, stored as its upper
triangle row by row: 11, 12, 22 on faces and 11, 12, 13, 22, 23, 33 on cells.  Setup computes it
from a weight and a Jacobian as `w J⁻¹ J⁻ᵀ det J`, without forming the inverse.
-/

namespace TensorDiffusion

variable {α : Type}

/-- A vector of the plane. -/
structure Vec2 (α : Type) where
  x : α
  y : α

/-- A vector of space. -/
structure Vec3 (α : Type) where
  x : α
  y : α
  z : α

/-- A symmetric 2 × 2 matrix. -/
structure Form2 (α : Type) where
  xx : α
  xy : α
  yy : α

/-- A symmetric 3 × 3 matrix. -/
structure Form3 (α : Type) where
  xx : α
  xy : α
  xz : α
  yy : α
  yz : α
  zz : α

/-- The position of entry `(i, j)` in a stored symmetric 3 × 3 matrix. -/
def symmetricIndex (i j : Nat) : Nat :=
  let lo := min i j
  let hi := max i j
  3 - (3 - lo) * (2 - lo) / 2 + hi

namespace Form2

/-- The zero form. -/
def zero [Zero α] : Form2 α :=
  ⟨0, 0, 0⟩

/-- The entries in stored order. -/
def toArray (m : Form2 α) : Array α :=
  #[m.xx, m.xy, m.yy]

/-- The form at point `q` of element `e` in operator data of layout `(NQ, 3, NE)`. -/
def read (op : View α) (q e : Nat) : Except Fault (Form2 α) := do
  return { xx := ← op.get [q, 0, e], xy := ← op.get [q, 1, e], yy := ← op.get [q, 2, e] }

/-- The product with a vector. -/
def apply [Add α] [Mul α] (m : Form2 α) (v : Vec2 α) : Vec2 α where
  x := m.xx * v.x + m.xy * v.y
  y := m.xy * v.x + m.yy * v.y

/-- The form of a face in the plane of weight `w` and the given Jacobian: `w / det J` times the
adjugate of `Jᵀ J`. -/
def planar [Add α] [Sub α] [Mul α] [Neg α] [Div α] (w j₁₁ j₂₁ j₁₂ j₂₂ : α) : Form2 α :=
  let s := w / (j₁₁ * j₂₂ - j₂₁ * j₁₂)
  { xx := s * (j₁₂ * j₁₂ + j₂₂ * j₂₂)
    xy := -s * (j₁₂ * j₁₁ + j₂₂ * j₂₁)
    yy := s * (j₁₁ * j₁₁ + j₂₁ * j₂₁) }

/-- The form of a face in space of weight `w` and the given Jacobian: `w / √det (Jᵀ J)` times the
adjugate of `Jᵀ J`. -/
def surface [One α] [Add α] [Sub α] [Mul α] [Neg α] [Div α] [SquareRoot α]
    (w j₁₁ j₂₁ j₃₁ j₁₂ j₂₂ j₃₂ : α) : Form2 α :=
  let e := j₁₁ * j₁₁ + j₂₁ * j₂₁ + j₃₁ * j₃₁
  let g := j₁₂ * j₁₂ + j₂₂ * j₂₂ + j₃₂ * j₃₂
  let f := j₁₁ * j₁₂ + j₂₁ * j₂₂ + j₃₁ * j₃₂
  let s := w * (1 / SquareRoot.sqrt (e * g - f * f))
  { xx := s * g, xy := -s * f, yy := s * e }

end Form2

namespace Form3

/-- The entries in stored order. -/
def toArray (m : Form3 α) : Array α :=
  #[m.xx, m.xy, m.xz, m.yy, m.yz, m.zz]

/-- The form at point `q` of element `e` in operator data of layout `(NQ, 6, NE)`. -/
def read (op : View α) (q e : Nat) : Except Fault (Form3 α) := do
  return {
    xx := ← op.get [q, 0, e], xy := ← op.get [q, 1, e], xz := ← op.get [q, 2, e]
    yy := ← op.get [q, 3, e], yz := ← op.get [q, 4, e], zz := ← op.get [q, 5, e] }

/-- The product with a vector. -/
def apply [Add α] [Mul α] (m : Form3 α) (v : Vec3 α) : Vec3 α where
  x := m.xx * v.x + m.xy * v.y + m.xz * v.z
  y := m.xy * v.x + m.yy * v.y + m.yz * v.z
  z := m.xz * v.x + m.yz * v.y + m.zz * v.z

/-- The form of a cell of weight `w` and the given Jacobian: `w / det J` times `A Aᵀ` for the
adjugate `A` of `J`. -/
def solid [Add α] [Sub α] [Mul α] [Div α]
    (w j₁₁ j₂₁ j₃₁ j₁₂ j₂₂ j₃₂ j₁₃ j₂₃ j₃₃ : α) : Form3 α :=
  let det := j₁₁ * (j₂₂ * j₃₃ - j₃₂ * j₂₃) - j₂₁ * (j₁₂ * j₃₃ - j₃₂ * j₁₃)
    + j₃₁ * (j₁₂ * j₂₃ - j₂₂ * j₁₃)
  let s := w / det
  let a₁₁ := j₂₂ * j₃₃ - j₂₃ * j₃₂
  let a₁₂ := j₃₂ * j₁₃ - j₁₂ * j₃₃
  let a₁₃ := j₁₂ * j₂₃ - j₂₂ * j₁₃
  let a₂₁ := j₃₁ * j₂₃ - j₂₁ * j₃₃
  let a₂₂ := j₁₁ * j₃₃ - j₁₃ * j₃₁
  let a₂₃ := j₂₁ * j₁₃ - j₁₁ * j₂₃
  let a₃₁ := j₂₁ * j₃₂ - j₃₁ * j₂₂
  let a₃₂ := j₃₁ * j₁₂ - j₁₁ * j₃₂
  let a₃₃ := j₁₁ * j₂₂ - j₁₂ * j₂₁
  { xx := s * (a₁₁ * a₁₁ + a₁₂ * a₁₂ + a₁₃ * a₁₃)
    xy := s * (a₁₁ * a₂₁ + a₁₂ * a₂₂ + a₁₃ * a₂₃)
    xz := s * (a₁₁ * a₃₁ + a₁₂ * a₃₂ + a₁₃ * a₃₃)
    yy := s * (a₂₁ * a₂₁ + a₂₂ * a₂₂ + a₂₃ * a₂₃)
    yz := s * (a₂₁ * a₃₁ + a₂₂ * a₃₂ + a₂₃ * a₃₃)
    zz := s * (a₃₁ * a₃₁ + a₃₂ * a₃₂ + a₃₃ * a₃₃) }

end Form3

end TensorDiffusion
