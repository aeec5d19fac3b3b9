/-!
# Scalars

The operations on scalars that the library uses beyond the arithmetic classes of core.  A
definition asks only for the operations that it performs and for none of their laws, so it can be
read at 64-bit and 32-bit floats, where every operation rounds, and at an exact field.
-/

namespace TensorDiffusion

/-- Scalars with a square root. -/
class SquareRoot (α : Type) where
  sqrt : α → α

/-- Scalars with the functions that place points on a circle. -/
class Circular (α : Type) where
  cos : α → α
  sin : α → α

/-- Scalars that a double-precision number converts to. -/
class OfDouble (α : Type) where
  ofDouble : Float → α

/-- Scalars that occupy a fixed number of bytes in a buffer. -/
class Stored (α : Type) where
  bytes : Nat
  bytes_pos : 0 < bytes
  bytes_le : bytes ≤ 64

/-- One half. -/
def half {α : Type} [One α] [Add α] [Div α] : α :=
  1 / (1 + 1)

instance natCastFloat : NatCast Float := ⟨Float.ofNat⟩

instance : SquareRoot Float := ⟨Float.sqrt⟩

instance : Circular Float := ⟨Float.cos, Float.sin⟩

instance : OfDouble Float := ⟨id⟩

instance : Stored Float := ⟨8, by decide, by decide⟩

instance natCastFloat32 : NatCast Float32 := ⟨Float32.ofNat⟩

instance : SquareRoot Float32 := ⟨Float32.sqrt⟩

instance : Circular Float32 := ⟨Float32.cos, Float32.sin⟩

instance : OfDouble Float32 := ⟨Float.toFloat32⟩

instance : Stored Float32 := ⟨4, by decide, by decide⟩

end TensorDiffusion
