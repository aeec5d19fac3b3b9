import Mathlib.Analysis.Real.Sqrt
import TensorDiffusion.Decimal.Layout
import TensorDiffusion.Scalar

/-!
# Exact scalars

The laws of the square root that exact statements use, and the reals as scalars that have them.  A
double-precision number converts to the real number that its bits stand for.
-/

namespace TensorDiffusion

/-- The square root of a scalar that is not negative is a root that is not negative. -/
class ExactRoot (K : Type) [Semiring K] [LE K] [SquareRoot K] : Prop where
  sqrt_nonneg : ∀ {a : K}, 0 ≤ a → 0 ≤ SquareRoot.sqrt a
  sqrt_sq : ∀ {a : K}, 0 ≤ a → SquareRoot.sqrt a ^ 2 = a

noncomputable instance : SquareRoot ℝ := ⟨Real.sqrt⟩

instance : ExactRoot ℝ where
  sqrt_nonneg _ := Real.sqrt_nonneg _
  sqrt_sq := Real.sq_sqrt

/-- Room for a real number is counted as for a double. -/
instance : Stored ℝ := ⟨Stored.bytes Float, Stored.bytes_pos, Stored.bytes_le⟩

/-- The real number that a binary number is; what is not finite counts as zero. -/
noncomputable def Decimal.Number.value : Decimal.Number → ℝ
  | .finite negative ⟨mantissa, exponent, _⟩ =>
    (if negative then -1 else 1) * mantissa * 2 ^ exponent
  | _ => 0

noncomputable instance : OfDouble ℝ := ⟨fun x => (Decimal.Binary.number x).value⟩

theorem ofDouble_one : OfDouble.ofDouble (One.one : Float) = (1 : ℝ) := by
  have hbits : Decimal.Binary.number (One.one : Float) = .finite false ⟨2 ^ 52, -52, true⟩ := rfl
  norm_num [OfDouble.ofDouble, hbits, Decimal.Number.value]

theorem ofDouble_neg_one : OfDouble.ofDouble (-One.one : Float) = (-1 : ℝ) := by
  have hbits : Decimal.Binary.number (-One.one : Float) = .finite true ⟨2 ^ 52, -52, true⟩ := rfl
  norm_num [OfDouble.ofDouble, hbits, Decimal.Number.value]

end TensorDiffusion
