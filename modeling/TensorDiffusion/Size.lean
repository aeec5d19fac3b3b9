import TensorDiffusion.Fault

/-!
# Sizes

Sizes, extents and indices are natural numbers below `2 ^ 64`.  Arithmetic on them is checked: a
result outside that range is a violation, never a wrapped number, so a size that an operation
returns is the exact one (`fit_eq_ok`).
-/

namespace TensorDiffusion.Size

/-- Sizes are below `2 ^ 64`. -/
def bound : Nat := UInt64.size

/-- A buffer has fewer than `2 ^ 63` bytes, and fewer entries than that. -/
def bufferBound : Nat := bound / 2

/-- The number `n`, if it is a size. -/
def fit (n : Nat) (cause : Violation) : Except Fault Nat :=
  if n < bound then .ok n else violate cause

/-- The sum of two sizes. -/
def add (a b : Nat) : Except Fault Nat :=
  fit (a + b) .addOverflow

/-- The difference of two sizes. -/
def sub (a b : Nat) : Except Fault Nat :=
  if b ≤ a then .ok (a - b) else violate .subOverflow

/-- The product of two sizes. -/
def mul (a b : Nat) : Except Fault Nat :=
  fit (a * b) .mulOverflow

/-- A power of a size. -/
def pow (a k : Nat) : Except Fault Nat :=
  fit (Nat.pow a k) .powOverflow

/-- The remainder of a size by another. -/
def rem (a b : Nat) : Except Fault Nat :=
  if b = 0 then violate .remainderByZero else .ok (a % b)

/-- The product of a list of sizes, multiplied from left to right; every partial product is a
size. -/
def product (sizes : List Nat) : Except Fault Nat :=
  sizes.foldlM mul 1

/-- Makes sure of room for `count` entries of `width` bytes. -/
def reserve (width count : Nat) : Except Fault Unit :=
  require (width * count < bufferBound) .capacityOverflow

theorem fit_eq_ok {n m : Nat} {cause : Violation} : fit n cause = .ok m ↔ n < bound ∧ n = m := by
  unfold fit violate
  by_cases h : n < bound
  · rw [if_pos h]
    exact ⟨fun heq => ⟨h, Except.ok.inj heq⟩, fun ⟨_, heq⟩ => heq ▸ rfl⟩
  · rw [if_neg h]
    exact ⟨fun heq => (nomatch heq), fun ⟨hlt, _⟩ => absurd hlt h⟩

theorem sub_eq_ok {a b m : Nat} : sub a b = .ok m ↔ b ≤ a ∧ a - b = m := by
  unfold sub violate
  by_cases h : b ≤ a
  · rw [if_pos h]
    exact ⟨fun heq => ⟨h, Except.ok.inj heq⟩, fun ⟨_, heq⟩ => heq ▸ rfl⟩
  · rw [if_neg h]
    exact ⟨fun heq => (nomatch heq), fun ⟨hle, _⟩ => absurd hle h⟩

theorem rem_eq_ok {a b m : Nat} : rem a b = .ok m ↔ b ≠ 0 ∧ a % b = m := by
  unfold rem violate; split <;> simp_all

end TensorDiffusion.Size
