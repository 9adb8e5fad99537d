import Desenredo.Library.Except
import Mathlib.Algebra.Ring.Nat

/-!
# Native arithmetic

The unwinder supports 64-bit targets only, so `usize` and `u64` have the same values and the
conversions between them never fail. Both are natural numbers here; the operations below are
the ones whose result depends on the width.
-/

namespace Desenredo

namespace Usize

/-- The number of `usize` values. -/
abbrev size : ℕ := 2 ^ 64

/-- The largest length of a slice. -/
abbrev maxSlice : ℕ := 2 ^ 63 - 1

/-- `usize::checked_add`. -/
def checkedAdd (a b : ℕ) : Option ℕ := if a + b < size then some (a + b) else none

/-- `usize::checked_sub`. -/
def checkedSub (a b : ℕ) : Option ℕ := if b ≤ a then some (a - b) else none

/-- `usize::checked_mul`. -/
def checkedMul (a b : ℕ) : Option ℕ := if a * b < size then some (a * b) else none

/-- `usize::saturating_add`. -/
def saturatingAdd (a b : ℕ) : ℕ := min (a + b) (size - 1)

/-- `usize::wrapping_add`. -/
def wrappingAdd (a b : ℕ) : ℕ := (a + b) % size

/-- `usize::wrapping_sub`, for a subtrahend below `size`. -/
def wrappingSub (a b : ℕ) : ℕ := (a + (size - b)) % size

/-- `usize::wrapping_add_signed`. -/
def wrappingAddSigned (a : ℕ) (b : ℤ) : ℕ := (((a : ℤ) + b) % size).toNat

/-- `usize::try_from` on a wider signed integer. -/
def tryFromInt (v : ℤ) : Option ℕ := if 0 ≤ v ∧ v < size then some v.toNat else none

/-- `isize::cast_unsigned`. -/
def castUnsigned (v : ℤ) : ℕ := (v % size).toNat

theorem checkedAdd_eq_some {a b c : ℕ} :
    checkedAdd a b = some c ↔ a + b < size ∧ c = a + b := by
  rw [checkedAdd]
  split <;> grind

theorem checkedSub_eq_some {a b c : ℕ} : checkedSub a b = some c ↔ b ≤ a ∧ c = a - b := by
  rw [checkedSub]
  split <;> grind

theorem checkedMul_eq_some {a b c : ℕ} :
    checkedMul a b = some c ↔ a * b < size ∧ c = a * b := by
  rw [checkedMul]
  split <;> grind

theorem tryFromInt_eq_some {v : ℤ} {a : ℕ} :
    tryFromInt v = some a ↔ (a : ℤ) = v ∧ a < size := by
  rw [tryFromInt]
  split <;> grind

end Usize

/-- The largest `isize`, which is also the largest `i64`. -/
abbrev Isize.max : ℕ := 2 ^ 63 - 1

/-- `u32::checked_add`. -/
def U32.checkedAdd (a b : ℕ) : Option ℕ := if a + b < 2 ^ 32 then some (a + b) else none

end Desenredo
