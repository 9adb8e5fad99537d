import Mathlib.Data.Int.Notation
import Mathlib.Data.Nat.Notation
import Mathlib.Data.List.Basic
import Mathlib.Tactic.Common
import Mathlib.Data.Int.ModEq
import Mathlib.Tactic.Ring

/-!
# Fixed-width integers in bytes

The number a byte string stores, least significant byte first, the byte string of a given
width that stores a number, and the signed reading of a number of a given width.
-/

namespace Fixed

/-- The number `bytes` stores, least significant byte first. -/
def number : List UInt8 → ℕ
  | [] => 0
  | b :: bs => b.toNat + 256 * number bs

/-- The `width` bytes that store `n`, least significant byte first. -/
def bytes : ℕ → ℕ → List UInt8
  | 0, _ => []
  | width + 1, n => UInt8.ofNat n :: bytes width (n / 256)

/-- The two's complement reading of a number of `bits` bits. -/
def signed (bits n : ℕ) : ℤ := if n < 2 ^ (bits - 1) then n else n - 2 ^ bits

/-- The number of a signed width that agrees with `v` modulo the width. -/
def wrap (bits : ℕ) (v : ℤ) : ℤ := signed bits (v % 2 ^ bits).toNat

@[simp] theorem length_bytes (width n : ℕ) : (bytes width n).length = width := by
  induction width generalizing n with
  | zero => rfl
  | succ width ih => rw [bytes, List.length_cons, ih]

theorem number_lt (bytes : List UInt8) : number bytes < 256 ^ bytes.length := by
  induction bytes with
  | nil => simp [number]
  | cons b bs ih =>
    have hb : b.toNat < 256 := b.toNat_lt
    rw [number, List.length_cons, pow_succ]
    omega

theorem number_append (xs ys : List UInt8) :
    number (xs ++ ys) = number xs + 256 ^ xs.length * number ys := by
  induction xs with
  | nil => simp [number]
  | cons b xs ih =>
    rw [List.cons_append, number, ih, number, List.length_cons, pow_succ]
    ring

/-- Storing a number that fits and reading it back gives the number. -/
theorem number_bytes {width n : ℕ} (h : n < 256 ^ width) : number (bytes width n) = n := by
  induction width generalizing n with
  | zero => simp at h; simp [number, bytes, h]
  | succ width ih =>
    have hlow : (UInt8.ofNat n).toNat = n % 256 := UInt8.toNat_ofNat
    rw [bytes, number, ih (by rw [pow_succ] at h; omega), hlow]
    omega

/-- A number in the signed range is the signed reading of its residue. -/
theorem signed_emod {bits : ℕ} {v : ℤ} (hbits : 0 < bits) (hlow : -2 ^ (bits - 1) ≤ v)
    (hhigh : v < 2 ^ (bits - 1)) : signed bits (v % 2 ^ bits).toNat = v := by
  have hpow : (2 : ℤ) ^ bits = 2 * 2 ^ (bits - 1) := by
    rw [← pow_succ', Nat.sub_add_cancel hbits]
  have hcast : ((2 ^ (bits - 1) : ℕ) : ℤ) = 2 ^ (bits - 1) := by norm_cast
  rcases lt_or_ge v 0 with hneg | hnonneg
  · have hmod : v % 2 ^ bits = v + 2 ^ bits := by
      rw [← Int.add_emod_right, Int.emod_eq_of_lt] <;> omega
    rw [signed, hmod, if_neg (by omega)]
    omega
  · rw [Int.emod_eq_of_lt hnonneg (by omega), signed, if_pos (by omega)]
    omega

theorem wrap_of_range {bits : ℕ} {v : ℤ} (hbits : 0 < bits) (hlow : -2 ^ (bits - 1) ≤ v)
    (hhigh : v < 2 ^ (bits - 1)) : wrap bits v = v := signed_emod hbits hlow hhigh

theorem signed_range {bits n : ℕ} (hbits : 0 < bits) (hn : n < 2 ^ bits) :
    -2 ^ (bits - 1) ≤ signed bits n ∧ signed bits n < 2 ^ (bits - 1) := by
  have hpow : 2 ^ bits = 2 * 2 ^ (bits - 1) := by
    rw [← pow_succ', Nat.sub_add_cancel hbits]
  have hbits' : ((2 ^ bits : ℕ) : ℤ) = 2 ^ bits := by norm_cast
  have hcast : ((2 ^ (bits - 1) : ℕ) : ℤ) = 2 ^ (bits - 1) := by norm_cast
  rw [signed]
  split <;> omega

/-- A signed reading determines the number modulo its width. -/
theorem signed_modEq (bits n : ℕ) : signed bits n ≡ n [ZMOD 2 ^ bits] := by
  rw [signed]
  split
  · rfl
  · exact (Int.modEq_sub_modulus_iff).1 rfl

/-- Wrapping depends on the residue only. -/
theorem wrap_eq_signed {bits n : ℕ} {v : ℤ} (hn : n < 2 ^ bits) (h : v ≡ n [ZMOD 2 ^ bits]) :
    wrap bits v = signed bits n := by
  have hmod : v % 2 ^ bits = n := by
    rw [h]
    exact Int.emod_eq_of_lt (by omega) (by exact_mod_cast hn)
  rw [wrap, hmod, Int.toNat_natCast]

theorem wrap_range {bits : ℕ} (hbits : 0 < bits) (v : ℤ) :
    -2 ^ (bits - 1) ≤ wrap bits v ∧ wrap bits v < 2 ^ (bits - 1) := by
  have hpos : (0 : ℤ) < 2 ^ bits := Int.pow_pos (by decide)
  have hlt : v % 2 ^ bits < 2 ^ bits := Int.emod_lt_of_pos _ hpos
  have hcast : ((2 ^ bits : ℕ) : ℤ) = 2 ^ bits := by norm_cast
  exact signed_range hbits (by omega)

theorem signed_of_lt {bits n : ℕ} (h : n < 2 ^ (bits - 1)) : signed bits n = n := if_pos h

end Fixed
