import Desenredo.Library.Fixed
import Mathlib.Data.BitVec
import Mathlib.Data.Set.Function
import Mathlib.Data.Set.Lattice
import Mathlib.Order.CompletePartialOrder

/-!
# Byte-addressed memory

Memory is a byte at each address of a fixed width, and addresses wrap around. A block is what a
number of bytes from an address on cover; it is a set of addresses, so frames are `Set.EqOn`
and separation is `Disjoint`. Numbers are stored least significant byte first.
-/

/-- A byte at each address of `w` bits. -/
abbrev Mem (w : ℕ) := BitVec w → UInt8

namespace Mem

variable {w : ℕ}

/-- The addresses of `n` bytes from `a` on. -/
def block (a : BitVec w) (n : ℕ) : Set (BitVec w) := {x | (x - a).toNat < n}

/-- The `n` bytes from `a` on. -/
def load (m : Mem w) (a : BitVec w) (n : ℕ) : List UInt8 :=
  (List.range n).map fun i => m (a + BitVec.ofNat w i)

/-- Replaces the bytes from `a` on. -/
def store (m : Mem w) (a : BitVec w) (bytes : List UInt8) : Mem w :=
  fun x => bytes[(x - a).toNat]?.getD (m x)

/-- The number in the `n` bytes from `a` on. -/
def read (m : Mem w) (a : BitVec w) (n : ℕ) : ℕ := Fixed.number (m.load a n)

/-- Stores a number in the `n` bytes from `a` on. -/
def write (m : Mem w) (a : BitVec w) (n v : ℕ) : Mem w := m.store a (Fixed.bytes n v)

variable {m m' : Mem w} {a b : BitVec w} {i j k n v : ℕ} {bytes : List UInt8}

/-! ## Blocks -/

theorem toNat_add_sub (a : BitVec w) (hi : i < 2 ^ w) : (a + BitVec.ofNat w i - a).toNat = i := by
  rw [BitVec.add_comm, BitVec.add_sub_cancel, BitVec.toNat_ofNat, Nat.mod_eq_of_lt hi]

theorem add_mem_block (a : BitVec w) (hi : i < n) (hn : n ≤ 2 ^ w) :
    a + BitVec.ofNat w i ∈ block a n := by
  show (a + BitVec.ofNat w i - a).toNat < n
  rw [toNat_add_sub a (by omega)]
  exact hi

/-- How far an address lies behind the address `i` bytes on. -/
theorem toNat_sub_add (a x : BitVec w) (hi : i < 2 ^ w) : (x - (a + BitVec.ofNat w i)).toNat =
    if i ≤ (x - a).toNat then (x - a).toNat - i else (x - a).toNat + 2 ^ w - i := by
  have hx := (x - a).isLt
  rw [← BitVec.sub_sub, BitVec.toNat_sub, BitVec.toNat_ofNat, Nat.mod_eq_of_lt hi]
  split
  · rw [show 2 ^ w - i + (x - a).toNat = (x - a).toNat - i + 2 ^ w by omega, Nat.add_mod_right,
      Nat.mod_eq_of_lt (by omega)]
  · rw [Nat.mod_eq_of_lt (by omega)]
    omega

theorem block_add_subset (a : BitVec w) (h : i + k ≤ n) (hn : n ≤ 2 ^ w) :
    block (a + BitVec.ofNat w i) k ⊆ block a n := by
  intro x hx
  by_cases hk : k = 0
  · subst hk
    exact absurd hx (Nat.not_lt_zero _)
  · have hx' : (x - (a + BitVec.ofNat w i)).toNat < k := hx
    rw [toNat_sub_add a x (by omega)] at hx'
    show (x - a).toNat < n
    split at hx' <;> omega

/-- Blocks at offsets from one address are disjoint when the offsets do not overlap. -/
theorem disjoint_offsets (a : BitVec w) (h : i + n ≤ j) (hj : j + k ≤ 2 ^ w) :
    Disjoint (block (a + BitVec.ofNat w i) n) (block (a + BitVec.ofNat w j) k) := by
  refine Set.disjoint_left.2 fun x hx hx' => ?_
  have hlt := (x - a).isLt
  by_cases hk : k = 0
  · subst hk
    exact absurd hx' (Nat.not_lt_zero _)
  · change (x - (a + BitVec.ofNat w i)).toNat < n at hx
    change (x - (a + BitVec.ofNat w j)).toNat < k at hx'
    rw [toNat_sub_add a x (by omega)] at hx hx'
    split at hx <;> split at hx' <;> omega

/-! ## Bytes -/

@[simp] theorem length_load (m : Mem w) (a : BitVec w) (n : ℕ) : (m.load a n).length = n := by
  rw [load, List.length_map, List.length_range]

theorem load_congr (hn : n ≤ 2 ^ w) (h : Set.EqOn m m' (block a n)) :
    m.load a n = m'.load a n := by
  refine List.map_congr_left fun i hi => ?_
  exact h (add_mem_block a (List.mem_range.1 hi) hn)

theorem store_eqOn (m : Mem w) (a : BitVec w) (bytes : List UInt8) :
    Set.EqOn (m.store a bytes) m (block a bytes.length)ᶜ := by
  intro x hx
  have hx' : bytes.length ≤ (x - a).toNat := Nat.le_of_not_lt hx
  rw [store, List.getElem?_eq_none hx', Option.getD_none]

theorem load_store_self (m : Mem w) (a : BitVec w) (hlength : bytes.length ≤ 2 ^ w) :
    (m.store a bytes).load a bytes.length = bytes := by
  refine List.ext_getElem (length_load _ _ _) fun i hi hi' => ?_
  simp only [load, List.getElem_map, List.getElem_range, store]
  rw [toNat_add_sub a (by omega), List.getElem?_eq_getElem hi', Option.getD_some]

theorem load_append (m : Mem w) (a : BitVec w) (n k : ℕ) :
    m.load a (n + k) = m.load a n ++ m.load (a + BitVec.ofNat w n) k := by
  rw [load, List.range_add, List.map_append, List.map_map]
  congr 1
  refine List.map_congr_left fun i _ => ?_
  rw [Function.comp_apply, BitVec.ofNat_add, BitVec.add_assoc]

/-! ## Numbers -/

theorem read_lt (m : Mem w) (a : BitVec w) (n : ℕ) : m.read a n < 256 ^ n := by
  have h := Fixed.number_lt (m.load a n)
  rwa [length_load] at h

theorem read_congr (hn : n ≤ 2 ^ w) (h : Set.EqOn m m' (block a n)) : m.read a n = m'.read a n := by
  rw [read, read, load_congr hn h]

theorem write_eqOn (m : Mem w) (a : BitVec w) (n v : ℕ) :
    Set.EqOn (m.write a n v) m (block a n)ᶜ := by
  have h := store_eqOn m a (Fixed.bytes n v)
  rwa [Fixed.length_bytes] at h

theorem read_write_self (m : Mem w) (a : BitVec w) (hn : n ≤ 2 ^ w) (hv : v < 256 ^ n) :
    (m.write a n v).read a n = v := by
  have hlength : (Fixed.bytes n v).length ≤ 2 ^ w := by rwa [Fixed.length_bytes]
  have h := load_store_self m a hlength
  rw [Fixed.length_bytes] at h
  rw [read, write, h, Fixed.number_bytes hv]

/-- A number is read as before when what was written lies apart. -/
theorem read_write_disjoint (m : Mem w) (hn : n ≤ 2 ^ w) (h : Disjoint (block a n) (block b k)) :
    (m.write b k v).read a n = m.read a n :=
  read_congr hn ((write_eqOn m b k v).mono (h.subset_compl_right))

/-- The number in a block is that of its front part and that of its back part. -/
theorem read_add (m : Mem w) (a : BitVec w) (n k : ℕ) :
    m.read a (n + k) = m.read a n + 256 ^ n * m.read (a + BitVec.ofNat w n) k := by
  rw [read, load_append, Fixed.number_append, length_load, read, read]

end Mem
