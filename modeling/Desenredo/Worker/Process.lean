import Desenredo.Library.ByteMemory
import Desenredo.Machine

/-!
# The process entry stack

The kernel enters the worker with the argument count followed by the array of argument pointers. The
worker walks that array and measures each argument up to its terminating zero byte.
-/

namespace Desenredo.Worker

/-- Native words occupied by the initial argument count. -/
def ARGC_WORDS : ℕ := 1

/-- Pointer words occupied by the executable name. -/
def PROGRAM_WORDS : ℕ := 1

/-- Pointer words advanced for each argument. -/
def ARGUMENT_WORDS : ℕ := 1

/-- The address a number of words on. -/
def words (address : BitVec 64) (count : ℕ) : BitVec 64 := address + BitVec.ofNat 64 (8 * count)

/-- Validated view of the process entry stack. -/
structure ProcessStack where
  base : BitVec 64
  base_ne_zero : base ≠ 0

/-- Iterator over NUL-terminated application arguments. -/
structure Args where
  cursor : BitVec 64
  remaining : ℕ

variable (m : Mem 64)

namespace ProcessStack

/-- Validates the raw stack pointer. -/
def fromEntry (raw : BitVec 64) : Option ProcessStack :=
  if h : raw ≠ 0 then some ⟨raw, h⟩ else none

/-- Iterates application arguments while skipping the executable name. -/
def args (stack : ProcessStack) : Args where
  cursor := words (words stack.base ARGC_WORDS) PROGRAM_WORDS
  remaining := m.read stack.base 8 - PROGRAM_WORDS

end ProcessStack

namespace Args

/-- The scan for the terminating zero byte, for at most `n` turns: the length it ends at. -/
def scan (argument : BitVec 64) : ℕ → ℕ → Option ℕ
  | 0, _ => none
  | n + 1, length =>
    if m (argument + BitVec.ofNat 64 length) = 0 then some length
    else scan argument n (Usize.saturatingAdd length 1)

/-- The next argument and what follows it, or the end of the arguments; nothing when `n` turns do
not reach the end of the argument. -/
def next (n : ℕ) (args : Args) : Option (Option (List UInt8 × Args)) :=
  match args.remaining with
  | 0 => some none
  | remaining + 1 =>
    let argument := BitVec.ofNat 64 (m.read args.cursor 8)
    (scan m argument n 0).map fun length =>
      some (m.load argument length, ⟨words args.cursor ARGUMENT_WORDS, remaining⟩)

end Args

/-! ## What the kernel promises -/

/-- A text and its terminating zero byte stand at an address. -/
structure Text (address : BitVec 64) (text : List UInt8) : Prop where
  bytes : m.load address (text.length + 1) = text ++ [0]
  nonzero : ∀ byte ∈ text, byte ≠ 0
  fits : text.length < Usize.size

/-- Pointers to texts stand one after the other. -/
def Pointers : BitVec 64 → List (List UInt8) → Prop
  | _, [] => True
  | cursor, text :: texts =>
    Text m (BitVec.ofNat 64 (m.read cursor 8)) text ∧ Pointers (words cursor 1) texts

/-- The initial stack of a process with these arguments, the executable name in front. -/
structure Initial (stack : BitVec 64) (argv : List (List UInt8)) : Prop where
  base_ne_zero : stack ≠ 0
  argc : m.read stack 8 = argv.length
  argv : Pointers m (words stack 1) argv

variable {m} {n i : ℕ} {address stack cursor : BitVec 64} {text : List UInt8}
  {texts argv : List (List UInt8)}

theorem Text.byte (h : Text m address text) (hi : i ≤ text.length) :
    some (m (address + BitVec.ofNat 64 i)) = (text ++ [0])[i]? := by
  rw [← h.bytes, Mem.load, List.getElem?_map, List.getElem?_range (by omega), Option.map_some]

/-- The scan ends at the terminating byte. -/
theorem Text.scan (h : Text m address text) (hi : i ≤ text.length) (hn : text.length < i + n) :
    Args.scan m address n i = some text.length := by
  induction n generalizing i with
  | zero => omega
  | succ n ih =>
    have hbyte := h.byte hi
    rw [Args.scan]
    obtain hlt | rfl := hi.lt_or_eq
    · rw [List.getElem?_append_left hlt, List.getElem?_eq_getElem hlt, Option.some.injEq] at hbyte
      have hsum : Usize.saturatingAdd i 1 = i + 1 := Nat.min_eq_left (by have := h.fits; omega)
      rw [if_neg (hbyte ▸ h.nonzero _ (List.getElem_mem hlt)), hsum]
      exact ih hlt (by omega)
    · rw [List.getElem?_append_right le_rfl, Nat.sub_self, List.getElem?_cons_zero,
        Option.some.injEq] at hbyte
      rw [if_pos hbyte]

theorem Text.load (h : Text m address text) : m.load address text.length = text := by
  have hbytes := h.bytes
  rw [Mem.load_append] at hbytes
  exact List.append_inj_left hbytes (Mem.length_load _ _ _)

/-- The arguments are read one after the other. -/
theorem Pointers.next (h : Pointers m cursor (text :: texts)) (hn : text.length < n) :
    Args.next m n ⟨cursor, texts.length + 1⟩ =
      some (some (text, ⟨words cursor 1, texts.length⟩)) := by
  have hscan := h.1.scan (Nat.zero_le _) (by rwa [Nat.zero_add] : text.length < 0 + n)
  simp only [Args.next, hscan, h.1.load, Option.map_some, ARGUMENT_WORDS]

/-- The arguments begin behind the executable name. -/
theorem Initial.args (h : Initial m stack argv) :
    ∃ cursor, Pointers m cursor argv.tail ∧
      ProcessStack.args m ⟨stack, h.base_ne_zero⟩ = ⟨cursor, argv.tail.length⟩ := by
  refine ⟨words (words stack 1) 1, ?_, ?_⟩
  · have hargv := h.argv
    cases argv with
    | nil => trivial
    | cons program texts => exact hargv.2
  · rw [ProcessStack.args, h.argc, List.length_tail, ARGC_WORDS, PROGRAM_WORDS]

end Desenredo.Worker
