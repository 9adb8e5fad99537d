import Desenredo.Unwind.Transport

/-!
# The entry trampolines

The naked routines behind the unwind entry points. Each one saves its arguments above the storage
of a register image, captures its caller there, and calls the semantic entry with the image in
front of the arguments.
-/

namespace Desenredo.Unwind.X86_64

open X86

/-- Converts one captured raw register image into semantic unwind state. -/
def state (m : Mem 64) (registers : Word) : State := .captured (.take m registers)

/-- Offset of the first preserved argument after the raw register image. -/
def FIRST : ℕ := Registers.sizeOf

/-- Offset of the second preserved argument. -/
def SECOND : ℕ := FIRST + 8

/-- Offset of the third preserved argument. -/
def THIRD : ℕ := SECOND + 8

/-- Start of alignment storage after preserved arguments. -/
def PAD : ℕ := THIRD + 8

/-- Stack storage used by every trampoline. -/
def STACK : ℕ := PAD + 8

/-- An argument of an entry: the register it arrives in, the offset it is preserved at, and the
register it is passed on in. -/
structure Argument where
  arrives : Gpr
  offset : ℕ
  leaves : Gpr
deriving DecidableEq

/-- An entry, by its arguments and what it does when the semantic entry returns. The arguments
have slots of their own behind the image, and are passed on in registers of their own. -/
structure Entry where
  arguments : List Argument
  leave : List Instr
  apart : arguments.Pairwise fun x y => x.offset + 8 ≤ y.offset
  distinct : arguments.Pairwise fun x y => x.leaves ≠ y.leaves
  behind : ∀ x ∈ arguments, FIRST ≤ x.offset ∧ x.offset + 8 ≤ STACK
  arrives : ∀ x ∈ arguments, x.arrives ≠ .rsp
  leaves : ∀ x ∈ arguments, x.leaves ∉ .rsp :: .rdi :: preserved

/-- The instructions of an entry, with the routine that captures the caller and the semantic
entry behind it. -/
def Entry.instructions (entry : Entry) (capture next : Word) : List Instr :=
  [.subq (BitVec.ofNat 64 STACK) .rsp] ++
  entry.arguments.map (fun x => .movq (.reg x.arrives) (.mem x.offset .rsp)) ++
  [.leaq STACK .rsp .rsi, .movq (.reg .rsp) (.reg .rdi), .callq capture] ++
  entry.arguments.reverse.map (fun x => .movq (.mem x.offset .rsp) (.reg x.leaves)) ++
  [.movq (.reg .rsp) (.reg .rdi), .callq next] ++
  entry.leave

namespace Entry

/-- Starts normal two-phase propagation from the caller. -/
def raise : Entry where
  arguments := [⟨.rdi, FIRST, .rsi⟩]
  leave := [.addq (BitVec.ofNat 64 STACK) .rsp, .retq]
  apart := by decide
  distinct := by decide
  behind := by decide
  arrives := by decide
  leaves := by decide

/-- Starts forced propagation from the caller. -/
def force : Entry where
  arguments := [⟨.rdi, FIRST, .rsi⟩, ⟨.rsi, SECOND, .rdx⟩, ⟨.rdx, THIRD, .rcx⟩]
  leave := [.addq (BitVec.ofNat 64 STACK) .rsp, .retq]
  apart := by decide
  distinct := by decide
  behind := by decide
  arrives := by decide
  leaves := by decide

/-- Resumes propagation from a cleanup landing pad. -/
def resume : Entry where
  arguments := [⟨.rdi, FIRST, .rsi⟩]
  leave := [.ud2]
  apart := by decide
  distinct := by decide
  behind := by decide
  arrives := by decide
  leaves := by decide

/-- Resumes forced propagation or reraises from the caller. -/
def rethrow : Entry where
  arguments := [⟨.rdi, FIRST, .rsi⟩]
  leave := [.addq (BitVec.ofNat 64 STACK) .rsp, .retq]
  apart := by decide
  distinct := by decide
  behind := by decide
  arrives := by decide
  leaves := by decide

/-- Walks physical frames starting at the caller. -/
def trace : Entry where
  arguments := [⟨.rdi, FIRST, .rsi⟩, ⟨.rsi, SECOND, .rdx⟩]
  leave := [.addq (BitVec.ofNat 64 STACK) .rsp, .retq]
  apart := by decide
  distinct := by decide
  behind := by decide
  arrives := by decide
  leaves := by decide

end Entry

end Desenredo.Unwind.X86_64
