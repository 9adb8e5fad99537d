import Desenredo.Lsda.Table
import Desenredo.Unwind.Callback

/-!
# Views of a callback

What a personality may do with the context of one callback: read the frame, and in the cleanup
phase prepare it once for a landing pad.
-/

namespace Desenredo.Personality

open Usize Unwind

/-- The instruction pointer state reported by the unwinder. -/
structure InstructionPointer where
  /-- The raw instruction pointer value. -/
  address : ℕ
  /-- Whether the pointer denotes the instruction itself. -/
  beforeInstruction : Bool
deriving DecidableEq, Repr

/-- The address used for call-site table matching. -/
def InstructionPointer.site (ip : InstructionPointer) : ℕ :=
  match ip.address, ip.beforeInstruction with
  | 0, _ | _, true => ip.address
  | _, false => ip.address - 1

/-- A validated landing pad address. -/
structure LandingPad where
  address : NonZeroUsize
deriving DecidableEq

/-- Proof that a cleanup context is ready for installation: what was written into it. -/
structure InstalledContext where
  landingPad : LandingPad
  exception : ℕ
  selector : Selector

/-- The register writes that prepared a context: the exception object, the selector and the
instruction pointer. -/
def InstalledContext.writes (context : InstalledContext) : List (ℤ × ℕ) :=
  [((Register.RAX.raw : ℕ), context.exception),
    ((Register.RDX.raw : ℕ), castUnsigned context.selector.raw),
    ((Register.RA.raw : ℕ), context.landingPad.address)]

variable [Gimli]

/-- A read-only view of one unwind frame. -/
structure Frame where
  context : Callback

namespace Frame

variable (U : Unwinder) (frame : Frame)

/-- The current instruction pointer state. -/
def ip : InstructionPointer := ⟨frame.context.info.1, frame.context.info.2⟩

/-- The start address for the current code region. -/
def start : ℕ := frame.context.start

/-- The text-relative base. -/
def text : ℕ := frame.context.text

/-- The data-relative base. -/
def data : ℕ := frame.context.data

/-- The canonical frame address. -/
def cfa : ℕ := frame.context.base

/-- The language specific data pointer when one exists. -/
def lsda : Option NonZeroUsize := NonZeroUsize.new (frame.context.lsda U)

end Frame

/-- Mutable context access available only during the cleanup phase. -/
structure CleanupFrame where
  context : Callback

namespace CleanupFrame

/-- Borrows the context through the read-only frame view. -/
def frame (f : CleanupFrame) : Frame := ⟨f.context⟩

/-- Prepares the landing-pad register state. -/
def install (_ : CleanupFrame) (landingPad : LandingPad) (exception : ExceptionRef)
    (selector : Selector) : InstalledContext :=
  ⟨landingPad, exception.ptr, selector⟩

end CleanupFrame

end Desenredo.Personality
