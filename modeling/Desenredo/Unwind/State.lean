import Desenredo.Machine
import Desenredo.Unwind.Gimli
import Mathlib.Logic.Function.Basic

/-!
# Register state

The register state of one activation, as DWARF reconstruction sees it: each modelled register
is available with a value or not available at all. The record of nineteen optional fields is a
function from `Slot`, the type of their names.
-/

namespace Desenredo.Unwind

open Usize

namespace Register

def RAX : Register := ⟨0⟩
def RDX : Register := ⟨1⟩
def RSP : Register := ⟨7⟩
def RA : Register := ⟨16⟩

end Register

/-- The modelled registers. -/
inductive Slot where
  | rax | rdx | rcx | rbx | rsi | rdi | rbp | rsp
  | r8 | r9 | r10 | r11 | r12 | r13 | r14 | r15
  | ra | mxcsr | fcw
deriving DecidableEq, Repr

/-- The slot of a DWARF register number, when the register is modelled. -/
def Register.slot : Register → Option Slot
  | ⟨0⟩ => some .rax
  | ⟨1⟩ => some .rdx
  | ⟨2⟩ => some .rcx
  | ⟨3⟩ => some .rbx
  | ⟨4⟩ => some .rsi
  | ⟨5⟩ => some .rdi
  | ⟨6⟩ => some .rbp
  | ⟨7⟩ => some .rsp
  | ⟨8⟩ => some .r8
  | ⟨9⟩ => some .r9
  | ⟨10⟩ => some .r10
  | ⟨11⟩ => some .r11
  | ⟨12⟩ => some .r12
  | ⟨13⟩ => some .r13
  | ⟨14⟩ => some .r14
  | ⟨15⟩ => some .r15
  | ⟨16⟩ => some .ra
  | ⟨64⟩ => some .mxcsr
  | ⟨65⟩ => some .fcw
  | _ => none

/-- A raw register image. -/
structure Registers where
  value : Slot → ℕ

section

variable [Gimli]

/-- Failure while evaluating call-frame information. -/
inductive CfiError where
  /-- The DWARF evaluator rejected the frame metadata or its storage. -/
  | gimli (error : Gimli.Error)

/-- Failure while reconstructing a physical stack. -/
inductive UnwindError where
  /-- No trusted unwind image owns the current instruction address. -/
  | image
  /-- The unwinder could not satisfy a memory read. -/
  | memory
  /-- A DWARF register is not represented by the machine state. -/
  | register (register : Register)
  /-- A modelled register has no value established for the current activation. -/
  | unavailable (register : Register)
  /-- The reconstructed state is incomplete for landing-pad installation. -/
  | install
  /-- A DWARF expression requested an unavailable capability. -/
  | expression
  /-- A decoded address cannot be represented by the target address width. -/
  | address
  /-- The DWARF parser or expression evaluator rejected the metadata. -/
  | gimli (error : Gimli.Error)
  /-- Row evaluation rejected the metadata. -/
  | cfi (error : CfiError)

end

/-- Availability and value of every modelled register. -/
@[ext] structure State where
  value : Slot → Option ℕ

/-- A machine image validated for a landing pad. -/
structure Install where
  registers : Registers

namespace State

/-- Converts one ABI capture into unwind state: only what the call boundary preserves becomes
available. -/
def captured (registers : Registers) : State where
  value
    | .rax | .rdx | .rcx | .rsi | .rdi | .r8 | .r9 | .r10 | .r11 => none
    | slot => some (registers.value slot)

variable [Gimli]

/-- The storage width of one modelled register. -/
def width (register : Register) : Except UnwindError ℕ :=
  match register.slot with
  | some .mxcsr => .ok 4
  | some .fcw => .ok 2
  | some _ => .ok 8
  | none => .error (.register register)

/-- Reads one available register. -/
def read (s : State) (register : Register) : Except UnwindError ℕ :=
  match register.slot with
  | some slot => (s.value slot).okOr (.unavailable register)
  | none => .error (.register register)

/-- The availability slot of one modelled register. -/
def slot (register : Register) : Except UnwindError Slot :=
  register.slot.okOr (.register register)

/-- Makes one modelled register available. -/
def write (s : State) (register : Register) (value : ℕ) : Except UnwindError State := do
  let slot ← slot register
  .ok ⟨Function.update s.value slot (some value)⟩

/-- Marks one modelled register unavailable. -/
def clear (s : State) (register : Register) : Except UnwindError State := do
  let slot ← slot register
  .ok ⟨Function.update s.value slot none⟩

/-- The current stack pointer, when available. -/
def stack (s : State) : Except UnwindError ℕ := s.read .RSP

omit [Gimli] in
/-- The current instruction pointer image, when available. -/
def ip (s : State) : Option ℕ := s.value .ra

/-- Adjusts the stack pointer by an argument size. -/
def adjust (s : State) (size : ℕ) : Except UnwindError State := do
  let rsp ← s.read .RSP
  s.write .RSP (wrappingAdd rsp size)

/-- The registers a landing pad needs. -/
def required : List Slot :=
  [.rax, .rdx, .rbx, .rbp, .rsp, .r12, .r13, .r14, .r15, .ra, .mxcsr, .fcw]

/-- Validates this state for landing-pad installation. -/
def install (s : State) : Except UnwindError Install :=
  if ∀ slot ∈ required, (s.value slot).isSome then
    .ok ⟨⟨fun slot => (s.value slot).getD 0⟩⟩
  else .error .install

/-! ## The stack pointer -/

/-- The stack pointer is available. -/
def HasStack (s : State) : Prop := ∃ sp, s.stack = .ok sp

theorem write_eq_ok {s t : State} {register : Register} {value : ℕ} :
    s.write register value = .ok t ↔
      ∃ slot, register.slot = some slot ∧ t = ⟨Function.update s.value slot (some value)⟩ := by
  simp only [write, slot, Except.bind_eq_ok_iff, Option.okOr_eq_ok, Except.ok.injEq, @eq_comm _ t]

theorem clear_eq_ok {s t : State} {register : Register} :
    s.clear register = .ok t ↔
      ∃ slot, register.slot = some slot ∧ t = ⟨Function.update s.value slot none⟩ := by
  simp only [clear, slot, Except.bind_eq_ok_iff, Option.okOr_eq_ok, Except.ok.injEq, @eq_comm _ t]

end State

end Desenredo.Unwind
