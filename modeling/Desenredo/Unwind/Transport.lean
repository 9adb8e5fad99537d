import Desenredo.Library.X86
import Desenredo.Unwind.Fields

/-!
# The register transport

The naked routines that move the registers of a machine into a raw register image and out of it.
The image is a record of nineteen native words in field order, and the routines find its fields
by their offsets.
-/

namespace Desenredo.Unwind.X86_64

open X86

/-- The offset of a field in the image. -/
def offsetOf : Slot → ℕ
  | .rax => 0
  | .rdx => 8
  | .rcx => 16
  | .rbx => 24
  | .rsi => 32
  | .rdi => 40
  | .rbp => 48
  | .rsp => 56
  | .r8 => 64
  | .r9 => 72
  | .r10 => 80
  | .r11 => 88
  | .r12 => 96
  | .r13 => 104
  | .r14 => 112
  | .r15 => 120
  | .ra => 128
  | .mxcsr => 136
  | .fcw => 144

namespace Registers

/-- The size of an image. -/
def sizeOf : ℕ := 152

/-- Moves one initialized image out of the storage at an address. -/
def take (m : Mem 64) (p : Word) : Registers :=
  let field (slot : Slot) : ℕ := m.read (p + BitVec.ofNat 64 (offsetOf slot)) 8
  { rax := field .rax
    rdx := field .rdx
    rcx := field .rcx
    rbx := field .rbx
    rsi := field .rsi
    rdi := field .rdi
    rbp := field .rbp
    rsp := field .rsp
    r8 := field .r8
    r9 := field .r9
    r10 := field .r10
    r11 := field .r11
    r12 := field .r12
    r13 := field .r13
    r14 := field .r14
    r15 := field .r15
    ra := field .ra
    mxcsr := field .mxcsr
    fcw := field .fcw }

/-- Returns an all-zero transport used as writable capture storage. -/
def zeroed : Registers where
  rax := 0
  rdx := 0
  rcx := 0
  rbx := 0
  rsi := 0
  rdi := 0
  rbp := 0
  rsp := 0
  r8 := 0
  r9 := 0
  r10 := 0
  r11 := 0
  r12 := 0
  r13 := 0
  r14 := 0
  r15 := 0
  ra := 0
  mxcsr := 0
  fcw := 0

/-- Captures one level I caller: the image goes to the address in the first argument, and the
second one is the stack pointer at the entry of the level I function. -/
def entry : List Instr := [
  .movq (.imm 0) (.mem (offsetOf .rax) .rdi),
  .movq (.imm 0) (.mem (offsetOf .rdx) .rdi),
  .movq (.imm 0) (.mem (offsetOf .rcx) .rdi),
  .movq (.imm 0) (.mem (offsetOf .rsi) .rdi),
  .movq (.imm 0) (.mem (offsetOf .rdi) .rdi),
  .movq (.imm 0) (.mem (offsetOf .r8) .rdi),
  .movq (.imm 0) (.mem (offsetOf .r9) .rdi),
  .movq (.imm 0) (.mem (offsetOf .r10) .rdi),
  .movq (.imm 0) (.mem (offsetOf .r11) .rdi),
  .movq (.reg .rbx) (.mem (offsetOf .rbx) .rdi),
  .movq (.reg .rbp) (.mem (offsetOf .rbp) .rdi),
  .movq (.reg .r12) (.mem (offsetOf .r12) .rdi),
  .movq (.reg .r13) (.mem (offsetOf .r13) .rdi),
  .movq (.reg .r14) (.mem (offsetOf .r14) .rdi),
  .movq (.reg .r15) (.mem (offsetOf .r15) .rdi),
  .leaq 8 .rsi .rax,
  .movq (.reg .rax) (.mem (offsetOf .rsp) .rdi),
  .movq (.mem 0 .rsi) (.reg .rax),
  .movq (.reg .rax) (.mem (offsetOf .ra) .rdi),
  .movq (.imm 0) (.mem (offsetOf .mxcsr) .rdi),
  .movq (.imm 0) (.mem (offsetOf .fcw) .rdi),
  .stmxcsr (offsetOf .mxcsr) .rdi,
  .fnstcw (offsetOf .fcw) .rdi,
  .retq]

/-- Saves the state of the caller that the ABI preserves. -/
def save : List Instr := [
  .movq (.reg .rbx) (.mem (offsetOf .rbx) .rdi),
  .movq (.reg .rbp) (.mem (offsetOf .rbp) .rdi),
  .movq (.reg .r12) (.mem (offsetOf .r12) .rdi),
  .movq (.reg .r13) (.mem (offsetOf .r13) .rdi),
  .movq (.reg .r14) (.mem (offsetOf .r14) .rdi),
  .movq (.reg .r15) (.mem (offsetOf .r15) .rdi),
  .leaq 8 .rsp .rax,
  .movq (.reg .rax) (.mem (offsetOf .rsp) .rdi),
  .movq (.mem 0 .rsp) (.reg .rax),
  .movq (.reg .rax) (.mem (offsetOf .ra) .rdi),
  .stmxcsr (offsetOf .mxcsr) .rdi,
  .fnstcw (offsetOf .fcw) .rdi,
  .retq]

/-- Installs the image at the address in the first argument and never returns. -/
def jump : List Instr := [
  .movq (.mem (offsetOf .rsp) .rdi) (.reg .rsp),
  .ldmxcsr (offsetOf .mxcsr) .rdi,
  .fldcw (offsetOf .fcw) .rdi,
  .movq (.mem (offsetOf .ra) .rdi) (.reg .rax),
  .pushq .rax,
  .movq (.mem (offsetOf .rax) .rdi) (.reg .rax),
  .movq (.mem (offsetOf .rdx) .rdi) (.reg .rdx),
  .movq (.mem (offsetOf .rcx) .rdi) (.reg .rcx),
  .movq (.mem (offsetOf .rbx) .rdi) (.reg .rbx),
  .movq (.mem (offsetOf .rsi) .rdi) (.reg .rsi),
  .movq (.mem (offsetOf .rbp) .rdi) (.reg .rbp),
  .movq (.mem (offsetOf .r8) .rdi) (.reg .r8),
  .movq (.mem (offsetOf .r9) .rdi) (.reg .r9),
  .movq (.mem (offsetOf .r10) .rdi) (.reg .r10),
  .movq (.mem (offsetOf .r11) .rdi) (.reg .r11),
  .movq (.mem (offsetOf .r12) .rdi) (.reg .r12),
  .movq (.mem (offsetOf .r13) .rdi) (.reg .r13),
  .movq (.mem (offsetOf .r14) .rdi) (.reg .r14),
  .movq (.mem (offsetOf .r15) .rdi) (.reg .r15),
  .movq (.mem (offsetOf .rdi) .rdi) (.reg .rdi),
  .cld,
  .retq]

end Registers

end Desenredo.Unwind.X86_64
