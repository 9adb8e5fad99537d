import Desenredo.Unwind.State

/-!
# The register record

The register state as the unwinder stores it: a record with one optional field for each modelled
register, and one table for each operation that names the fields. A failing operation leaves the
record as it was.
-/

namespace Desenredo.Unwind.X86_64

open Usize

@[match_pattern] abbrev RAX : Register := ⟨0⟩
@[match_pattern] abbrev RDX : Register := ⟨1⟩
@[match_pattern] abbrev RCX : Register := ⟨2⟩
@[match_pattern] abbrev RBX : Register := ⟨3⟩
@[match_pattern] abbrev RSI : Register := ⟨4⟩
@[match_pattern] abbrev RDI : Register := ⟨5⟩
@[match_pattern] abbrev RBP : Register := ⟨6⟩
@[match_pattern] abbrev RSP : Register := ⟨7⟩
@[match_pattern] abbrev R8 : Register := ⟨8⟩
@[match_pattern] abbrev R9 : Register := ⟨9⟩
@[match_pattern] abbrev R10 : Register := ⟨10⟩
@[match_pattern] abbrev R11 : Register := ⟨11⟩
@[match_pattern] abbrev R12 : Register := ⟨12⟩
@[match_pattern] abbrev R13 : Register := ⟨13⟩
@[match_pattern] abbrev R14 : Register := ⟨14⟩
@[match_pattern] abbrev R15 : Register := ⟨15⟩
@[match_pattern] abbrev RA : Register := ⟨16⟩
@[match_pattern] abbrev MXCSR : Register := ⟨64⟩
@[match_pattern] abbrev FCW : Register := ⟨65⟩

/-- Raw register image used at assembly boundaries. -/
structure Registers where
  rax : ℕ
  rdx : ℕ
  rcx : ℕ
  rbx : ℕ
  rsi : ℕ
  rdi : ℕ
  rbp : ℕ
  rsp : ℕ
  r8 : ℕ
  r9 : ℕ
  r10 : ℕ
  r11 : ℕ
  r12 : ℕ
  r13 : ℕ
  r14 : ℕ
  r15 : ℕ
  ra : ℕ
  mxcsr : ℕ
  fcw : ℕ

/-- Availability and value of every modelled register. -/
structure State where
  rax : Option ℕ
  rdx : Option ℕ
  rcx : Option ℕ
  rbx : Option ℕ
  rsi : Option ℕ
  rdi : Option ℕ
  rbp : Option ℕ
  rsp : Option ℕ
  r8 : Option ℕ
  r9 : Option ℕ
  r10 : Option ℕ
  r11 : Option ℕ
  r12 : Option ℕ
  r13 : Option ℕ
  r14 : Option ℕ
  r15 : Option ℕ
  ra : Option ℕ
  mxcsr : Option ℕ
  fcw : Option ℕ

/-- Validated landing-pad machine image. -/
structure Install where
  registers : Registers

namespace State

/-- Converts one ABI capture into unwind state: only what the call boundary preserves becomes
available. -/
def captured (registers : Registers) : State where
  rax := none
  rdx := none
  rcx := none
  rbx := some registers.rbx
  rsi := none
  rdi := none
  rbp := some registers.rbp
  rsp := some registers.rsp
  r8 := none
  r9 := none
  r10 := none
  r11 := none
  r12 := some registers.r12
  r13 := some registers.r13
  r14 := some registers.r14
  r15 := some registers.r15
  ra := some registers.ra
  mxcsr := some registers.mxcsr
  fcw := some registers.fcw

variable [Gimli]

/-- Reads one available register. -/
def read (s : State) (register : Register) : Except UnwindError ℕ := do
  let value ← match register with
    | RAX => .ok s.rax
    | RDX => .ok s.rdx
    | RCX => .ok s.rcx
    | RBX => .ok s.rbx
    | RSI => .ok s.rsi
    | RDI => .ok s.rdi
    | RBP => .ok s.rbp
    | RSP => .ok s.rsp
    | R8 => .ok s.r8
    | R9 => .ok s.r9
    | R10 => .ok s.r10
    | R11 => .ok s.r11
    | R12 => .ok s.r12
    | R13 => .ok s.r13
    | R14 => .ok s.r14
    | R15 => .ok s.r15
    | RA => .ok s.ra
    | MXCSR => .ok s.mxcsr
    | FCW => .ok s.fcw
    | _ => .error (.register register)
  value.okOr (.unavailable register)

/-- The availability slot of one modelled register, as the state with another content in it. -/
def slot (s : State) (register : Register) : Except UnwindError (Option ℕ → State) :=
  match register with
  | RAX => .ok fun rax => { s with rax }
  | RDX => .ok fun rdx => { s with rdx }
  | RCX => .ok fun rcx => { s with rcx }
  | RBX => .ok fun rbx => { s with rbx }
  | RSI => .ok fun rsi => { s with rsi }
  | RDI => .ok fun rdi => { s with rdi }
  | RBP => .ok fun rbp => { s with rbp }
  | RSP => .ok fun rsp => { s with rsp }
  | R8 => .ok fun r8 => { s with r8 }
  | R9 => .ok fun r9 => { s with r9 }
  | R10 => .ok fun r10 => { s with r10 }
  | R11 => .ok fun r11 => { s with r11 }
  | R12 => .ok fun r12 => { s with r12 }
  | R13 => .ok fun r13 => { s with r13 }
  | R14 => .ok fun r14 => { s with r14 }
  | R15 => .ok fun r15 => { s with r15 }
  | RA => .ok fun ra => { s with ra }
  | MXCSR => .ok fun mxcsr => { s with mxcsr }
  | FCW => .ok fun fcw => { s with fcw }
  | _ => .error (.register register)

/-- Makes one modelled register available. -/
def write (s : State) (register : Register) (value : ℕ) : Except UnwindError Unit × State :=
  match s.slot register with
  | .ok slot => (.ok (), slot (some value))
  | .error error => (.error error, s)

/-- Marks one modelled register unavailable. -/
def clear (s : State) (register : Register) : Except UnwindError Unit × State :=
  match s.slot register with
  | .ok slot => (.ok (), slot none)
  | .error error => (.error error, s)

/-- Adjusts the stack pointer by an argument size. -/
def adjust (s : State) (size : ℕ) : Except UnwindError Unit × State :=
  match s.read RSP with
  | .ok rsp => s.write RSP (wrappingAdd rsp size)
  | .error error => (.error error, s)

/-- Validates this state for landing-pad installation. -/
def install (s : State) : Except UnwindError Install :=
  match s.rax, s.rdx, s.rbx, s.rbp, s.rsp, s.r12, s.r13, s.r14, s.r15, s.ra, s.mxcsr, s.fcw with
  | some rax, some rdx, some rbx, some rbp, some rsp, some r12, some r13, some r14, some r15,
    some ra, some mxcsr, some fcw =>
    -- the volatile registers may be unavailable
    .ok ⟨{
      rax, rdx, rbx, rbp, rsp, r12, r13, r14, r15, ra, mxcsr, fcw
      rcx := s.rcx.getD 0, rsi := s.rsi.getD 0, rdi := s.rdi.getD 0
      r8 := s.r8.getD 0, r9 := s.r9.getD 0, r10 := s.r10.getD 0, r11 := s.r11.getD 0 }⟩
  | _, _, _, _, _, _, _, _, _, _, _, _ => .error .install

end State

end Desenredo.Unwind.X86_64
