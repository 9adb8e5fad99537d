import Desenredo.Library.ByteMemory
import Mathlib.Logic.Function.Basic
import Mathlib.Logic.Relation

/-!
# A fragment of x86-64

The instructions that move words between registers and memory, save and restore the control
state of the floating point units, and call and return. Operands are written in the order of the
AT&T syntax. Where an instruction stands in memory and how long it is is the assembler's
business: `Code` says which instruction an address holds and where the next one starts. The
arithmetic flags are left out, since no instruction here reads them; memory accesses do not
fault.

The rules a proof about a routine uses are `Loaded.reaches`, for a piece of straight-line code,
and `step_call`, `step_ret` and `step_jmp`, for the instruction behind it.
-/

namespace X86

/-- A native word. -/
abbrev Word := BitVec 64

/-- The general registers. -/
inductive Gpr where
  | rax | rcx | rdx | rbx | rsp | rbp | rsi | rdi
  | r8 | r9 | r10 | r11 | r12 | r13 | r14 | r15
deriving DecidableEq, Repr

/-- What instructions act on, but for the instruction pointer. -/
@[ext] structure State where
  gpr : Gpr → Word
  memory : Mem 64
  /-- SSE control and status. -/
  mxcsr : BitVec 32
  /-- x87 control word. -/
  fcw : BitVec 16
  /-- Direction flag. -/
  df : Bool

/-- A state and the address of the next instruction. -/
@[ext] structure Machine where
  rip : Word
  state : State

/-- An operand: a constant, a register, or the memory at a displacement from a register. -/
inductive Operand where
  | imm (value : Word)
  | reg (r : Gpr)
  | mem (disp : ℕ) (base : Gpr)
deriving DecidableEq, Repr

/-- An instruction. -/
inductive Instr where
  | movq (src dst : Operand)
  | leaq (disp : ℕ) (base dst : Gpr)
  | addq (value : Word) (dst : Gpr)
  | subq (value : Word) (dst : Gpr)
  | pushq (src : Gpr)
  /-- Stores the SSE control and status. -/
  | stmxcsr (disp : ℕ) (base : Gpr)
  | ldmxcsr (disp : ℕ) (base : Gpr)
  /-- Stores the x87 control word. -/
  | fnstcw (disp : ℕ) (base : Gpr)
  | fldcw (disp : ℕ) (base : Gpr)
  | cld
  | callq (target : Word)
  | jmp (target : Word)
  | retq
  | ud2
deriving DecidableEq, Repr

namespace State

/-- Replaces a general register. -/
def set (s : State) (r : Gpr) (v : Word) : State := { s with gpr := Function.update s.gpr r v }

/-- The address of a memory operand. -/
def address (s : State) (disp : ℕ) (base : Gpr) : Word := s.gpr base + BitVec.ofNat 64 disp

/-- The word at an address. -/
def word (s : State) (a : Word) : Word := BitVec.ofNat 64 (s.memory.read a 8)

/-- Replaces the word at an address. -/
def setWord (s : State) (a v : Word) : State :=
  { s with memory := s.memory.write a 8 v.toNat }

/-- Pushes a word. -/
def push (s : State) (v : Word) : State :=
  let rsp := s.gpr .rsp - 8
  (s.set .rsp rsp).setWord rsp v

/-- The state behind a return. -/
def pop (s : State) : State := s.set .rsp (s.gpr .rsp + 8)

end State

/-- The value of an operand. -/
def Operand.value (s : State) : Operand → Word
  | imm value => value
  | reg r => s.gpr r
  | mem disp base => s.word (s.address disp base)

/-- The effect of an instruction behind which the next one is carried out. An exception has
none, nor has an instruction that goes elsewhere. -/
def Instr.effect (s : State) : Instr → Option State
  | movq (.mem _ _) (.mem _ _) => none
  | movq src (.reg r) => some (s.set r (src.value s))
  | movq src (.mem disp base) => some (s.setWord (s.address disp base) (src.value s))
  | leaq disp base dst => some (s.set dst (s.address disp base))
  | addq value dst => some (s.set dst (s.gpr dst + value))
  | subq value dst => some (s.set dst (s.gpr dst - value))
  | pushq src => some (s.push (s.gpr src))
  | stmxcsr disp base =>
    some { s with memory := s.memory.write (s.address disp base) 4 s.mxcsr.toNat }
  | ldmxcsr disp base =>
    let v := s.memory.read (s.address disp base) 4
    -- the upper half is reserved
    if v < 2 ^ 16 then some { s with mxcsr := BitVec.ofNat 32 v } else none
  | fnstcw disp base =>
    some { s with memory := s.memory.write (s.address disp base) 2 s.fcw.toNat }
  | fldcw disp base =>
    some { s with fcw := BitVec.ofNat 16 (s.memory.read (s.address disp base) 2) }
  | cld => some { s with df := false }
  | _ => none

/-- The effect of a piece of straight-line code. -/
def straight : List Instr → State → Option State
  | [], s => some s
  | i :: is, s => (i.effect s).bind (straight is)

/-- The instruction at an address and the address of the next one. -/
abbrev Code := Word → Option (Instr × Word)

/-- Carries out an instruction. -/
def Instr.exec (next : Word) (s : State) : Instr → Option Machine
  | callq target => some ⟨target, s.push next⟩
  | jmp target => some ⟨target, s⟩
  | retq => some ⟨s.word (s.gpr .rsp), s.pop⟩
  | ud2 => none
  | i => (i.effect s).map (Machine.mk next)

/-- One step of the machine. -/
def step (code : Code) (m : Machine) : Option Machine := do
  let (i, next) ← code m.rip
  i.exec next m.state

/-- Steps lead from one machine to another. -/
def Reaches (code : Code) : Machine → Machine → Prop :=
  Relation.ReflTransGen fun m m' => step code m = some m'

/-- A piece of code stands between two addresses. -/
inductive Loaded (code : Code) : Word → List Instr → Word → Prop
  | nil (a : Word) : Loaded code a [] a
  | cons {a b c : Word} {i : Instr} {is : List Instr} :
      code a = some (i, b) → Loaded code b is c → Loaded code a (i :: is) c

/-- Code from address zero on, where every instruction takes one address. -/
def Code.of (is : List Instr) : Code := fun a => is[a.toNat]?.map fun i => (i, a + 1)

variable {code : Code} {a b c : Word} {i : Instr} {is is' : List Instr} {s t u : State}
  {m m' : Machine}

/-! ## States -/

namespace State

theorem set_gpr (s : State) (r : Gpr) (v : Word) :
    (s.set r v).gpr = Function.update s.gpr r v := rfl

@[simp] theorem set_gpr_self (s : State) (r : Gpr) (v : Word) : (s.set r v).gpr r = v := by
  rw [set_gpr, Function.update_self]

theorem set_gpr_of_ne {r r' : Gpr} (h : r' ≠ r) (s : State) (v : Word) :
    (s.set r v).gpr r' = s.gpr r' := by
  rw [set_gpr, Function.update_of_ne h]

@[simp] theorem set_memory (s : State) (r : Gpr) (v : Word) : (s.set r v).memory = s.memory := rfl

@[simp] theorem setWord_gpr (s : State) (a v : Word) : (s.setWord a v).gpr = s.gpr := rfl

theorem push_gpr_of_ne {r : Gpr} (h : r ≠ .rsp) (s : State) (v : Word) :
    (s.push v).gpr r = s.gpr r := set_gpr_of_ne h s (s.gpr .rsp - 8)

theorem push_rsp (s : State) (v : Word) : (s.push v).gpr .rsp = s.gpr .rsp - 8 :=
  set_gpr_self s .rsp (s.gpr .rsp - 8)

theorem word_setWord_self (s : State) (a v : Word) : (s.setWord a v).word a = v := by
  rw [word, setWord, Mem.read_write_self _ _ (by decide) v.isLt]
  exact BitVec.ofNat_toNat 64 v

theorem word_push (s : State) (v : Word) : (s.push v).word ((s.push v).gpr .rsp) = v := by
  rw [push_rsp]
  exact word_setWord_self _ _ v

theorem toNat_word (s : State) (a : Word) : (s.word a).toNat = s.memory.read a 8 := by
  rw [word, BitVec.toNat_ofNat]
  exact Nat.mod_eq_of_lt (s.memory.read_lt a 8)

/-- A word is as in another memory that agrees on its block. -/
theorem word_congr (h : Set.EqOn s.memory t.memory (Mem.block a 8)) : s.word a = t.word a := by
  rw [word, word, Mem.read_congr (by decide) h]

end State

/-! ## Straight-line code -/

theorem straight_cons_of (h : i.effect s = some t) (is : List Instr) :
    straight (i :: is) s = straight is t := by
  rw [straight, h, Option.bind_some]

theorem straight_append (is is' : List Instr) (s : State) :
    straight (is ++ is') s = (straight is s).bind (straight is') := by
  induction is generalizing s with
  | nil => rfl
  | cons i is ih =>
    rw [List.cons_append, straight, straight, Option.bind_assoc]
    exact congrArg _ (funext ih)

/-- An instruction with an effect carries it out and goes on behind. -/
theorem Instr.exec_of_effect {next : Word} (h : i.effect s = some t) :
    i.exec next s = some ⟨next, t⟩ := by
  cases i with
  | callq _ => cases h
  | jmp _ => cases h
  | retq => cases h
  | ud2 => cases h
  | _ => exact congrArg (Option.map (Machine.mk next)) h

/-- **Straight-line rule.** The machine goes through loaded code that has an effect. -/
theorem Loaded.reaches (h : Loaded code a is b) (hs : straight is s = some t) :
    Reaches code ⟨a, s⟩ ⟨b, t⟩ := by
  induction h generalizing s with
  | nil a =>
    obtain rfl := Option.some.inj hs
    exact .refl
  | @cons a b c i is hcode _ ih =>
    obtain ⟨u, hu, hrest⟩ := Option.bind_eq_some_iff.1 hs
    have hstep : step code ⟨a, s⟩ = some ⟨b, u⟩ := by
      simp only [step, hcode, Option.bind_eq_bind, Option.bind_some]
      exact Instr.exec_of_effect hu
    exact .head hstep (ih hrest)

theorem Loaded.append_iff : Loaded code a (is ++ is') c ↔
    ∃ b, Loaded code a is b ∧ Loaded code b is' c := by
  induction is generalizing a with
  | nil =>
    constructor
    · exact fun h => ⟨a, .nil a, h⟩
    · rintro ⟨_, ⟨⟩, h⟩
      exact h
  | cons i is ih =>
    constructor
    · intro h
      cases h with
      | cons hcode h =>
        obtain ⟨b, his, his'⟩ := ih.1 h
        exact ⟨b, .cons hcode his, his'⟩
    · rintro ⟨b, h, his'⟩
      cases h with
      | cons hcode his => exact .cons hcode (ih.2 ⟨b, his, his'⟩)

/-- A piece of code stands where the pieces in front of it end. -/
theorem Code.loaded_of (before is after : List Instr)
    (h : (before ++ (is ++ after)).length < 2 ^ 64) :
    Loaded (Code.of (before ++ (is ++ after))) (BitVec.ofNat 64 before.length) is
      (BitVec.ofNat 64 (before.length + is.length)) := by
  induction is generalizing before with
  | nil => exact .nil _
  | cons i is ih =>
    have hat : (BitVec.ofNat 64 before.length).toNat = before.length := by
      rw [BitVec.toNat_ofNat, Nat.mod_eq_of_lt]
      rw [List.length_append] at h
      omega
    have hcons : before ++ (i :: is ++ after) = (before ++ [i]) ++ (is ++ after) := by
      rw [List.append_assoc, List.singleton_append, List.cons_append]
    have hnext : BitVec.ofNat 64 before.length + 1 = BitVec.ofNat 64 (before ++ [i]).length := by
      rw [List.length_append, List.length_singleton, BitVec.ofNat_add]
      rfl
    have hend : (before ++ [i]).length + is.length = before.length + (i :: is).length := by
      simp only [List.length_append, List.length_cons, List.length_nil]
      omega
    refine .cons (b := BitVec.ofNat 64 before.length + 1) ?_ ?_
    · rw [Code.of, hat, List.getElem?_append_right le_rfl, Nat.sub_self]
      rfl
    · rw [hcons, hnext, ← hend]
      exact ih (before ++ [i]) (hcons ▸ h)

/-! ## Control -/

theorem step_call {target : Word} (h : Loaded code a [.callq target] b) (s : State) :
    step code ⟨a, s⟩ = some ⟨target, s.push b⟩ := by
  cases h with
  | cons hcode h =>
    cases h
    simp only [step, hcode, Option.bind_eq_bind, Option.bind_some]
    rfl

theorem step_jmp {target : Word} (h : Loaded code a [.jmp target] b) (s : State) :
    step code ⟨a, s⟩ = some ⟨target, s⟩ := by
  cases h with
  | cons hcode h =>
    simp only [step, hcode, Option.bind_eq_bind, Option.bind_some]
    rfl

theorem step_ret (h : Loaded code a [.retq] b) (s : State) :
    step code ⟨a, s⟩ = some ⟨s.word (s.gpr .rsp), s.pop⟩ := by
  cases h with
  | cons hcode h =>
    simp only [step, hcode, Option.bind_eq_bind, Option.bind_some]
    rfl

theorem step_ud2 (h : Loaded code a [.ud2] b) (s : State) : step code ⟨a, s⟩ = none := by
  cases h with
  | cons hcode h =>
    simp only [step, hcode, Option.bind_eq_bind, Option.bind_some]
    rfl

/-- A routine that ends in a return comes back to the return address. -/
theorem Loaded.returns (is : List Instr) (h : Loaded code a (is ++ [.retq]) b)
    (hs : straight is s = some t) :
    Reaches code ⟨a, s⟩ ⟨t.word (t.gpr .rsp), t.pop⟩ := by
  obtain ⟨c, his, hret⟩ := append_iff.1 h
  exact (his.reaches hs).tail (step_ret hret t)

/-- **Call rule.** A routine reaches what it calls with the state in front of the call, and the
address behind the call on the stack. -/
theorem Loaded.calls {target : Word} (h : Loaded code a (is ++ .callq target :: is') c)
    (hs : straight is s = some t) :
    ∃ b, Reaches code ⟨a, s⟩ ⟨target, t.push b⟩ ∧ Loaded code b is' c := by
  obtain ⟨d, his, hrest⟩ := append_iff.1 h
  rw [← List.singleton_append, append_iff] at hrest
  obtain ⟨b, hcall, hrest⟩ := hrest
  exact ⟨b, (his.reaches hs).tail (step_call hcall t), hrest⟩

/-! ## Calling convention -/

/-- The general registers a function preserves, next to the stack pointer. -/
def preserved : List Gpr := [.rbx, .rbp, .r12, .r13, .r14, .r15]

/-- What a function called in one machine leaves to its caller: control is at the return address,
the return address is off the stack, and the preserved registers and the control state are as
they were. -/
structure Returns (m m' : Machine) : Prop where
  rip : m'.rip = m.state.word (m.state.gpr .rsp)
  rsp : m'.state.gpr .rsp = m.state.gpr .rsp + 8
  preserved : ∀ r ∈ preserved, m'.state.gpr r = m.state.gpr r
  mxcsr : m'.state.mxcsr = m.state.mxcsr
  fcw : m'.state.fcw = m.state.fcw

/-- The stack pointer at the first instruction of a function: aligned but for the return
address. -/
def Aligned (m : Machine) : Prop := (m.state.gpr .rsp).toNat % 16 = 8

end X86
