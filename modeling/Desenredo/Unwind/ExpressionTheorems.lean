import Desenredo.Library.Stack
import Desenredo.Unwind.CallerTheorems

/-!
# The initial stack of register expressions

DWARF evaluates the expression of a register rule with the canonical frame address on the stack
and that of a frame address with an empty stack. The unwinder starts every evaluation with an
empty stack. Over a reader whose evaluations are runs of a stack machine, the two agree on an
expression that does not reach below what it pushed itself.
-/

namespace Desenredo.Unwind

open Stack Usize

/-! ## Evaluations of a stack machine -/

/-- What an expression asks the unwinder for. -/
inductive Query where
  | memory (address size : ℕ) (space : Option ℕ)
  | register (register : Register)
  | callFrameCfa
  | relocatedAddress (address : ℕ)
  | other

/-- An expression as a program over a stack, which stops with the pieces of its result or fails. -/
abbrev StackProgram (Value ε : Type) : Type :=
  Program Value Query ℕ (Except ε (List (Location ε)))

/-- The evaluation of an expression from a stack. -/
def Evaluation.ofProgram {Value ε : Type} (underflow : ε) :
    StackProgram Value ε → List Value → Evaluation ε
  | .stop (.ok pieces), _ => .complete pieces
  | .stop (.error error), _ => .failed error
  | .pop _, [] => .failed underflow
  | .pop next, value :: stack => ofProgram underflow (next value) stack
  | .push value next, stack => ofProgram underflow next (value :: stack)
  | .ask (.memory address size space) next, stack =>
    .requiresMemory address size space fun value => ofProgram underflow (next value) stack
  | .ask (.register register) next, stack =>
    .requiresRegister register fun value => ofProgram underflow (next value) stack
  | .ask .callFrameCfa next, stack =>
    .requiresCallFrameCfa fun value => ofProgram underflow (next value) stack
  | .ask (.relocatedAddress address) next, stack =>
    .requiresRelocatedAddress address fun value => ofProgram underflow (next value) stack
  | .ask .other _, _ => .requiresOther

/-- The reader evaluates expressions on a stack machine: from the initial value when one has been
set, and from an empty stack otherwise. -/
structure Gimli.StackMachine [Gimli] where
  /-- The values on the stack. -/
  Value : Type
  /-- The value of an untyped word. -/
  generic : ℕ → Value
  /-- The failure of an operation that lacks an operand. -/
  underflow : Gimli.Error
  program : Gimli.EhFrame → Encoding → UnwindExpression → StackProgram Value Gimli.Error
  evaluate_eq : ∀ ehFrame encoding e initial, Gimli.evaluate ehFrame encoding e initial =
    .ofProgram underflow (program ehFrame encoding e) (initial.map generic).toList

section

variable [Gimli]

/-- How the unwinder answers what an expression asks for. -/
def answer (U : Unwinder) (registers : State) (cfa : Option ℕ) : Query → Except UnwindError ℕ
  | .memory address size none => (U.read address size).okOr .memory
  | .register register => registers.read register
  | .callFrameCfa => cfa.okOr .expression
  | .relocatedAddress address => .ok address
  | .memory _ _ (some _) | .other => .error .expression

namespace Info

variable {U : Unwinder} {info : Info} {registers : State}

/-- The loop over an evaluation is a run of its program. -/
theorem exprLoop_ofProgram {Value : Type} {cfa : Option ℕ} {underflow : Gimli.Error}
    {p : StackProgram Value Gimli.Error} {stack : List Value} :
    exprLoop U registers cfa (.ofProgram underflow p stack) =
      p.exec (answer U registers cfa) (.error underflow) stack >>= fun result =>
        result.mapError .gimli := by
  induction p generalizing stack with
  | stop result => cases result <;> rfl
  | pop next ih =>
    cases stack with
    | nil => rfl
    | cons value stack => exact ih value
  | push value next ih => exact ih
  | ask query next ih =>
    rw [Program.exec, bind_assoc]
    have hnext (value : ℕ) := @ih value stack
    cases query with
    | memory address size space =>
      cases space with
      | none => simp only [Evaluation.ofProgram, exprLoop, hnext, answer]
      | some space => rfl
    | register register => simp only [Evaluation.ofProgram, exprLoop, hnext, answer]
    | callFrameCfa =>
      cases cfa with
      | none => rfl
      | some cfa' => exact hnext cfa'
    | relocatedAddress address => exact hnext address
    | other => rfl

/-- The evaluation of an expression whose stack starts with a given value, when there is one. -/
def exprFrom (U : Unwinder) (info : Info) (registers : State) (cfa initial : Option ℕ)
    (e : UnwindExpression) : Except UnwindError ℕ := do
  let pieces ← exprLoop U registers cfa
    (Gimli.evaluate info.image.ehFrame info.fde.encoding e initial)
  match ← pieces.getLast?.okOr .expression with
  | .address address => .ok address
  | .register register => registers.read register
  | .value value => value.mapError .gimli
  | .other => .error .expression

/-- The unwinder starts every evaluation with an empty stack. -/
theorem expr_eq_exprFrom {cfa : Option ℕ} {e : UnwindExpression} :
    expr U info registers e cfa = exprFrom U info registers cfa none e := rfl

/-- The evaluation of a register expression falls below the bottom of an empty stack. -/
def FallsBelow (machine : Gimli.StackMachine) (U : Unwinder) (info : Info) (registers : State)
    (cfa : ℕ) (e : UnwindExpression) : Prop :=
  (machine.program info.image.ehFrame info.fde.encoding e).Underflows
    (answer U registers (some cfa)) []

section

variable {machine : Gimli.StackMachine} {cfa : ℕ} {e : UnwindExpression}

/-- An evaluation that stays above the bottom of an empty stack does not need a value there. -/
theorem exprFrom_initial (h : ¬info.FallsBelow machine U registers cfa e) (initial : Option ℕ) :
    exprFrom U info registers (some cfa) initial e =
      exprFrom U info registers (some cfa) none e := by
  unfold exprFrom
  simp only [machine.evaluate_eq, exprLoop_ofProgram]
  rw [← List.nil_append (initial.map machine.generic).toList, Program.exec_append h]
  rfl

/-- An evaluation that falls below the bottom of an empty stack fails from it. -/
theorem exprFrom_of_fallsBelow (h : info.FallsBelow machine U registers cfa e) :
    exprFrom U info registers (some cfa) none e = .error (.gimli machine.underflow) := by
  unfold exprFrom
  simp only [machine.evaluate_eq, exprLoop_ofProgram]
  rw [show (Option.map machine.generic none).toList = [] from rfl, Program.exec_of_underflows h]
  rfl

end

end Info

/-! ## Rows -/

/-- The expression a rule refers to. -/
def RegisterRule.unwindExpression : RegisterRule → Option UnwindExpression
  | .expression e | .valExpression e => some e
  | _ => none

section

variable {U : Unwinder} {eval eval' : UnwindExpression → Except UnwindError ℕ}
  {registers : State} {cfa : ℕ} {rules : List (Register × RegisterRule)}

/-- A rule depends on the meaning of its own expression only. -/
theorem RegisterRule.recover_congr {slot : Slot} {rule : RegisterRule}
    (h : ∀ e, rule.unwindExpression = some e → eval e = eval' e) :
    rule.recover U eval registers cfa slot = rule.recover U eval' registers cfa slot := by
  cases rule with
  | expression e => rw [recover, recover, h e rfl]
  | valExpression e => rw [recover, recover, h e rfl]
  | _ => rfl

/-- A rule that evaluates has an expression that does. -/
theorem RegisterRule.recover_evaluates {slot : Slot} {rule : RegisterRule} {value : Option ℕ}
    (h : rule.recover U eval registers cfa slot = some value) {e : UnwindExpression}
    (he : rule.unwindExpression = some e) : ∃ v, eval e = .ok v := by
  cases heval : eval e with
  | ok v => exact ⟨v, rfl⟩
  | error error =>
    cases rule <;> cases he <;> rw [recover, heval] at h <;> cases h

/-- Rows whose expressions mean the same reconstruct the same. -/
theorem Reconstructs.congr
    (h : ∀ rule ∈ rules, ∀ e, rule.2.unwindExpression = some e → eval e = eval' e) {t : State} :
    Reconstructs U eval registers cfa rules t ↔ Reconstructs U eval' registers cfa rules t := by
  have himp {eval eval' : UnwindExpression → Except UnwindError ℕ}
      (h : ∀ rule ∈ rules, ∀ e, rule.2.unwindExpression = some e → eval e = eval' e) :
      Reconstructs U eval registers cfa rules t → Reconstructs U eval' registers cfa rules t := by
    rintro ⟨assigned, hassigned, ht⟩
    refine ⟨assigned, ((List.forall₂_and_left _ _).2 ⟨h, hassigned⟩).imp ?_, ht⟩
    rintro rule p ⟨hrule, hslot, hrecover⟩
    exact ⟨hslot, by rwa [← RegisterRule.recover_congr hrule]⟩
  exact ⟨himp h, himp fun rule hrule e he => (h rule hrule e he).symm⟩

end

namespace Info

/-- The canonical frame address as DWARF defines it: an expression starts with an empty stack. -/
def dwarfCfa (U : Unwinder) (info : Info) (registers : State) : Except UnwindError ℕ :=
  match info.row.cfa with
  | .registerAndOffset register offset => do
    let base ← registers.read register
    .ok (wrappingAddSigned base offset)
  | .expression e => exprFrom U info registers none none e

/-- The meaning of a register expression as DWARF defines it: its evaluation starts with the
canonical frame address on the stack. -/
def dwarfExpr (U : Unwinder) (info : Info) (registers : State) (cfa : ℕ) :
    UnwindExpression → Except UnwindError ℕ :=
  exprFrom U info registers (some cfa) (some cfa)

/-- The state of the caller as DWARF defines it. -/
def DwarfCaller (U : Unwinder) (info : Info) (registers t : State) : Prop :=
  ∃ cfa, info.dwarfCfa U registers = .ok cfa ∧
    Reconstructs U (info.dwarfExpr U registers cfa) registers cfa info.row.registers t

variable {U : Unwinder} {info : Info} {registers : State}

theorem dwarfCfa_eq : info.dwarfCfa U registers = info.cfa U registers := rfl

/-- The expressions of a row the unwinder has evaluated do not fall below an empty stack. -/
theorem not_fallsBelow {machine : Gimli.StackMachine} {cfa : ℕ} {t : State}
    (h : Reconstructs U (expr U info registers · (some cfa)) registers cfa info.row.registers t)
    {rule : Register × RegisterRule} (hrule : rule ∈ info.row.registers) {e : UnwindExpression}
    (he : rule.2.unwindExpression = some e) : ¬info.FallsBelow machine U registers cfa e := by
  intro hbelow
  obtain ⟨p, hassign⟩ := exists_reconstructs_iff.1 ⟨t, h⟩ rule hrule
  obtain ⟨v, hv⟩ := RegisterRule.recover_evaluates hassign.2 he
  rw [expr_eq_exprFrom, exprFrom_of_fallsBelow hbelow] at hv
  cases hv

/-- **Register expressions.** The unwinder reconstructs the caller DWARF defines exactly when no
register expression of a row that DWARF can evaluate falls below an empty stack: that is, when no
expression uses the canonical frame address it should start with. -/
theorem caller_dwarf_iff (machine : Gimli.StackMachine) (U : Unwinder) (info : Info)
    (registers : State) :
    (∀ t, info.caller U registers = .ok t ↔ info.DwarfCaller U registers t) ↔
      ∀ cfa, info.dwarfCfa U registers = .ok cfa →
        (∀ rule ∈ info.row.registers, ∃ slot value, rule.1.slot = some slot ∧
          rule.2.recover U (info.dwarfExpr U registers cfa) registers cfa slot = some value) →
        ∀ rule ∈ info.row.registers, ∀ e, rule.2.unwindExpression = some e →
          ¬info.FallsBelow machine U registers cfa e := by
  simp only [caller_eq_ok, DwarfCaller, dwarfCfa_eq]
  constructor
  · intro hcaller cfa hcfa hevaluates rule hrule e he
    -- the state DWARF defines is one the unwinder reconstructs
    obtain ⟨t, ht⟩ := exists_reconstructs_iff.2 fun rule hrule => by
      obtain ⟨slot, value, hassign⟩ := hevaluates rule hrule
      exact ⟨(slot, value), hassign⟩
    obtain ⟨cfa', hcfa', hcode⟩ := (hcaller t).2 ⟨cfa, hcfa, ht⟩
    obtain rfl := Except.ok.inj (hcfa.symm.trans hcfa')
    exact not_fallsBelow hcode hrule he
  · intro habove t
    apply exists_congr
    intro cfa
    apply and_congr_right
    intro hcfa
    have hagree (h : ∀ rule ∈ info.row.registers, ∀ e, rule.2.unwindExpression = some e →
        ¬info.FallsBelow machine U registers cfa e) :
        Reconstructs U (expr U info registers · (some cfa)) registers cfa info.row.registers t ↔
          Reconstructs U (info.dwarfExpr U registers cfa) registers cfa info.row.registers t :=
      Reconstructs.congr fun rule hrule e he => (exprFrom_initial (h rule hrule e he) _).symm
    constructor
    · intro hcode
      exact (hagree fun rule hrule e he => not_fallsBelow hcode hrule he).1 hcode
    · intro hdwarf
      refine (hagree (habove cfa hcfa fun rule hrule => ?_)).2 hdwarf
      obtain ⟨p, hassign⟩ := exists_reconstructs_iff.1 ⟨t, hdwarf⟩ rule hrule
      exact ⟨p.1, p.2, hassign⟩

end Info

end

/-- A reader of sections that are given by the programs of their expressions and hold no entry. -/
@[reducible] def Gimli.programs : Gimli where
  Error := Unit
  EhFrame := UnwindExpression → StackProgram ℕ Unit
  fdeForAddress _ _ _ := .error ()
  unwindInfoForAddress _ _ _ _ := .error ()
  evaluate ehFrame _ e initial := .ofProgram () (ehFrame e) initial.toList

/-- The stack machine of that reader. -/
def Gimli.machine : @Gimli.StackMachine .programs :=
  @Gimli.StackMachine.mk .programs ℕ id () (fun ehFrame _ => ehFrame) fun _ _ _ initial => by
    rw [Option.map_id_fun, id]
    rfl

/-- A frame whose row recovers one register by an expression with a given program. -/
def Info.valExpression (p : StackProgram ℕ Unit) : @Info .programs :=
  let ehFrame : UnwindExpression → StackProgram ℕ Unit := fun _ => p
  @Info.mk .programs
    (@Image.mk .programs ehFrame ⟨some 0, some 0, none⟩ 0 1 none (by decide) rfl rfl)
    ⟨⟨8, false, 1⟩, 90, false, none, none⟩
    ⟨.registerAndOffset .RSP 8, [(⟨3⟩, .valExpression ⟨0, 2⟩)], 0⟩ 99

/-- An expression that adds a constant to the value it starts with fails the frame. -/
theorem Info.caller_dwarf_fails : ¬∀ [Gimli] (_ : Gimli.StackMachine) (U : Unwinder) (info : Info)
    (registers t : State), info.caller U registers = .ok t ↔ info.DwarfCaller U registers t := by
  intro h
  have hcaller := @h .programs Gimli.machine
    (@Unwinder.mk .programs (fun _ => none) fun _ _ => none)
    (.valExpression (.pop fun value => .stop (.ok [.address (value + 8)])))
    (State.captured ⟨fun _ => 1000⟩)
    ⟨Function.update ((State.captured ⟨fun _ => 1000⟩).inherited 1008) .rbx (some 1016)⟩
  cases hcaller.2 ⟨1008, rfl, [(.rbx, some 1016)], .cons ⟨rfl, rfl⟩ .nil, rfl⟩

attribute [local instance] Gimli.programs in
/-- An expression that uses nothing but what it pushes. -/
theorem Info.caller_dwarf_literal :
    let info := Info.valExpression (.push 5 (.pop fun value => .stop (.ok [.address value])))
    let U : Unwinder := ⟨fun _ => none, fun _ _ => none⟩
    let state := State.captured ⟨fun _ => 1000⟩
    info.caller U state = .ok ⟨Function.update (state.inherited 1008) .rbx (some 5)⟩ := by
  intro info U state
  refine ((Info.caller_dwarf_iff Gimli.machine U info state).2 ?_ _).2
    ⟨1008, rfl, [(.rbx, some 5)], .cons ⟨rfl, rfl⟩ .nil, rfl⟩
  rintro cfa - - rule - e - hbelow
  exact hbelow

end Desenredo.Unwind
