import Desenredo.Library.Assign
import Desenredo.Unwind.Source

/-!
# The caller of a frame

The state of a caller is given register by register: by the rule of the register alone when the
row has one, and by the state of the callee otherwise. Rules read the callee only, never what the
loop has written, so their order does not matter.
-/

namespace Desenredo.Unwind

open Usize

/-! ## Registers and slots -/

/-- The DWARF register number of a slot. -/
def Slot.register : Slot → Register
  | .rax => ⟨0⟩
  | .rdx => ⟨1⟩
  | .rcx => ⟨2⟩
  | .rbx => ⟨3⟩
  | .rsi => ⟨4⟩
  | .rdi => ⟨5⟩
  | .rbp => ⟨6⟩
  | .rsp => ⟨7⟩
  | .r8 => ⟨8⟩
  | .r9 => ⟨9⟩
  | .r10 => ⟨10⟩
  | .r11 => ⟨11⟩
  | .r12 => ⟨12⟩
  | .r13 => ⟨13⟩
  | .r14 => ⟨14⟩
  | .r15 => ⟨15⟩
  | .ra => ⟨16⟩
  | .mxcsr => ⟨64⟩
  | .fcw => ⟨65⟩

/-- The width of a slot in memory. -/
def Slot.width : Slot → ℕ
  | .mxcsr => 4
  | .fcw => 2
  | _ => 8

theorem Register.slot_eq_some {register : Register} {slot : Slot} :
    register.slot = some slot ↔ register = slot.register := by
  constructor
  · intro h
    unfold Register.slot at h
    split at h <;> cases h <;> rfl
  · rintro rfl
    cases slot <;> rfl

/-- Different registers have different slots. -/
theorem Register.slot_injective {r r' : Register} {slot : Slot} (h : r.slot = some slot)
    (h' : r'.slot = some slot) : r = r' := by
  rw [slot_eq_some.1 h, slot_eq_some.1 h']

section

variable [Gimli]

theorem State.width_eq {register : Register} {slot : Slot} (h : register.slot = some slot) :
    State.width register = .ok slot.width := by
  rw [State.width, h]
  cases slot <;> rfl

theorem State.read_toOption (s : State) (register : Register) :
    (s.read register).toOption = register.slot.bind s.value := by
  unfold State.read
  split
  case h_1 slot h =>
    rw [h, Option.bind_some]
    cases s.value slot <;> rfl
  case h_2 h => rw [h]; rfl

/-! ## One rule -/

/-- What a rule recovers for the register of a slot, from the state of the callee, the canonical
frame address, the memory and the meaning of expressions: unavailability or a value. Nothing when
the rule does not evaluate. -/
def RegisterRule.recover (U : Unwinder) (eval : UnwindExpression → Except UnwindError ℕ)
    (registers : State) (cfa : ℕ) (slot : Slot) : RegisterRule → Option (Option ℕ)
  | .undefined => some none
  | .sameValue => (registers.value slot).map some
  | .offset o => (U.read (wrappingAddSigned cfa o) slot.width).map some
  | .valOffset o => some (some (wrappingAddSigned cfa o))
  | .register source => (source.slot.bind registers.value).map some
  | .expression e => ((eval e).toOption.bind (U.read · slot.width)).map some
  | .valExpression e => (eval e).toOption.map some
  | .architectural => none
  | .constant value => some (some value)

/-- Only an undefined register is recovered as unavailable. -/
theorem RegisterRule.recover_isSome {U : Unwinder}
    {eval : UnwindExpression → Except UnwindError ℕ} {registers : State} {cfa : ℕ} {slot : Slot}
    {rule : RegisterRule} {value : Option ℕ}
    (h : rule.recover U eval registers cfa slot = some value) (hne : rule ≠ .undefined) :
    value.isSome := by
  cases rule with
  | undefined => exact absurd rfl hne
  | architectural => cases h
  | valOffset | constant =>
    cases h
    rfl
  | sameValue | offset | register | expression | valExpression =>
    obtain ⟨_, -, rfl⟩ := Option.map_eq_some_iff.1 h
    rfl

namespace Info

variable {U : Unwinder} {info : Info} {registers : State} {cfa : ℕ}

/-- A register that is modelled is read from memory at its own width. -/
theorem register_toOption {target : Register} {slot : Slot} (h : target.slot = some slot)
    (address : ℕ) : (register U target address).toOption = U.read address slot.width := by
  rw [register, State.width_eq h, Except.bind_ok]
  cases U.read address slot.width <;> rfl

/-- A value that is computed and then written is assigned to the slot of the register. -/
theorem bind_write_eq_ok {target : Register} {value : Except UnwindError ℕ}
    {recovered : Slot → Option ℕ} {caller t : State}
    (h : ∀ slot, target.slot = some slot → value.toOption = recovered slot) :
    (do let value ← value; caller.write target value) = .ok t ↔
      ∃ slot v, target.slot = some slot ∧ (recovered slot).map some = some v ∧
        t = ⟨Function.update caller.value slot v⟩ := by
  rw [Except.bind_eq_ok_iff]
  constructor
  · rintro ⟨v, hvalue, hwrite⟩
    obtain ⟨slot, hslot, rfl⟩ := State.write_eq_ok.1 hwrite
    refine ⟨slot, some v, hslot, ?_, rfl⟩
    rw [← h slot hslot, hvalue, Except.toOption_ok, Option.map_some]
  · rintro ⟨slot, _, hslot, hmap, rfl⟩
    obtain ⟨v, hrecovered, rfl⟩ := Option.map_eq_some_iff.1 hmap
    rw [← h slot hslot] at hrecovered
    exact ⟨v, Except.toOption_eq_some.1 hrecovered, State.write_eq_ok.2 ⟨slot, hslot, rfl⟩⟩

/-- One turn of the loop assigns what the rule recovers to the slot of its register. -/
theorem applyRule_eq_ok {target : Register} {rule : RegisterRule} {caller t : State} :
    applyRule U info registers cfa target rule caller = .ok t ↔
      ∃ slot value, target.slot = some slot ∧
        rule.recover U (expr U info registers · (some cfa)) registers cfa slot = some value ∧
        t = ⟨Function.update caller.value slot value⟩ := by
  cases rule with
  | undefined => simp [applyRule, RegisterRule.recover, State.clear_eq_ok]
  | sameValue =>
    apply bind_write_eq_ok
    intro slot hslot
    rw [State.read_toOption, hslot, Option.bind_some]
  | offset o =>
    apply bind_write_eq_ok
    intro slot hslot
    exact register_toOption hslot _
  | valOffset o => simp [applyRule, RegisterRule.recover, State.write_eq_ok]
  | register source =>
    apply bind_write_eq_ok
    intro slot _
    exact State.read_toOption _ _
  | expression e =>
    show (expr U info registers e (some cfa) >>= fun address =>
      register U target address >>= caller.write target) = .ok t ↔ _
    rw [← bind_assoc]
    apply bind_write_eq_ok
    intro slot hslot
    rw [Except.toOption_bind]
    simp only [register_toOption hslot]
  | valExpression e =>
    apply bind_write_eq_ok
    intro slot _
    rfl
  | architectural => simp [applyRule, RegisterRule.recover]
  | constant value => simp [applyRule, RegisterRule.recover, State.write_eq_ok]

end Info

/-! ## Rows -/

/-- The state of a caller whose row has no rule: the stack pointer is the canonical frame address,
the return address is unavailable, any other register is that of the callee. -/
def State.inherited (registers : State) (cfa : ℕ) : Slot → Option ℕ
  | .rsp => some cfa
  | .ra => none
  | slot => registers.value slot

/-- A rule of a row assigns a value to a slot. -/
def Assigns (U : Unwinder) (eval : UnwindExpression → Except UnwindError ℕ) (registers : State)
    (cfa : ℕ) (rule : Register × RegisterRule) (assigned : Slot × Option ℕ) : Prop :=
  rule.1.slot = some assigned.1 ∧
    rule.2.recover U eval registers cfa assigned.1 = some assigned.2

/-- A state is what the rules of a row, evaluated in the state of the callee, make of the state
that is inherited from it. -/
def Reconstructs (U : Unwinder) (eval : UnwindExpression → Except UnwindError ℕ)
    (registers : State) (cfa : ℕ) (rules : List (Register × RegisterRule)) (t : State) : Prop :=
  ∃ assigned, List.Forall₂ (Assigns U eval registers cfa) rules assigned ∧
    t.value = Assign.run (registers.inherited cfa) assigned

section

variable {U : Unwinder} {eval : UnwindExpression → Except UnwindError ℕ} {registers : State}
  {cfa : ℕ} {rules : List (Register × RegisterRule)} {t : State}

/-- Rules for different registers assign to different slots. -/
theorem Assigns.nodup {assigned : List (Slot × Option ℕ)}
    (h : List.Forall₂ (Assigns U eval registers cfa) rules assigned)
    (hrules : (rules.map Prod.fst).Nodup) : (assigned.map Prod.fst).Nodup := by
  have hregisters : rules.map Prod.fst = (assigned.map Prod.fst).map Slot.register := by
    induction h with
    | nil => rfl
    | cons hassign _ ih =>
      rw [List.map_cons, List.nodup_cons] at hrules
      simp only [List.map_cons, ih hrules.2, Register.slot_eq_some.1 hassign.1]
  rw [hregisters] at hrules
  exact hrules.of_map Slot.register

/-- With at most one rule a register, a state is reconstructed slot by slot. -/
theorem reconstructs_iff (hrules : (rules.map Prod.fst).Nodup) :
    Reconstructs U eval registers cfa rules t ↔
      (∀ rule ∈ rules, ∃ slot, Assigns U eval registers cfa rule (slot, t.value slot)) ∧
      ∀ slot, (∀ rule ∈ rules, rule.1.slot ≠ some slot) →
        t.value slot = registers.inherited cfa slot := by
  constructor
  · rintro ⟨assigned, hassigned, ht⟩
    obtain ⟨hin, hout⟩ := (Assign.eq_run_iff (Assigns.nodup hassigned hrules)).1 ht
    constructor
    · intro rule hrule
      obtain ⟨p, hp, hassign⟩ := Assign.forall₂_mem hassigned hrule
      refine ⟨p.1, ?_⟩
      rwa [hin p hp]
    · intro slot hfree
      apply hout
      intro hslot
      obtain ⟨p, hp, rfl⟩ := List.mem_map.1 hslot
      obtain ⟨rule, hrule, hassign⟩ := Assign.forall₂_mem hassigned.flip hp
      exact hfree rule hrule hassign.1
  · rintro ⟨hin, hout⟩
    -- every rule assigns what the state already holds
    obtain ⟨assigned, hassigned⟩ := Assign.forall₂_exists (R := fun rule p =>
      Assigns U eval registers cfa rule p ∧ p.2 = t.value p.1) fun rule hrule => by
        obtain ⟨slot, hassign⟩ := hin rule hrule
        exact ⟨(slot, t.value slot), hassign, rfl⟩
    have hall := hassigned.imp fun _ _ h => h.1
    refine ⟨assigned, hall, (Assign.eq_run_iff (Assigns.nodup hall hrules)).2 ⟨?_, ?_⟩⟩
    · intro p hp
      obtain ⟨rule, -, hassign⟩ := Assign.forall₂_mem hassigned.flip hp
      exact hassign.2.symm
    · intro slot hslot
      apply hout
      rintro rule hrule heq
      obtain ⟨p, hp, hassign⟩ := Assign.forall₂_mem hall hrule
      obtain rfl := Option.some.inj (heq.symm.trans hassign.1)
      exact hslot (List.mem_map_of_mem hp)

/-- Some state is reconstructed when every rule assigns something. -/
theorem exists_reconstructs_iff :
    (∃ t, Reconstructs U eval registers cfa rules t) ↔
      ∀ rule ∈ rules, ∃ p, Assigns U eval registers cfa rule p := by
  constructor
  · rintro ⟨t, assigned, hassigned, -⟩ rule hrule
    obtain ⟨p, -, hassign⟩ := Assign.forall₂_mem hassigned hrule
    exact ⟨p, hassign⟩
  · intro h
    obtain ⟨assigned, hassigned⟩ := Assign.forall₂_exists h
    exact ⟨⟨Assign.run (registers.inherited cfa) assigned⟩, assigned, hassigned, rfl⟩

end

namespace Info

variable {U : Unwinder} {info : Info} {registers : State} {cfa : ℕ}

/-- The loop assigns what each of its rules recovers. -/
theorem applyRules_eq_ok {rules : List (Register × RegisterRule)} {caller t : State} :
    applyRules U info registers cfa rules caller = .ok t ↔
      ∃ assigned,
        List.Forall₂ (Assigns U (expr U info registers · (some cfa)) registers cfa) rules assigned ∧
        t.value = Assign.run caller.value assigned := by
  induction rules generalizing caller with
  | nil =>
    simp only [applyRules, List.forall₂_nil_left_iff, exists_eq_left, Assign.run_nil,
      Except.ok.injEq, State.ext_iff, eq_comm]
  | cons rule rules ih =>
    rw [applyRules, Except.bind_eq_ok_iff]
    constructor
    · rintro ⟨caller', hrule, hrules⟩
      obtain ⟨slot, value, hslot, hvalue, rfl⟩ := applyRule_eq_ok.1 hrule
      obtain ⟨assigned, hassigned, ht⟩ := ih.1 hrules
      exact ⟨(slot, value) :: assigned, .cons ⟨hslot, hvalue⟩ hassigned, ht⟩
    · rintro ⟨_, hall, ht⟩
      obtain ⟨p, assigned, ⟨hslot, hvalue⟩, hassigned, rfl⟩ := List.forall₂_cons_left_iff.1 hall
      exact ⟨_, applyRule_eq_ok.2 ⟨p.1, p.2, hslot, hvalue, rfl⟩, ih.2 ⟨assigned, hassigned, ht⟩⟩

/-- The loop runs over the state inherited from the callee. -/
theorem caller_eq (U : Unwinder) (info : Info) (registers : State) :
    info.caller U registers = info.cfa U registers >>= fun cfa =>
      applyRules U info registers cfa info.row.registers ⟨registers.inherited cfa⟩ := by
  have hinherited (cfa : ℕ) : registers.inherited cfa =
      Function.update (Function.update registers.value .rsp (some cfa)) .ra none := by
    funext slot
    cases slot <;> rfl
  simp only [hinherited]
  rfl

/-- Besides its rules, a row matters to the loop through the canonical frame address only. -/
theorem applyRules_row {row : Row} {rules : List (Register × RegisterRule)} {caller : State} :
    applyRules U { info with row := row } registers cfa rules caller =
      applyRules U info registers cfa rules caller := by
  induction rules generalizing caller with
  | nil => rfl
  | cons rule rules ih =>
    rw [applyRules, applyRules]
    simp only [ih]
    rfl

/-- The state of the caller is reconstructed from the rules of the row. -/
theorem caller_eq_ok {t : State} :
    info.caller U registers = .ok t ↔ ∃ cfa, info.cfa U registers = .ok cfa ∧
      Reconstructs U (expr U info registers · (some cfa)) registers cfa info.row.registers t := by
  simp only [caller_eq, Except.bind_eq_ok_iff, applyRules_eq_ok, Reconstructs]

/-- The canonical frame address and every rule of the row evaluate, and every register with a rule
is modelled. -/
def Evaluates (U : Unwinder) (info : Info) (registers : State) : Prop :=
  ∃ cfa, info.cfa U registers = .ok cfa ∧ ∀ rule ∈ info.row.registers,
    ∃ p, Assigns U (expr U info registers · (some cfa)) registers cfa rule p

theorem exists_caller_iff :
    (∃ t, info.caller U registers = .ok t) ↔ info.Evaluates U registers := by
  simp only [caller_eq_ok]
  rw [exists_comm]
  apply exists_congr
  intro cfa
  rw [exists_and_left, exists_reconstructs_iff]

/-- **Caller reconstruction.** The caller is reconstructed when the canonical frame address and
every rule evaluate and every register with a rule is modelled. Each register is then what its own
rule recovers from the callee, or is inherited without one, in whatever order the rules come. -/
theorem caller_pointwise (U : Unwinder) (info : Info) (registers : State)
    (hrules : (info.row.registers.map Prod.fst).Nodup) :
    let recover (cfa : ℕ) (slot : Slot) (rule : RegisterRule) : Option (Option ℕ) :=
      rule.recover U (fun e => expr U info registers e (some cfa)) registers cfa slot
    ((∃ t, info.caller U registers = .ok t) ↔ ∃ cfa, info.cfa U registers = .ok cfa ∧
      ∀ rule ∈ info.row.registers, ∃ slot value, rule.1.slot = some slot ∧
        recover cfa slot rule.2 = some value) ∧
    (∀ t, info.caller U registers = .ok t ↔ ∃ cfa, info.cfa U registers = .ok cfa ∧
      (∀ rule ∈ info.row.registers, ∃ slot, rule.1.slot = some slot ∧
        recover cfa slot rule.2 = some (t.value slot)) ∧
      ∀ slot, (∀ rule ∈ info.row.registers, rule.1.slot ≠ some slot) →
        t.value slot = match slot with
          | .rsp => some cfa
          | .ra => none
          | slot => registers.value slot) ∧
    ∀ rules : List (Register × RegisterRule), rules.Perm info.row.registers → ∀ t,
      ({ info with row := { info.row with registers := rules } } : Info).caller U registers =
        .ok t ↔ info.caller U registers = .ok t := by
  intro recover
  refine ⟨?_, fun t => ?_, fun rules hperm t => ?_⟩
  · rw [exists_caller_iff]
    simp only [Evaluates, Prod.exists]
    rfl
  · rw [caller_eq_ok]
    simp only [reconstructs_iff hrules]
    rfl
  · rw [caller_eq_ok, caller_eq_ok]
    have hnodup : (rules.map Prod.fst).Nodup := (hperm.map Prod.fst).nodup_iff.2 hrules
    -- what a state has to satisfy does not mention the order
    show (∃ cfa, info.cfa U registers = .ok cfa ∧
      Reconstructs U (expr U info registers · (some cfa)) registers cfa rules t) ↔ _
    simp only [reconstructs_iff hrules, reconstructs_iff hnodup, hperm.mem_iff]

end Info

end

attribute [local instance] Gimli.decoded in
/-- A row that swaps two registers. -/
theorem Info.caller_pointwise_swap :
    let entries : ℕ → Option (Fde × Row) := fun _ => none
    let image : Image := ⟨entries, ⟨some 0, some 0, none⟩, 0, 1, none, by decide, rfl, rfl⟩
    let fde : Fde := ⟨⟨8, false, 1⟩, 90, false, none, none⟩
    let rules : List (Register × RegisterRule) := [(⟨3⟩, .register ⟨6⟩), (⟨6⟩, .register ⟨3⟩)]
    let info : Info := ⟨image, fde, ⟨.registerAndOffset .RSP 8, rules, 0⟩, 99⟩
    let U := Unwinder.decoded entries
    let state := State.captured ⟨fun slot => if slot = .rbx then 3 else 6⟩
    ∃ t, info.caller U state = .ok t ∧ t.value .rbx = some 6 ∧ t.value .rbp = some 3 ∧
      t.value .rsp = some 14 := by
  intro entries image fde rules info U state
  obtain ⟨hsucceeds, hvalues, -⟩ := Info.caller_pointwise U info state (by decide)
  have hcfa : info.cfa U state = .ok 14 := rfl
  obtain ⟨t, ht⟩ := hsucceeds.2 ⟨14, hcfa, List.forall_mem_cons.2
    ⟨⟨.rbx, some 6, rfl, rfl⟩, List.forall_mem_singleton.2 ⟨.rbp, some 3, rfl, rfl⟩⟩⟩
  obtain ⟨cfa, hcfa', hrules, hfree⟩ := (hvalues t).1 ht
  obtain rfl := Except.ok.inj (hcfa.symm.trans hcfa')
  obtain ⟨_, hrbx, hvalue⟩ := hrules (⟨3⟩, .register ⟨6⟩) List.mem_cons_self
  obtain ⟨_, hrbp, hvalue'⟩ :=
    hrules (⟨6⟩, .register ⟨3⟩) (List.mem_cons_of_mem _ List.mem_cons_self)
  cases hrbx
  cases hrbp
  refine ⟨t, ht, (Option.some.inj hvalue).symm, (Option.some.inj hvalue').symm, ?_⟩
  exact hfree .rsp (by decide)

/-! ## Explicit same-value rules -/

section

variable [Gimli]

namespace Info

variable {U : Unwinder} {info : Info} {registers : State} {cfa : ℕ}
  {before after : List (Register × RegisterRule)}

theorem applyRules_append {caller : State} :
    applyRules U info registers cfa (before ++ after) caller =
      applyRules U info registers cfa before caller >>= applyRules U info registers cfa after := by
  induction before generalizing caller with
  | nil => rfl
  | cons rule before ih =>
    rw [List.cons_append, applyRules, applyRules, bind_assoc]
    congr 1
    funext caller'
    exact ih

/-- The loop leaves a register without a rule alone. -/
theorem applyRules_free {register : Register} {slot : Slot} (hslot : register.slot = some slot)
    {rules : List (Register × RegisterRule)} (hfree : register ∉ rules.map Prod.fst)
    {caller t : State} (h : applyRules U info registers cfa rules caller = .ok t) :
    t.value slot = caller.value slot := by
  obtain ⟨assigned, hassigned, ht⟩ := applyRules_eq_ok.1 h
  rw [ht]
  apply Assign.run_of_notMem
  intro hmem
  obtain ⟨p, hp, rfl⟩ := List.mem_map.1 hmem
  obtain ⟨rule, hrule, hassign⟩ := Assign.forall₂_mem hassigned.flip hp
  rw [Register.slot_injective hslot hassign.1] at hfree
  exact hfree (List.mem_map_of_mem hrule)

/-- Reading an available register back into a caller that inherits it changes nothing. -/
theorem applyRules_sameValue {register : Register} {slot : Slot} {v : ℕ}
    (hslot : register.slot = some slot) (hvalue : registers.value slot = some v)
    (hfree : register ∉ before.map Prod.fst) {caller : State}
    (hcaller : caller.value slot = some v) :
    applyRules U info registers cfa (before ++ (register, .sameValue) :: after) caller =
      applyRules U info registers cfa (before ++ after) caller := by
  have hread : registers.read register = .ok v := by
    rw [← Except.toOption_eq_some, State.read_toOption, hslot, Option.bind_some, hvalue]
  rw [applyRules_append, applyRules_append]
  cases hbefore : applyRules U info registers cfa before caller with
  | error error => rfl
  | ok t =>
    have ht : t.value slot = some v := by rw [applyRules_free hslot hfree hbefore, hcaller]
    have hwrite : t.write register v = .ok t := by
      refine State.write_eq_ok.2 ⟨slot, hslot, State.ext ?_⟩
      rw [← ht, Function.update_eq_self]
    rw [Except.bind_ok, Except.bind_ok, applyRules, applyRule, hread, Except.bind_ok, hwrite,
      Except.bind_ok]

/-- **Explicit same-value rules.** A same-value rule for a register without one changes nothing
exactly when the register is available in the callee, or the row does not evaluate anyway. -/
theorem caller_sameValue {register : Register} {slot : Slot} (hslot : register.slot = some slot)
    (hrsp : register ≠ .RSP) (hra : register ≠ .RA) (hrow : info.row.registers = before ++ after)
    (hfree : register ∉ info.row.registers.map Prod.fst) :
    let rules := before ++ (register, .sameValue) :: after
    let explicit : Info := { info with row := { info.row with registers := rules } }
    (explicit.caller U registers).toOption = (info.caller U registers).toOption ↔
      (∃ v, registers.read register = .ok v) ∨ ¬info.Evaluates U registers := by
  intro rules explicit
  have hread : (registers.read register).toOption = registers.value slot := by
    rw [State.read_toOption, hslot, Option.bind_some]
  have hbefore : register ∉ before.map Prod.fst := by
    rw [hrow, List.map_append, List.mem_append, not_or] at hfree
    exact hfree.1
  cases hvalue : registers.value slot with
  | some v =>
    -- the rule writes what the caller inherits
    refine iff_of_true (congrArg _ ?_) (.inl ⟨v, Except.toOption_eq_some.1 (hread.trans hvalue)⟩)
    have hinherited (cfa : ℕ) : (⟨registers.inherited cfa⟩ : State).value slot = some v := by
      rw [Register.slot_eq_some] at hslot
      rw [← hvalue]
      cases slot <;> first | rfl | contradiction
    rw [caller_eq, caller_eq, hrow]
    congr 1
    funext cfa
    exact applyRules_row.trans (applyRules_sameValue hslot hvalue hbefore (hinherited cfa))
  | none =>
    have hfails : (explicit.caller U registers).toOption = none := by
      cases hexplicit : explicit.caller U registers with
      | error error => rfl
      | ok t =>
        obtain ⟨cfa, -, assigned, hassigned, -⟩ := caller_eq_ok.1 hexplicit
        obtain ⟨p, -, hslot', hrecover⟩ := Assign.forall₂_mem hassigned
          (List.mem_append_right before List.mem_cons_self)
        obtain rfl := Option.some.inj (hslot.symm.trans hslot')
        rw [RegisterRule.recover, hvalue] at hrecover
        cases hrecover
    have hunavailable : ¬∃ v, registers.read register = .ok v := by
      rintro ⟨v, hv⟩
      rw [hv, hvalue] at hread
      cases hread
    rw [hfails, or_iff_right hunavailable, ← exists_caller_iff]
    cases info.caller U registers <;> simp

end Info

end

attribute [local instance] Gimli.decoded in
/-- An explicit rule for a register that no capture makes available fails the frame. -/
theorem Info.caller_sameValue_fails : ¬∀ (U : Unwinder) (info : Info) (registers : State)
    (register : Register) (slot : Slot) (before after : List (Register × RegisterRule)),
    register.slot = some slot → register ≠ .RSP → register ≠ .RA →
    info.row.registers = before ++ after → register ∉ info.row.registers.map Prod.fst →
    let rules := before ++ (register, .sameValue) :: after
    let explicit : Info := { info with row := { info.row with registers := rules } }
    (explicit.caller U registers).toOption = (info.caller U registers).toOption := by
  let entries : ℕ → Option (Fde × Row) := fun _ => none
  let image : Image := ⟨entries, ⟨some 0, some 0, none⟩, 0, 1, none, by decide, rfl, rfl⟩
  let fde : Fde := ⟨⟨8, false, 1⟩, 90, false, none, none⟩
  let info : Info := ⟨image, fde, ⟨.registerAndOffset .RSP 8, [], 0⟩, 99⟩
  let state := State.captured ⟨fun _ => 1000⟩
  intro h
  have hsame := h (.decoded entries) info state ⟨2⟩ .rcx [] [] rfl (by decide) (by decide) rfl
    List.not_mem_nil
  cases hsame

attribute [local instance] Gimli.decoded in
/-- An explicit rule for a register every capture makes available. -/
theorem Info.caller_sameValue_preserved :
    let entries : ℕ → Option (Fde × Row) := fun _ => none
    let image : Image := ⟨entries, ⟨some 0, some 0, none⟩, 0, 1, none, by decide, rfl, rfl⟩
    let fde : Fde := ⟨⟨8, false, 1⟩, 90, false, none, none⟩
    let info (rules : List (Register × RegisterRule)) : Info :=
      ⟨image, fde, ⟨.registerAndOffset .RSP 8, rules, 0⟩, 99⟩
    let U := Unwinder.decoded entries
    let state := State.captured ⟨fun _ => 1000⟩
    ((info [(⟨3⟩, .sameValue)]).caller U state).toOption =
      ((info []).caller U state).toOption := by
  intro entries image fde info U state
  have hiff := @Info.caller_sameValue _ U (info []) state [] [] ⟨3⟩ .rbx rfl (by decide)
    (by decide) rfl List.not_mem_nil
  exact hiff.2 (.inl ⟨1000, rfl⟩)

end Desenredo.Unwind
