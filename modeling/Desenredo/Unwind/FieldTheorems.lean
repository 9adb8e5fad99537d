import Desenredo.Unwind.CallerTheorems
import Desenredo.Unwind.Fields

/-!
# The register record is a file of cells

The tables of the record name the same field for the same register, so the record behaves as one
independent cell for each modelled register: every operation does to the cells what it does to
`State`.
-/

namespace Desenredo.Unwind.X86_64

open Usize

/-! ## Cells -/

/-- The fields of a raw image, by the slot they are named after. -/
def Registers.cells (registers : Registers) : Unwind.Registers where
  value
    | .rax => registers.rax
    | .rdx => registers.rdx
    | .rcx => registers.rcx
    | .rbx => registers.rbx
    | .rsi => registers.rsi
    | .rdi => registers.rdi
    | .rbp => registers.rbp
    | .rsp => registers.rsp
    | .r8 => registers.r8
    | .r9 => registers.r9
    | .r10 => registers.r10
    | .r11 => registers.r11
    | .r12 => registers.r12
    | .r13 => registers.r13
    | .r14 => registers.r14
    | .r15 => registers.r15
    | .ra => registers.ra
    | .mxcsr => registers.mxcsr
    | .fcw => registers.fcw

/-- The fields of the record, by the slot they are named after. -/
def State.cells (s : State) : Unwind.State where
  value
    | .rax => s.rax
    | .rdx => s.rdx
    | .rcx => s.rcx
    | .rbx => s.rbx
    | .rsi => s.rsi
    | .rdi => s.rdi
    | .rbp => s.rbp
    | .rsp => s.rsp
    | .r8 => s.r8
    | .r9 => s.r9
    | .r10 => s.r10
    | .r11 => s.r11
    | .r12 => s.r12
    | .r13 => s.r13
    | .r14 => s.r14
    | .r15 => s.r15
    | .ra => s.ra
    | .mxcsr => s.mxcsr
    | .fcw => s.fcw

namespace State

variable {s t : State} {register : Register} {slot : Slot} {value : ℕ}

theorem cells_captured (registers : Registers) :
    (captured registers).cells = .captured registers.cells := by
  ext1
  funext slot
  cases slot <;> rfl

variable [Gimli]

/-- The table of `read`. -/
theorem read_cells : s.read register = s.cells.read register := by
  cases hslot : register.slot with
  | none =>
    rw [Unwind.State.read, hslot]
    unfold read
    split
    case h_20 => rfl
    all_goals cases hslot
  | some slot =>
    obtain rfl := Register.slot_eq_some.1 hslot
    rw [Unwind.State.read, hslot]
    cases slot <;> rfl

/-- The table of `slot`. -/
theorem slot_cells (h : register.slot = some slot) : ∃ assign, s.slot register = .ok assign ∧
    ∀ value, (assign value).cells.value = Function.update s.cells.value slot value := by
  obtain rfl := Register.slot_eq_some.1 h
  cases slot <;> refine ⟨_, rfl, fun value => ?_⟩ <;> funext slot <;> cases slot <;> rfl

theorem slot_unmodelled (h : register.slot = none) :
    s.slot register = .error (.register register) := by
  unfold State.slot
  split
  case h_20 => rfl
  all_goals cases h

/-! ## Operations on cells -/

theorem write_of_slot (h : register.slot = some slot) (value : ℕ) : ∃ t,
    s.write register value = (.ok (), t) ∧
      t.cells.value = Function.update s.cells.value slot (some value) := by
  obtain ⟨assign, hassign, hcells⟩ := slot_cells h
  exact ⟨assign (some value), by rw [write, hassign], hcells _⟩

theorem clear_of_slot (h : register.slot = some slot) : ∃ t,
    s.clear register = (.ok (), t) ∧
      t.cells.value = Function.update s.cells.value slot none := by
  obtain ⟨assign, hassign, hcells⟩ := slot_cells h
  exact ⟨assign none, by rw [clear, hassign], hcells _⟩

theorem write_unmodelled (h : register.slot = none) (value : ℕ) :
    s.write register value = (.error (.register register), s) := by
  rw [write, slot_unmodelled h]

theorem clear_unmodelled (h : register.slot = none) :
    s.clear register = (.error (.register register), s) := by
  rw [clear, slot_unmodelled h]

theorem read_of_slot (h : register.slot = some slot) :
    s.read register = (s.cells.value slot).okOr (.unavailable register) := by
  rw [read_cells, Unwind.State.read, h]

theorem read_unmodelled (h : register.slot = none) :
    s.read register = .error (.register register) := by
  rw [read_cells, Unwind.State.read, h]

/-- Without a stack pointer there is nothing to adjust. -/
theorem adjust_unavailable (h : s.cells.value .rsp = none) (size : ℕ) :
    s.adjust size = (.error (.unavailable RSP), s) := by
  rw [adjust, read_of_slot (show RSP.slot = some .rsp from rfl), h, Option.okOr_none]

theorem adjust_available {rsp : ℕ} (h : s.cells.value .rsp = some rsp) (size : ℕ) :
    s.adjust size = s.write RSP (wrappingAdd rsp size) := by
  rw [adjust, read_of_slot (show RSP.slot = some .rsp from rfl), h, Option.okOr_some]

/-- What an operation does to the record it does to the cells, and failing it leaves the record as
it was. -/
def Simulates (s : State) (result : Except UnwindError Unit × State) :
    Except UnwindError Unwind.State → Prop
  | .ok cells => ∃ t, result = (.ok (), t) ∧ t.cells = cells
  | .error error => result = (.error error, s)

theorem write_simulates :
    Simulates s (s.write register value) (s.cells.write register value) := by
  rw [Unwind.State.write, Unwind.State.slot]
  cases hslot : register.slot with
  | none => exact write_unmodelled hslot value
  | some slot =>
    obtain ⟨t, ht, hcells⟩ := write_of_slot hslot value
    exact ⟨t, ht, congrArg Unwind.State.mk hcells⟩

theorem clear_simulates : Simulates s (s.clear register) (s.cells.clear register) := by
  rw [Unwind.State.clear, Unwind.State.slot]
  cases hslot : register.slot with
  | none => exact clear_unmodelled hslot
  | some slot =>
    obtain ⟨t, ht, hcells⟩ := clear_of_slot hslot
    exact ⟨t, ht, congrArg Unwind.State.mk hcells⟩

theorem adjust_simulates (size : ℕ) : Simulates s (s.adjust size) (s.cells.adjust size) := by
  have hread : s.cells.read Register.RSP = (s.cells.value .rsp).okOr (.unavailable RSP) := rfl
  rw [Unwind.State.adjust, hread]
  cases hrsp : s.cells.value .rsp with
  | none => exact adjust_unavailable hrsp size
  | some rsp =>
    rw [adjust_available hrsp]
    exact write_simulates

/-- The table of `install`. -/
theorem cells_of_install {image : Install} (h : s.install = .ok image) :
    (∀ slot ∈ Unwind.State.required, (s.cells.value slot).isSome) ∧
      image.registers.cells = ⟨fun slot => (s.cells.value slot).getD 0⟩ := by
  unfold install at h
  split at h
  · obtain rfl := Except.ok.inj h
    refine ⟨by simp [Unwind.State.required, cells, *], ?_⟩
    rw [Registers.cells]
    congr 1
    funext slot
    cases slot <;> simp [cells, *]
  · cases h

theorem install_of_cells (h : ∀ slot ∈ Unwind.State.required, (s.cells.value slot).isSome) :
    ∃ image, s.install = .ok image := by
  have hsome (slot : Slot) (hslot : slot ∈ Unwind.State.required) :
      s.cells.value slot = some ((s.cells.value slot).get (h slot hslot)) := by
    rw [Option.some_get]
  unfold install
  split
  · exact ⟨_, rfl⟩
  · rename_i hmissing
    exact (hmissing _ _ _ _ _ _ _ _ _ _ _ _ (hsome .rax (by decide)) (hsome .rdx (by decide))
      (hsome .rbx (by decide)) (hsome .rbp (by decide)) (hsome .rsp (by decide))
      (hsome .r12 (by decide)) (hsome .r13 (by decide)) (hsome .r14 (by decide))
      (hsome .r15 (by decide)) (hsome .ra (by decide)) (hsome .mxcsr (by decide))
      (hsome .fcw (by decide))).elim

/-- Installing the record and installing its cells give the same image. -/
theorem install_cells :
    (s.install.map fun image => image.registers.cells) = s.cells.install.map (·.registers) := by
  by_cases hrequired : ∀ slot ∈ Unwind.State.required, (s.cells.value slot).isSome
  · obtain ⟨image, himage⟩ := install_of_cells hrequired
    rw [himage, Unwind.State.install, if_pos hrequired]
    exact congrArg Except.ok (cells_of_install himage).2
  · rw [Unwind.State.install, if_neg hrequired]
    cases hinstall : s.install with
    | ok image => exact absurd (cells_of_install hinstall).1 hrequired
    | error error =>
      unfold install at hinstall
      split at hinstall
      · cases hinstall
      · cases hinstall
        rfl

end State

/-! ## Sequences of operations -/

/-- An operation that changes the record. -/
inductive Operation where
  | write (register : Register) (value : ℕ)
  | clear (register : Register)
  | adjust (size : ℕ)

namespace Operation

/-- The register an operation is about. -/
def register : Operation → Register
  | write register _ => register
  | clear register => register
  | adjust _ => RSP

/-- What an operation makes of the cell of its register. -/
def cell : Operation → Option ℕ → Option ℕ
  | write _ value, _ => some value
  | clear _, _ => none
  | adjust size, value => value.map (wrappingAdd · size)

variable [Gimli]

/-- Carries out an operation. -/
def apply : Operation → State → Except UnwindError Unit × State
  | write register value, s => s.write register value
  | clear register, s => s.clear register
  | adjust size, s => s.adjust size

/-- Carries out an operation on cells. -/
def applyCells : Operation → Unwind.State → Except UnwindError Unwind.State
  | write register value, s => s.write register value
  | clear register, s => s.clear register
  | adjust size, s => s.adjust size

/-- The state after a sequence of operations, whether they succeed or not. -/
def run (ops : List Operation) (s : State) : State := ops.foldl (fun s op => (op.apply s).2) s

/-- The cells after a sequence of operations. -/
def runCells (ops : List Operation) (s : Unwind.State) : Unwind.State :=
  ops.foldl (fun s op => (op.applyCells s).toOption.getD s) s

variable {s : State} {op : Operation} {ops before after : List Operation} {register : Register}
  {slot : Slot}

theorem apply_simulates : State.Simulates s (op.apply s) (op.applyCells s.cells) := by
  cases op with
  | write register value => exact State.write_simulates
  | clear register => exact State.clear_simulates
  | adjust size => exact State.adjust_simulates size

/-- The cells of the record are the state it stands for, along every run. -/
theorem run_simulates : (run ops s).cells = runCells ops s.cells := by
  induction ops generalizing s with
  | nil => rfl
  | cons op ops ih =>
    have hstep : (op.apply s).2.cells = (op.applyCells s.cells).toOption.getD s.cells := by
      have happly : State.Simulates s (op.apply s) (op.applyCells s.cells) := apply_simulates
      cases hcells : op.applyCells s.cells with
      | error error =>
        rw [hcells] at happly
        rw [show op.apply s = _ from happly]
        rfl
      | ok t =>
        rw [hcells] at happly
        obtain ⟨next, hnext, rfl⟩ := happly
        rw [hnext]
        rfl
    rw [run, List.foldl_cons, ← run, ih, hstep]
    rfl

/-- One operation changes the cell of its register and no other. -/
theorem apply_cells (h : op.register.slot = some slot) : (op.apply s).2.cells.value =
    Function.update s.cells.value slot (op.cell (s.cells.value slot)) := by
  cases op with
  | write register value =>
    obtain ⟨t, ht, hcells⟩ := State.write_of_slot h value
    exact (congrArg (fun result => result.2.cells.value) ht).trans hcells
  | clear register =>
    obtain ⟨t, ht, hcells⟩ := State.clear_of_slot h
    exact (congrArg (fun result => result.2.cells.value) ht).trans hcells
  | adjust size =>
    obtain rfl : Slot.rsp = slot := Option.some.inj h
    rw [apply, cell]
    cases hrsp : s.cells.value .rsp with
    | none =>
      rw [State.adjust_unavailable hrsp, Option.map_none, ← hrsp, Function.update_eq_self]
    | some rsp =>
      obtain ⟨t, ht, hcells⟩ := State.write_of_slot h (wrappingAdd rsp size)
      rw [State.adjust_available hrsp]
      exact (congrArg (fun result => result.2.cells.value) ht).trans hcells

/-- An operation on a register that is not modelled does nothing. -/
theorem apply_unmodelled (h : op.register.slot = none) :
    op.apply s = (.error (.register op.register), s) := by
  cases op with
  | write register value => exact State.write_unmodelled h value
  | clear register => exact State.clear_unmodelled h
  | adjust size => cases h

theorem apply_of_ne (hslot : register.slot = some slot) (hne : op.register ≠ register) :
    (op.apply s).2.cells.value slot = s.cells.value slot := by
  cases h : op.register.slot with
  | none => rw [apply_unmodelled h]
  | some other =>
    have hother : slot ≠ other := by
      rintro rfl
      exact hne (Register.slot_injective h hslot)
    rw [apply_cells h, Function.update_of_ne hother]

theorem run_of_ne (hslot : register.slot = some slot) (hne : ∀ op ∈ ops, op.register ≠ register) :
    (run ops s).cells.value slot = s.cells.value slot := by
  induction ops generalizing s with
  | nil => rfl
  | cons op ops ih =>
    obtain ⟨hop, hops⟩ := List.forall_mem_cons.1 hne
    rw [run, List.foldl_cons, ← run, ih hops, apply_of_ne hslot hop]

/-- The last operation on a register decides its cell. -/
theorem run_of_last (hslot : register.slot = some slot) (hop : op.register = register)
    (hne : ∀ op ∈ after, op.register ≠ register) :
    (run (before ++ op :: after) s).cells.value slot =
      op.cell ((run before s).cells.value slot) := by
  rw [run, List.foldl_append, List.foldl_cons, ← run, ← run, run_of_ne hslot hne,
    apply_cells (hop ▸ hslot), Function.update_self]

end Operation

/-! ## The register file -/

/-- The registers the call boundary does not preserve. -/
def volatile : List Register := [RAX, RDX, RCX, RSI, RDI, R8, R9, R10, R11]

/-- The registers a landing pad needs. -/
def required : List Register := [RAX, RDX, RBX, RBP, RSP, R12, R13, R14, R15, RA, MXCSR, FCW]

theorem required_eq : required = Unwind.State.required.map Slot.register := rfl

variable [Gimli]

theorem State.read_eq_ok {s : State} {register : Register} {slot : Slot} {value : ℕ}
    (h : register.slot = some slot) :
    s.read register = .ok value ↔ s.cells.value slot = some value := by
  rw [read_of_slot h, Option.okOr_eq_ok]

/-- A capture makes the preserved registers available. -/
theorem State.read_captured (registers : Registers) {register : Register} {slot : Slot}
    (h : register.slot = some slot) : (captured registers).read register =
      if register ∈ volatile then .error (.unavailable register)
      else .ok (registers.cells.value slot) := by
  obtain rfl := Register.slot_eq_some.1 h
  cases slot <;> rfl

theorem State.install_iff {s : State} : (∃ image, s.install = .ok image) ↔
    ∀ register ∈ required, ∃ value, s.read register = .ok value := by
  have hread (slot : Slot) : (∃ value, s.read slot.register = .ok value) ↔
      (s.cells.value slot).isSome := by
    simp only [read_eq_ok (Register.slot_eq_some.2 rfl), Option.isSome_iff_exists]
  rw [required_eq, List.forall_mem_map]
  simp only [hread]
  exact ⟨fun ⟨image, himage⟩ => (cells_of_install himage).1, install_of_cells⟩

/-- **Refinement.** After any operations on a capture the record reads and installs as the state
that goes through the same operations. -/
theorem state_refines (registers : Registers) (ops : List Operation) :
    let s := Operation.run ops (.captured registers)
    let t := Operation.runCells ops (.captured registers.cells)
    s.cells = t ∧ (∀ register, s.read register = t.read register) ∧
      (s.install.map fun image => image.registers.cells) = t.install.map (·.registers) := by
  intro s t
  have hcells : s.cells = t := by
    rw [Operation.run_simulates, State.cells_captured]
  exact ⟨hcells, fun register => hcells ▸ State.read_cells, hcells ▸ State.install_cells⟩

open Operation in
/-- **Register cells.** After any operations on a capture, the last operation on a register
decides what it reads as: the value written, unavailability, or the adjusted stack pointer. A
register without an operation reads as captured. Operations on other registers change nothing,
those on registers that are not modelled fail and leave the state as it was. Installation
succeeds when the required registers can be read, and installs what is read. -/
theorem state_is_cells (registers : Registers) (ops : List Operation) :
    let start := State.captured registers
    let s := run ops start
    (∀ register slot, register.slot = some slot →
      (∀ before op after, ops = before ++ op :: after → op.register = register →
        (∀ other ∈ after, other.register ≠ register) →
        s.read register = match op with
          | .write _ value => .ok value
          | .clear _ => .error (.unavailable register)
          | .adjust size => ((run before start).read register).map (wrappingAdd · size)) ∧
      ((∀ op ∈ ops, op.register ≠ register) → s.read register =
        if register ∈ volatile then .error (.unavailable register)
        else .ok (registers.cells.value slot)) ∧
      ∀ op : Operation, op.register ≠ register →
        (op.apply s).2.read register = s.read register) ∧
    (∀ register, register.slot = none → s.read register = .error (.register register)) ∧
    (∀ op : Operation, op.register.slot = none →
      op.apply s = (.error (.register op.register), s)) ∧
    ((∃ image, s.install = .ok image) ↔
      ∀ register ∈ required, ∃ value, s.read register = .ok value) ∧
    ∀ image, s.install = .ok image → ∀ register slot, register.slot = some slot →
      image.registers.cells.value slot = (s.read register).toOption.getD 0 := by
  intro start s
  refine ⟨fun register slot hslot => ⟨?_, fun hne => ?_, fun op hne => ?_⟩,
    fun register => State.read_unmodelled, fun op => apply_unmodelled, State.install_iff,
    fun image himage register slot hslot => ?_⟩
  · rintro before op after rfl hop hne
    have hcell : s.cells.value slot = op.cell ((run before start).cells.value slot) :=
      run_of_last hslot hop hne
    rw [State.read_of_slot hslot, hcell]
    cases op with
    | write _ value => rfl
    | clear _ => rfl
    | adjust size =>
      -- the operations before it still say whether there is a stack pointer to adjust
      rw [cell, State.read_of_slot hslot]
      cases (run before start).cells.value slot <;> rfl
  · rw [State.read_of_slot hslot, run_of_ne hslot hne, ← State.read_of_slot hslot]
    exact State.read_captured registers hslot
  · rw [State.read_of_slot hslot, State.read_of_slot hslot, apply_of_ne hslot hne]
  · rw [(State.cells_of_install himage).2, State.read_of_slot hslot]
    dsimp only
    cases s.cells.value slot <;> rfl

end Desenredo.Unwind.X86_64
