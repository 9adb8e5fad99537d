import Desenredo.Unwind.CallerTheorems
import Desenredo.Unwind.Cursor

/-!
# Cursors

What resolving, reconstructing and stepping come to, and the stack pointer along a traversal.
-/

namespace Desenredo.Unwind

section

variable [Gimli]

/-! ## Registers -/

namespace State

variable {s t : State} {register : Register} {value : ℕ}

theorem HasStack.iff : s.HasStack ↔ (s.value .rsp).isSome := by
  rw [Option.isSome_iff_exists]
  simp only [HasStack, stack, read, Register.slot, Register.RSP, Option.okOr_eq_ok]

theorem HasStack.write (h : s.HasStack) (hw : s.write register value = .ok t) : t.HasStack := by
  obtain ⟨slot, -, rfl⟩ := write_eq_ok.1 hw
  rw [HasStack.iff] at h ⊢
  by_cases hslot : Slot.rsp = slot
  · subst hslot
    simp
  · simpa [Function.update_of_ne hslot] using h

theorem HasStack.clear (h : s.HasStack) (hne : register ≠ .RSP)
    (hc : s.clear register = .ok t) : t.HasStack := by
  obtain ⟨slot, hslot, rfl⟩ := clear_eq_ok.1 hc
  have hrsp : Slot.rsp ≠ slot := by
    rintro rfl
    exact hne (Register.slot_eq_some.1 hslot)
  rw [HasStack.iff] at h ⊢
  simpa [Function.update_of_ne hrsp] using h

theorem write_hasStack (h : s.write .RSP value = .ok t) : t.HasStack := by
  obtain ⟨slot, hslot, rfl⟩ := write_eq_ok.1 h
  obtain rfl : Slot.rsp = slot := Option.some.inj hslot
  rw [HasStack.iff]
  simp

end State

/-! ## Frames -/

namespace Info

variable {U : Unwinder} {info : Info} {registers : State}

omit [Gimli] in
theorem site_eq_some {state : State} {relation : Relation} {a : ℕ} :
    site state relation = some a ↔
      ∃ ip, state.ip = some ip ∧ ip ≠ 0 ∧ relation.site ip = some a := by
  unfold site
  split <;> simp_all

/-- A frame is resolved at the lookup address of its state, from the image there. -/
theorem new_eq_ok {state : State} {relation : Relation} :
    new U state relation = .ok (some info) ↔
      site state relation = some info.instruction ∧
      U.image info.instruction = some info.image ∧
      Gimli.fdeForAddress info.image.ehFrame info.image.bases info.instruction = .ok info.fde ∧
      Gimli.unwindInfoForAddress info.image.ehFrame info.image.bases info.fde
        info.instruction = .ok info.row := by
  unfold new
  cases hsite : site state relation with
  | none => simp
  | some a =>
    simp only [Except.bind_eq_ok_iff, Option.okOr_eq_ok, Except.mapError_eq_ok, Except.ok.injEq,
      Option.some.injEq]
    constructor
    · rintro ⟨image, himage, fde, hfde, row, hrow, rfl⟩
      exact ⟨rfl, himage, hfde, hrow⟩
    · rintro ⟨rfl, himage, hfde, hrow⟩
      exact ⟨_, himage, _, hfde, _, hrow, rfl⟩

theorem applyRule_hasStack {cfa : ℕ} {target : Register} {rule : RegisterRule}
    {caller next : State} (hrule : (target, rule) ≠ (.RSP, .undefined)) (h : caller.HasStack)
    (hstep : applyRule U info registers cfa target rule caller = .ok next) : next.HasStack := by
  obtain ⟨slot, value, hslot, hrecover, rfl⟩ := applyRule_eq_ok.1 hstep
  rw [State.HasStack.iff] at h ⊢
  by_cases hrsp : Slot.rsp = slot
  · -- the stack pointer's own rule recovers a value, or it would be the one that is excluded
    subst hrsp
    have htarget : target = .RSP := Register.slot_eq_some.1 hslot
    have hdefined : rule ≠ .undefined := fun heq => hrule (by rw [htarget, heq])
    simpa using RegisterRule.recover_isSome hrecover hdefined
  · simpa [Function.update_of_ne hrsp] using h

theorem applyRules_hasStack {cfa : ℕ} {rules : List (Register × RegisterRule)}
    {caller next : State} (hrules : (.RSP, .undefined) ∉ rules) (h : caller.HasStack)
    (hstep : applyRules U info registers cfa rules caller = .ok next) : next.HasStack := by
  induction rules generalizing caller with
  | nil =>
    cases hstep
    exact h
  | cons entry rules ih =>
    rw [List.mem_cons, not_or] at hrules
    obtain ⟨mid, hrule, hrest⟩ := Except.bind_eq_ok_iff.1 hstep
    exact ih hrules.2 (applyRule_hasStack (Ne.symm hrules.1) h hrule) hrest

/-- The caller has a stack pointer unless its row takes it away. -/
theorem caller_hasStack {caller : State} (hrules : (.RSP, .undefined) ∉ info.row.registers)
    (h : info.caller U registers = .ok caller) : caller.HasStack := by
  -- the stack pointer is the canonical frame address before the first rule
  obtain ⟨cfa, -, h⟩ := Except.bind_eq_ok_iff.1 h
  obtain ⟨written, hwritten, h⟩ := Except.bind_eq_ok_iff.1 h
  obtain ⟨cleared, hcleared, h⟩ := Except.bind_eq_ok_iff.1 h
  have hstack := State.write_hasStack hwritten
  exact applyRules_hasStack hrules (hstack.clear (by decide) hcleared) h

end Info

/-! ## Cursors -/

namespace Cursor

variable {U : Unwinder} {c next : Cursor} {info : Info}

theorem advance_eq_ok : c.advance U info = (.ok (), next) ↔
    ∃ caller, info.caller U c.state = .ok caller ∧ next = ⟨caller, info.callerRelation⟩ := by
  unfold advance
  cases info.caller U c.state with
  | error error => simp
  | ok caller => simp [eq_comm]

/-- The key of a fresh cursor is its stack pointer. -/
theorem key_new {state : State} {sp : ℕ} (h : state.stack = .ok sp) (hsp : sp < Usize.size) :
    (new state).key = .ok ⟨sp⟩ := by
  have hsub : Usize.wrappingSub sp 0 = sp := by
    rw [Usize.wrappingSub, Nat.sub_zero, Nat.add_mod_right, Nat.mod_eq_of_lt hsp]
  simp only [key, new, h, Relation.before, Except.bind_ok]
  exact congrArg (fun get => Except.ok (Key.mk get)) hsub

theorem advance_of_error {error : UnwindError} (h : info.caller U c.state = .error error) :
    c.advance U info = (.error error, c) := by
  rw [advance, h]

/-- A failing advance leaves the cursor as it was. -/
theorem advance_snd_of_error {error : UnwindError} (h : (c.advance U info).1 = .error error) :
    (c.advance U info).2 = c := by
  unfold advance at h ⊢
  cases hcaller : info.caller U c.state with
  | error error => rfl
  | ok caller => simp [hcaller] at h

/-- A failing step leaves the cursor as it was. -/
theorem step_snd_of_error {error : UnwindError} (h : (c.step U).1 = .error error) :
    (c.step U).2 = c := by
  unfold step at h ⊢
  split
  · rfl
  · rfl
  · split
    · rfl
    · split
      · rfl
      · simp_all

theorem step_of_caller {sp : ℕ} {caller : State} (hinfo : c.current U = .ok (some info))
    (hsp : c.stack = .ok sp) (hcaller : info.caller U c.state = .ok caller) :
    c.step U = (.ok (some ⟨info.ip, sp⟩), ⟨caller, info.callerRelation⟩) := by
  rw [current] at hinfo
  rw [stack] at hsp
  unfold step
  simp only [hinfo, hsp, hcaller]

theorem step_of_lost {sp : ℕ} {error : UnwindError} (hinfo : c.current U = .ok (some info))
    (hsp : c.stack = .ok sp) (hcaller : info.caller U c.state = .error error) :
    c.step U = (.error error, c) := by
  rw [current] at hinfo
  rw [stack] at hsp
  unfold step
  simp only [hinfo, hsp, hcaller]

theorem step_of_end (h : c.current U = .ok none) : c.step U = (.ok none, c) := by
  rw [current] at h
  rw [step, h]

theorem step_of_error {error : UnwindError} (h : c.current U = .error error) :
    c.step U = (.error error, c) := by
  rw [current] at h
  rw [step, h]

end Cursor

end

section

attribute [local instance] Gimli.decoded

/-- Where the section is given by its rows, a frame is one of them. -/
theorem Info.new_decoded {rows : ℕ → Option (Fde × Row)} {state : State} {relation : Relation}
    {info : Info} (h : Info.new (.decoded rows) state relation = .ok (some info)) :
    rows info.instruction = some (info.fde, info.row) := by
  obtain ⟨-, himage, hfde, hrow⟩ := Info.new_eq_ok.1 h
  have hrows : info.image.ehFrame = rows := by
    rw [Unwinder.decoded, Image.new, dif_pos (by decide), Option.some.injEq] at himage
    rw [← himage]
  rw [hrows] at hfde hrow
  change ((rows info.instruction).map Prod.fst).okOr () = _ at hfde
  change ((rows info.instruction).map Prod.snd).okOr () = _ at hrow
  cases hentry : rows info.instruction with
  | none => simp [hentry] at hfde
  | some entry =>
    simp only [hentry, Option.map_some, Option.okOr_some, Except.ok.injEq] at hfde hrow
    rw [← hfde, ← hrow]

/-! ## A stack of two calls -/

namespace Calls

/-- The description of a function with a personality routine. -/
def fde (routine : ℕ) : Fde := ⟨⟨8, false, 1⟩, 90, false, none, some (.direct routine)⟩

def row (back : ℕ) : Row := ⟨.registerAndOffset .RSP 8, [(.RA, .constant back)], 0⟩

/-- A function and the one that calls it, which has nobody to return to. The landing pad of the
inner one resumes in front of 150. -/
def rows : ℕ → Option (Fde × Row)
  | 99 | 149 => some (fde 500, row 200)
  | 199 => some (fde 600, row 0)
  | _ => none

def unwinder : Unwinder := .decoded rows

/-- The state in a call of the inner function. -/
def state (ip : ℕ) : State := .captured ⟨fun slot => if slot = .ra then ip else 1000⟩

/-- The cursor on the call of the outer function. -/
def outer (ip : ℕ) : Cursor := ((Cursor.new (state ip)).step unwinder).2

theorem key_state (ip : ℕ) : (Cursor.new (state ip)).key = .ok ⟨1000⟩ :=
  Cursor.key_new rfl (by decide)

theorem key_outer : (outer 100).key = .ok ⟨1008⟩ ∧ (outer 150).key = .ok ⟨1008⟩ := by
  have hkey (ip : ℕ) (h : (outer ip).state.stack = .ok 1008) :
      (Cursor.new (outer ip).state).key = .ok ⟨1008⟩ := Cursor.key_new h (by decide)
  exact ⟨hkey 100 rfl, hkey 150 rfl⟩

end Calls

end

end Desenredo.Unwind
