import Desenredo.Personality.Context
import Desenredo.Unwind.WalkTheorems

/-!
# Control transfer to a landing pad

A personality prepares a context by three register writes and answers that it is to be installed.
The registers that control is then transferred with are the reconstructed ones but for these three
and the stack pointer, which drops the arguments of the frame.
-/

namespace Desenredo.Personality

open Usize Unwind

/-- The registers a landing pad needs from the reconstruction of its frame. -/
def restored : List Slot := [.rbx, .rbp, .rsp, .r12, .r13, .r14, .r15, .mxcsr, .fcw]

/-- The registers of a landing pad: the exception, the selector in two's complement, the pad
itself and the stack pointer above the arguments. Any other register is the reconstructed one, zero
when it is unavailable. -/
def transferred (state : State) (size : ℕ) (pad : LandingPad) (exception : ExceptionRef)
    (selector : Selector) : Slot → ℕ
  | .rax => exception.ptr
  | .rdx => (selector.raw % 2 ^ 64).toNat
  | .ra => pad.address
  | .rsp => ((state.value .rsp).getD 0 + size) % 2 ^ 64
  | slot => (state.value slot).getD 0

/-- Control goes to the landing pad with these registers, unless one it needs is unavailable. -/
def Transfers (state : State) (size : ℕ) (pad : LandingPad) (exception : ExceptionRef)
    (selector : Selector) (exit : Exit) : Prop :=
  (exit = .returned .FATAL2 ↔ ∃ slot ∈ restored, state.value slot = none) ∧
    (exit ≠ .returned .FATAL2 →
      exit = .installed ⟨transferred state size pad exception selector⟩)

section

variable [Gimli]

/-! ## The prepared context -/

/-- The writes of a context reach the slots of their registers. -/
theorem replay_writes (callback : Callback) (context : InstalledContext) :
    (callback.replay context.writes).cursor.state.value =
      Function.update (Function.update (Function.update callback.cursor.state.value
        .rax (some context.exception)) .rdx (some (castUnsigned context.selector.raw)))
        .ra (some context.landingPad.address) := rfl

/-- Adjusting the stack pointer needs it and moves it. -/
theorem adjust_eq (s : State) (size : ℕ) :
    (s.value .rsp = none ∧ ∃ error, s.adjust size = .error error) ∨
    ∃ rsp, s.value .rsp = some rsp ∧
      s.adjust size = .ok ⟨Function.update s.value .rsp (some (wrappingAdd rsp size))⟩ := by
  cases hrsp : s.value .rsp with
  | none =>
    have hread : s.read .RSP = .error (.unavailable .RSP) := by
      rw [State.read, show Register.RSP.slot = some .rsp from rfl]
      show (s.value .rsp).okOr _ = _
      rw [hrsp, Option.okOr_none]
    exact .inl ⟨rfl, _, by rw [State.adjust, hread, Except.bind_error]⟩
  | some rsp =>
    have hread : s.read .RSP = .ok rsp := by
      rw [State.read, show Register.RSP.slot = some .rsp from rfl]
      show (s.value .rsp).okOr _ = _
      rw [hrsp, Option.okOr_some]
    refine .inr ⟨rsp, rfl, ?_⟩
    rw [State.adjust, hread, Except.bind_ok]
    rfl

/-- The slots a transfer replaces. -/
def replaced : List Slot := [.rax, .rdx, .ra, .rsp]

omit [Gimli] in
theorem replaced_or_restored :
    (∀ slot ∈ State.required, slot ∉ replaced → slot ∈ restored) ∧
      ∀ slot ∈ restored, slot ∈ State.required ∧ (slot ≠ .rsp → slot ∉ replaced) := by
  decide

omit [Gimli] in
/-- A state that keeps what a transfer does not replace is installable when the reconstruction has
what a landing pad needs. -/
theorem required_iff {state t : State} {rsp : ℕ} (hrsp : state.value .rsp = some rsp)
    (hset : ∀ slot ∈ replaced, (t.value slot).isSome)
    (hkeep : ∀ slot ∉ replaced, t.value slot = state.value slot) :
    (∀ slot ∈ State.required, (t.value slot).isSome) ↔
      ¬∃ slot ∈ restored, state.value slot = none := by
  obtain ⟨hsplit, hneeded⟩ := replaced_or_restored
  constructor
  · rintro hall ⟨slot, hmem, hnone⟩
    have havailable := hall slot (hneeded slot hmem).1
    by_cases hslot : slot = .rsp
    · rw [hslot, hrsp] at hnone
      cases hnone
    · rw [hkeep slot ((hneeded slot hmem).2 hslot), hnone] at havailable
      cases havailable
  · intro hnone slot hmem
    by_cases hslot : slot ∈ replaced
    · exact hset slot hslot
    · rw [hkeep slot hslot, Option.isSome_iff_ne_none]
      exact fun h => hnone ⟨slot, hsplit slot hmem hslot, h⟩

/-- A prepared context is transferred to. -/
theorem transfer_prepared (cursor : Cursor) (frame : Option Info) (info : Info)
    (f : CleanupFrame) (pad : LandingPad) (exception : ExceptionRef) (selector : Selector) :
    Transfers cursor.state info.args pad exception selector
      (Walk.transfer
        ((Callback.mk cursor frame).replay (f.install pad exception selector).writes).cursor
        info) := by
  have hvalue := replay_writes ⟨cursor, frame⟩ (f.install pad exception selector)
  generalize ((Callback.mk cursor frame).replay (f.install pad exception selector).writes).cursor =
    prepared at hvalue
  have hstack : prepared.state.value .rsp = cursor.state.value .rsp := by rw [hvalue]; rfl
  unfold Walk.transfer Cursor.adjust
  obtain ⟨hnone, error, hadjust⟩ | ⟨rsp, hrsp, hadjust⟩ := adjust_eq prepared.state info.args
  · rw [hadjust]
    exact ⟨iff_of_true rfl ⟨.rsp, by decide, hstack ▸ hnone⟩, fun h => absurd rfl h⟩
  · rw [hadjust]
    have hset : ∀ slot ∈ replaced, (Function.update prepared.state.value .rsp
        (some (wrappingAdd rsp info.args)) slot).isSome := by
      rw [hvalue]
      intro slot hslot
      cases slot <;> first | rfl | contradiction
    have hkeep : ∀ slot ∉ replaced, Function.update prepared.state.value .rsp
        (some (wrappingAdd rsp info.args)) slot = cursor.state.value slot := by
      rw [hvalue]
      intro slot hslot
      cases slot <;> first | rfl | exact absurd (by decide) hslot
    have hiff := required_iff (t := ⟨_⟩) (hstack ▸ hrsp) hset hkeep
    dsimp only [Cursor.take]
    by_cases hall : ∀ slot ∈ State.required, (Function.update prepared.state.value .rsp
        (some (wrappingAdd rsp info.args)) slot).isSome
    · rw [State.install, if_pos hall]
      refine ⟨iff_of_false Exit.noConfusion (hiff.1 hall), fun _ => ?_⟩
      have himage (slot : Slot) : (Function.update prepared.state.value .rsp
          (some (wrappingAdd rsp info.args)) slot).getD 0 =
          transferred cursor.state info.args pad exception selector slot := by
        rw [hvalue]
        cases slot <;> first | rfl | skip
        rw [transferred, ← hstack, hrsp]
        rfl
      simp only [himage]
    · rw [State.install, if_neg hall]
      exact ⟨iff_of_true rfl (not_not.1 (mt hiff.2 hall)), fun h => absurd rfl h⟩

/-! ## The loops -/

variable {W : Type} (w : Walk W)

/-- Calling a routine that prepares its frame and has it installed. -/
theorem personality_installs {s : Position W} {info : Info} {actions : Actions} {address : ℕ}
    (hroutine : w.routine info = .ok (some address))
    (hreason : (w.call s (some info) actions (w.code.personality address)).reply.reason =
      .INSTALL) :
    ∃ log, w.personality s info actions = ⟨log, .ok (some .INSTALL), Walk.after s (some info)
      (w.call s (some info) actions (w.code.personality address)).reply⟩ := by
  refine ⟨[.personality (w.call s (some info) actions (w.code.personality address))], ?_⟩
  rw [Walk.personality, hroutine]
  simp only [hreason]

/-- **Installation.** Wherever normal phase two or a forced pass stands, a personality that prepares
its frame and answers that it is to be installed ends the loop: with control at the landing pad and
exactly the prepared registers, or with a fatal error if the reconstruction lacks one. In a forced
pass the frame is prepared in the state its stop function leaves. -/
theorem install_transfers (start : Position W) (pad : LandingPad) (exception : ExceptionRef)
    (selector : Selector) :
    (∀ handler log s, Loop.Path (w.normalTurn handler) start log s →
      ∀ info key address, s.cursor.current w.unwinder = .ok (some info) →
      s.cursor.key = .ok key → w.routine info = .ok (some address) →
      let f : CleanupFrame := ⟨⟨s.cursor, some info⟩⟩
      let reply := (w.call s (some info) (Walk.mask handler key) (w.code.personality address)).reply
      reply.reason = .INSTALL → reply.writes = (f.install pad exception selector).writes →
      ∃ log exit, Loop.Leaves (w.normalTurn handler) start log (exit, reply.host) ∧
        Transfers s.cursor.state info.args pad exception selector exit) ∧
    ∀ forced log s, Loop.Path (w.forceTurn forced) start log s →
      ∀ info address, s.cursor.current w.unwinder = .ok (some info) →
      let stop := w.stopCall s (some info) (Walk.stopMask (some info)) forced
      stop.reply.reason = .NONE → w.routine info = .ok (some address) →
      let t := Walk.after s (some info) stop.reply
      let f : CleanupFrame := ⟨⟨t.cursor, some info⟩⟩
      let reply := (w.call t (some info) (.FORCE ||| .CLEANUP) (w.code.personality address)).reply
      reply.reason = .INSTALL → reply.writes = (f.install pad exception selector).writes →
      (stop.reply.writes = [] → t.cursor = s.cursor) ∧
      ∃ log exit, Loop.Leaves (w.forceTurn forced) start log (exit, reply.host) ∧
        Transfers t.cursor.state info.args pad exception selector exit := by
  constructor
  · intro handler log s hpath info key address hinfo hkey hroutine f reply hreason hwrites
    obtain ⟨called, hcalled⟩ := personality_installs w hroutine hreason
    have hbody : w.normalTurn handler s = .done (.frame s.cursor info :: called)
        (Walk.transfer (f.context.replay reply.writes).cursor info, reply.host) := by
      unfold Walk.normalTurn
      simp only [hinfo, hkey, hcalled]
      cases decide (key = handler) <;> rfl
    refine ⟨_, _, hpath.leaves ((Loop.leaves_done hbody).2 ⟨rfl, rfl⟩), ?_⟩
    rw [hwrites]
    exact transfer_prepared s.cursor (some info) info f pad exception selector
  · intro forced log s hpath info address hinfo stop hstop hroutine t f reply hreason hwrites
    obtain ⟨called, hcalled⟩ := personality_installs w hroutine hreason
    have hbody : w.forceTurn forced s = .done (.frame s.cursor info :: .stop stop :: called)
        (Walk.transfer (f.context.replay reply.writes).cursor info, reply.host) := by
      unfold Walk.forceTurn
      simp only [t, stop] at hstop hcalled
      simp only [hinfo, hstop, hcalled]
      rfl
    refine ⟨fun hquiet => ?_, _, _, hpath.leaves ((Loop.leaves_done hbody).2 ⟨rfl, rfl⟩), ?_⟩
    · show ((Callback.mk s.cursor (some info)).replay stop.reply.writes).cursor = s.cursor
      rw [hquiet, Callback.replay_nil]
    · rw [hwrites]
      exact transfer_prepared t.cursor (some info) info f pad exception selector

end

attribute [local instance] Gimli.decoded in
/-- A frame with saved arguments installed with a negative selector. -/
theorem install_transfers_once :
    let row : Row := ⟨.registerAndOffset .RSP 8, [(.RA, .constant 0)], 16⟩
    let fde : Fde := ⟨⟨8, false, 1⟩, 90, false, none, some (.direct 500)⟩
    let U := Unwinder.decoded fun address => if address = 99 then some (fde, row) else none
    let context : InstalledContext := ⟨⟨⟨7777, by decide⟩⟩, 4096, ⟨-1⟩⟩
    let code : Code Unit := ⟨fun _ _ host => ⟨.INSTALL, context.writes, host⟩,
      fun _ _ _ host => ⟨.NONE, [], host⟩⟩
    let host : Host Unit := ⟨fun _ => 7, ()⟩
    let state := State.captured ⟨fun slot => if slot = .ra then 100 else 1000⟩
    ∃ log registers, Loop.Leaves ((Walk.new U code 4096 host).normalTurn ⟨1000⟩)
        ⟨.new state, host⟩ log (.installed registers, host) ∧
      registers.value .rax = 4096 ∧ registers.value .rdx = 2 ^ 64 - 1 ∧
      registers.value .ra = 7777 ∧ registers.value .rsp = 1016 ∧ registers.value .rcx = 0 := by
  intro row fde U context code host state
  obtain ⟨info, hinfo, hroutine, hargs⟩ : ∃ info : Info,
      (Cursor.new state).current U = .ok (some info) ∧
      (Walk.new U code 4096 host).routine info = .ok (some 500) ∧ info.args = 16 :=
    ⟨_, rfl, rfl, rfl⟩
  have hkey : (Cursor.new state).key = .ok ⟨1000⟩ := Cursor.key_new rfl (by decide)
  obtain ⟨log, exit, hleaves, hfatal, hinstalled⟩ :=
    (install_transfers (Walk.new U code 4096 host) ⟨.new state, host⟩ ⟨⟨7777, by decide⟩⟩
      ⟨4096, host.memory⟩ ⟨-1⟩).1 ⟨1000⟩ [] _ (.nil _) info ⟨1000⟩ 500 hinfo hkey hroutine rfl rfl
  have hexit := hinstalled (mt hfatal.1 (by decide))
  subst hexit
  have hselector : ((-1 : ℤ) % 2 ^ 64).toNat = 2 ^ 64 - 1 := by decide
  refine ⟨log, _, hleaves, rfl, hselector, rfl, ?_, rfl⟩
  show (1000 + info.args) % 2 ^ 64 = 1016
  omega

end Desenredo.Personality
