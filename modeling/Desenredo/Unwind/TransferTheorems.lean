import Desenredo.Unwind.EntryTheorems

/-!
# From an entry to a landing pad

The two ends of an unwind put together: what the register file makes of the image that an entry
captures, and what the machine becomes when the file is installed. In between the unwinder only
reads, writes and clears registers of the file.
-/

namespace Desenredo.Unwind.X86_64

open X86 Function

variable {s t : X86.State} {code : X86.Code} {a b c d capture next leap : Word}
  {ops : List Operation} {image : Install}

theorem called_preserved {r : Gpr} (hr : r ∈ preserved) (s : X86.State) (stack : Word) :
    (Registers.called s stack).cells.value (slotOf r) = (s.gpr r).toNat := by
  cases r <;> first | rfl | exact absurd hr (by decide)

theorem preserved_not_volatile {r : Gpr} (hr : r ∈ preserved) :
    (slotOf r).register ∉ volatile := by
  cases r <;> revert hr <;> decide

section

variable [Gimli]

/-- The register file the unwinder starts from, behind the call of an entry. -/
def started (s : X86.State) : State := .captured (Registers.called s (s.gpr .rsp))

/-- The register file that is installed after some operations. -/
def unwound (s : X86.State) (ops : List Operation) : State := Operation.run ops (started s)

/-- The word a register of the file stands for, where an unavailable one is zero. -/
def State.landing (s : State) (r : Gpr) : Word :=
  BitVec.ofNat 64 ((s.read (slotOf r).register).toOption.getD 0)

theorem landing_of_install {s : State} (h : s.install = .ok image) (slot : Slot) :
    image.registers.cells.value slot = (s.read slot.register).toOption.getD 0 := by
  rw [(State.cells_of_install h).2, State.read_of_slot (Register.slot_eq_some.2 rfl)]
  dsimp only
  cases s.cells.value slot <;> rfl

/-- A field that no operation is about is installed as captured. -/
theorem field_of_untouched (h : (unwound s ops).install = .ok image) (slot : Slot)
    (hslot : slot.register ∉ volatile) (hops : ∀ op ∈ ops, op.register ≠ slot.register) :
    image.registers.cells.value slot =
      (Registers.called s (s.gpr .rsp)).cells.value slot := by
  have hregister : slot.register.slot = some slot := Register.slot_eq_some.2 rfl
  have hread : (started s).read slot.register =
      .ok ((Registers.called s (s.gpr .rsp)).cells.value slot) := by
    rw [started, State.read_captured _ hregister, if_neg hslot]
  rw [landing_of_install h, unwound, State.read_of_slot hregister,
    Operation.run_of_ne hregister hops, ← State.read_of_slot hregister, hread]
  rfl

/-- The machine an unwind lands in, from the state in which the entry was called and what the
unwinder has done to the register file. What it has not touched is as it was then, and looks as if
the entry had returned. -/
structure Landed (s : X86.State) (ops : List Operation) (m' : Machine) : Prop where
  gpr : ∀ r, m'.state.gpr r = (unwound s ops).landing r
  preserved : ∀ r ∈ preserved, (∀ op ∈ ops, op.register ≠ (slotOf r).register) →
    m'.state.gpr r = s.gpr r
  rsp : (∀ op ∈ ops, op.register ≠ RSP) → m'.state.gpr .rsp = s.gpr .rsp + 8
  rip : (∀ op ∈ ops, op.register ≠ RA) → m'.rip = s.word (s.gpr .rsp)
  mxcsr : (∀ op ∈ ops, op.register ≠ MXCSR) → m'.state.mxcsr = s.mxcsr
  fcw : (∀ op ∈ ops, op.register ≠ FCW) → m'.state.fcw = s.fcw
  df : m'.state.df = false

theorem landed_of_install (h : (unwound s ops).install = .ok image) (m : Mem 64) :
    Landed s ops (image.registers.landing m) where
  gpr r := congrArg (BitVec.ofNat 64) (landing_of_install h (slotOf r))
  preserved r hr hops := by
    have hfield := field_of_untouched h _ (preserved_not_volatile hr) hops
    rw [called_preserved hr] at hfield
    exact (congrArg (BitVec.ofNat 64) hfield).trans (BitVec.ofNat_toNat 64 _)
  rsp hops := by
    have hrsp : image.registers.rsp = (s.gpr .rsp + 8).toNat :=
      field_of_untouched h .rsp (by decide) hops
    exact (congrArg (BitVec.ofNat 64) hrsp).trans (BitVec.ofNat_toNat 64 _)
  rip hops := by
    have hra : image.registers.ra = s.memory.read (s.gpr .rsp) 8 :=
      field_of_untouched h .ra (by decide) hops
    exact congrArg (BitVec.ofNat 64) hra
  mxcsr hops := by
    have hmxcsr : image.registers.mxcsr = s.mxcsr.toNat :=
      field_of_untouched h .mxcsr (by decide) hops
    exact (congrArg (BitVec.ofNat 32) hmxcsr).trans (BitVec.ofNat_toNat 32 _)
  fcw hops := by
    have hfcw : image.registers.fcw = s.fcw.toNat :=
      field_of_untouched h .fcw (by decide) hops
    exact (congrArg (BitVec.ofNat 16) hfcw).trans (BitVec.ofNat_toNat 16 _)
  df := rfl

/-- **Transfer.** When the semantic entry makes an image of the register file it is handed and
jumps to it, the unwind lands in the machine that the register file describes. -/
theorem Entry.lands (entry : Entry) (image : Install)
    (hload : Loaded code a (entry.instructions capture next) b)
    (hcapture : Loaded code capture Registers.entry c) (hleap : Loaded code leap Registers.jump d)
    (hmxcsr : image.registers.mxcsr % 2 ^ 32 < 2 ^ 16)
    (hnext : ∀ back t, Dispatched entry back s t →
      (Operation.run ops (state t.memory (t.gpr .rdi))).install = .ok image ∧
      ∃ u, Reaches code ⟨next, t⟩ ⟨leap, u⟩ ∧
        Registers.take u.memory (u.gpr .rdi) = image.registers ∧
        Disjoint (storage (u.gpr .rdi)) (Mem.block image.registers.scratch 8)) :
    ∃ m', Reaches code ⟨a, s⟩ m' ∧ Landed s ops m' := by
  obtain ⟨back, t, hdispatch, hdispatched, -⟩ := entry.dispatches s hload hcapture
  obtain ⟨hinstall, u, hrun, himage, hapart⟩ := hnext back t hdispatched
  rw [state, hdispatched.image] at hinstall
  exact ⟨_, (hdispatch.trans hrun).trans (Registers.jump_lands hleap himage hmxcsr hapart),
    landed_of_install hinstall _⟩

end

/-- A semantic entry that sets the landing-pad data of its caller and goes there. -/
theorem Entry.lands_caller :
    let s : X86.State := ⟨fun _ => 4096, fun _ => 0, 0x1f80, 0x37f, true⟩
    let next : List Instr :=
      stores [(.rax, .imm 1), (.rdx, .imm 2)] ++ (.jmp 0) :: []
    let code := X86.Code.of
      (Registers.jump ++ (Registers.entry ++ (raise.instructions 22 56 ++ next)))
    letI : Gimli := .decoded
    ∃ m', Reaches code ⟨46, s⟩ m' ∧ Landed s [.write RAX 1, .write RDX 2] m' := by
  intro s next code
  let _ : Gimli := .decoded
  have hleap : Loaded code 0 Registers.jump 22 :=
    X86.Code.loaded_of [] Registers.jump (Registers.entry ++ (raise.instructions 22 56 ++ next))
      (by decide)
  have hcapture : Loaded code 22 Registers.entry 46 :=
    X86.Code.loaded_of Registers.jump Registers.entry (raise.instructions 22 56 ++ next) (by decide)
  have hload : Loaded code 46 (raise.instructions 22 56) 56 := by
    have h := X86.Code.loaded_of (Registers.jump ++ Registers.entry) (raise.instructions 22 56) next
      (by decide)
    rw [List.append_assoc] at h
    exact h
  have hnext : Loaded code 56 next 59 := by
    have h := X86.Code.loaded_of
      (Registers.jump ++ (Registers.entry ++ raise.instructions 22 56)) next []
      (by decide)
    rw [List.append_nil, List.append_assoc, List.append_assoc] at h
    exact h
  let target : Install := ⟨{ Registers.called s 4096 with rax := 1, rdx := 2 }⟩
  refine Entry.lands raise target hload hcapture hleap (by decide) fun back t h => ?_
  obtain ⟨jump, hstores, hjump⟩ := Loaded.append_iff.1 hnext
  obtain ⟨m, hrun, hfilled⟩ := straight_stores (s := t) (l := [(.rax, .imm 1), (.rdx, .imm 2)])
    (by decide) rfl (Filled.refl _ _)
  have hfields : target.registers.cells.value = fill t [(.rax, .imm 1), (.rdx, .imm 2)]
      (Registers.called s (s.gpr .rsp)).cells.value := by
    funext slot
    cases slot <;> rfl
  have hscratch : target.registers.scratch = s.gpr .rsp := by decide
  refine ⟨?_, withMemory t m, (hstores.reaches hrun).tail (step_jmp hjump _),
    Filled.take_eq (m := t.memory) ?_, ?_⟩
  · rw [state, h.image]
    rfl
  · rw [← cells_take, h.image] at hfilled
    rw [hfields]
    exact hfilled
  · rw [hscratch, show (withMemory t m).gpr .rdi = _ from h.rdi]
    exact (frame_stack (s.gpr .rsp)).mono_left (storage_subset _)

end Desenredo.Unwind.X86_64
