import Desenredo.Unwind.Entry
import Desenredo.Unwind.TransportTheorems

/-!
# The entry trampolines reach the semantic entries

A trampoline hands over its arguments and an image of its own caller, and when the semantic entry
comes back, the trampoline comes back to that caller. What is below the stack pointer of the
caller is all that changes.
-/

namespace Desenredo.Unwind.X86_64

open X86 Function

variable {s t : X86.State} {arguments : List Argument} {code : X86.Code} {a b : Word}

/-! ## Arguments on the stack -/

/-- The slot of an argument, in a frame at an address. -/
abbrev Argument.slot (frame : Word) (x : Argument) : Set Word :=
  Mem.block (frame + BitVec.ofNat 64 x.offset) 8

/-- The arguments are preserved in the frame, and other memory is left alone. -/
theorem straight_preserve {frame : Word} (hframe : s.gpr .rsp = frame)
    (hapart : arguments.Pairwise fun x y => Disjoint (x.slot frame) (y.slot frame)) : ∃ m,
      straight (arguments.map fun x => .movq (.reg x.arrives) (.mem x.offset .rsp)) s =
        some (withMemory s m) ∧
      (∀ x ∈ arguments, m.read (frame + BitVec.ofNat 64 x.offset) 8 = (s.gpr x.arrives).toNat) ∧
      ∀ region, (∀ x ∈ arguments, Disjoint region (x.slot frame)) →
        Set.EqOn m s.memory region := by
  subst hframe
  induction arguments generalizing s with
  | nil => exact ⟨s.memory, rfl, List.forall_mem_nil _, fun _ _ => Set.eqOn_refl _ _⟩
  | cons x arguments ih =>
    obtain ⟨hx, hapart⟩ := List.pairwise_cons.1 hapart
    let next := s.setWord (s.address x.offset .rsp) (s.gpr x.arrives)
    have heffect : (Instr.movq (.reg x.arrives) (.mem x.offset .rsp)).effect s = some next := rfl
    obtain ⟨m, hrun, hread, houtside⟩ := ih (s := next) hapart
    refine ⟨m, ?_, ?_, ?_⟩
    · rw [List.map_cons, straight_cons_of heffect, hrun]
      rfl
    · refine List.forall_mem_cons.2 ⟨?_, hread⟩
      -- the slots behind are apart from this one
      rw [Mem.read_congr (by decide) (houtside _ hx)]
      exact Mem.read_write_self _ _ (by decide) (s.gpr x.arrives).isLt
    · intro region hregion
      obtain ⟨hslot, hregion⟩ := List.forall_mem_cons.1 hregion
      refine (houtside region hregion).trans ?_
      exact (Mem.write_eqOn _ _ 8 _).mono hslot.subset_compl_right

/-- The arguments are passed on from the frame, and other registers are left alone. -/
theorem straight_pass (arguments : List Argument)
    (hdistinct : arguments.Pairwise fun x y => x.leaves ≠ y.leaves)
    (hrsp : ∀ x ∈ arguments, x.leaves ≠ .rsp) : ∃ g,
      straight (arguments.map fun x => .movq (.mem x.offset .rsp) (.reg x.leaves)) s =
        some { s with gpr := g } ∧
      (∀ x ∈ arguments, g x.leaves = s.word (s.address x.offset .rsp)) ∧
      ∀ r, (∀ x ∈ arguments, x.leaves ≠ r) → g r = s.gpr r := by
  induction arguments generalizing s with
  | nil => exact ⟨s.gpr, rfl, List.forall_mem_nil _, fun _ _ => rfl⟩
  | cons x arguments ih =>
    obtain ⟨hx, hdistinct⟩ := List.pairwise_cons.1 hdistinct
    obtain ⟨hxrsp, hrsp⟩ := List.forall_mem_cons.1 hrsp
    let next := s.set x.leaves (s.word (s.address x.offset .rsp))
    have heffect : (Instr.movq (.mem x.offset .rsp) (.reg x.leaves)).effect s = some next := rfl
    have hframe : next.gpr .rsp = s.gpr .rsp := State.set_gpr_of_ne (Ne.symm hxrsp) s _
    obtain ⟨g, hrun, hpassed, hkept⟩ := ih (s := next) hdistinct hrsp
    refine ⟨g, ?_, ?_, ?_⟩
    · rw [List.map_cons, straight_cons_of heffect, hrun]
      rfl
    · refine List.forall_mem_cons.2 ⟨?_, fun y hy => ?_⟩
      · rw [hkept x.leaves fun y hy => (hx y hy).symm]
        exact State.set_gpr_self s _ _
      · rw [hpassed y hy, State.address, hframe]
        rfl
    · intro r hr
      obtain ⟨hxr, hr⟩ := List.forall_mem_cons.1 hr
      rw [hkept r hr]
      exact State.set_gpr_of_ne (Ne.symm hxr) s _

/-! ## The frame of a trampoline -/

/-- The lowest address a trampoline writes, when it is called with a stack pointer: the return
address of what it calls, below its storage. -/
def lowest (stack : Word) : Word := stack - BitVec.ofNat 64 (STACK + 8)

/-- The storage of a trampoline that is called with a stack pointer. -/
def frame (stack : Word) : Word := stack - BitVec.ofNat 64 STACK

theorem frame_add (stack : Word) (k : ℕ) :
    frame stack + BitVec.ofNat 64 k = lowest stack + BitVec.ofNat 64 (8 + k) := by
  rw [frame, lowest, BitVec.ofNat_add, BitVec.ofNat_add]
  ring

theorem frame_eq (stack : Word) : frame stack = lowest stack + BitVec.ofNat 64 8 := by
  rw [frame, lowest, BitVec.ofNat_add]
  ring

theorem stack_eq (stack : Word) : stack = lowest stack + BitVec.ofNat 64 (STACK + 8) := by
  rw [lowest]
  ring

/-- The state of a trampoline that was called in another state: the arguments are preserved in
its storage, and its caller is untouched. -/
structure InFrame (entry : Entry) (s t : X86.State) : Prop where
  rsp : t.gpr .rsp = frame (s.gpr .rsp)
  arguments : ∀ x ∈ entry.arguments,
    t.memory.read (frame (s.gpr .rsp) + BitVec.ofNat 64 x.offset) 8 = (s.gpr x.arrives).toNat
  preserved : ∀ r ∈ preserved, t.gpr r = s.gpr r
  mxcsr : t.mxcsr = s.mxcsr
  fcw : t.fcw = s.fcw
  df : t.df = s.df
  outside : Set.EqOn t.memory s.memory (Mem.block (lowest (s.gpr .rsp)) (STACK + 8))ᶜ

/-- The semantic entry is called by a trampoline that was called in another state: it gets the
image of the caller of the trampoline and the arguments of the trampoline. -/
structure Dispatched (entry : Entry) (back : Word) (s t : X86.State) : Prop where
  rsp : t.gpr .rsp = lowest (s.gpr .rsp)
  back : t.word (t.gpr .rsp) = back
  rdi : t.gpr .rdi = frame (s.gpr .rsp)
  image : Registers.take t.memory (t.gpr .rdi) = Registers.called s (s.gpr .rsp)
  arguments : ∀ x ∈ entry.arguments, t.gpr x.leaves = s.gpr x.arrives
  preserved : ∀ r ∈ preserved, t.gpr r = s.gpr r
  mxcsr : t.mxcsr = s.mxcsr
  fcw : t.fcw = s.fcw
  df : t.df = s.df
  outside : Set.EqOn t.memory s.memory (Mem.block (lowest (s.gpr .rsp)) (STACK + 8))ᶜ

variable {entry : Entry} {capture next : Word}

theorem Entry.slot_subset {x : Argument} (hx : x ∈ entry.arguments) (stack : Word) :
    x.slot (frame stack) ⊆ Mem.block (lowest stack) (STACK + 8) := by
  obtain ⟨-, hle⟩ := entry.behind x hx
  rw [Argument.slot, frame_add]
  exact Mem.block_add_subset _ (by omega) (by decide)

theorem Entry.slots_apart (entry : Entry) (stack : Word) : entry.arguments.Pairwise fun x y =>
    Disjoint (x.slot (frame stack)) (y.slot (frame stack)) := by
  refine entry.apart.imp_of_mem fun {x y} _ hy hxy => ?_
  obtain ⟨-, hle⟩ := entry.behind y hy
  exact Mem.disjoint_offsets _ hxy (hle.trans (by decide))

/-- A state in the frame is one with another memory that keeps the arguments and the caller. -/
theorem InFrame.congr {u : X86.State} (h : InFrame entry s t) (hrsp : u.gpr .rsp = t.gpr .rsp)
    (hpreserved : ∀ r ∈ X86.preserved, u.gpr r = t.gpr r) (hmxcsr : u.mxcsr = t.mxcsr)
    (hfcw : u.fcw = t.fcw) (hdf : u.df = t.df)
    (hslots : ∀ x ∈ entry.arguments,
      Set.EqOn u.memory t.memory (x.slot (frame (s.gpr .rsp))))
    (houtside : Set.EqOn u.memory t.memory (Mem.block (lowest (s.gpr .rsp)) (STACK + 8))ᶜ) :
    InFrame entry s u where
  rsp := hrsp.trans h.rsp
  arguments x hx := by
    rw [Mem.read_congr (by decide) (hslots x hx)]
    exact h.arguments x hx
  preserved r hr := (hpreserved r hr).trans (h.preserved r hr)
  mxcsr := hmxcsr.trans h.mxcsr
  fcw := hfcw.trans h.fcw
  df := hdf.trans h.df
  outside := houtside.trans h.outside

/-! ## Up to the capture -/

/-- The instructions of an entry in front of the capture. -/
def Entry.prologue (entry : Entry) : List Instr :=
  [.subq (BitVec.ofNat 64 STACK) .rsp] ++
  entry.arguments.map (fun x => .movq (.reg x.arrives) (.mem x.offset .rsp)) ++
  [.leaq STACK .rsp .rsi, .movq (.reg .rsp) (.reg .rdi)]

/-- The instructions of an entry between the capture and the semantic entry. -/
def Entry.handover (entry : Entry) : List Instr :=
  entry.arguments.reverse.map (fun x => .movq (.mem x.offset .rsp) (.reg x.leaves)) ++
  [.movq (.reg .rsp) (.reg .rdi)]

theorem Entry.instructions_eq (entry : Entry) (capture next : Word) :
    entry.instructions capture next =
      entry.prologue ++ .callq capture :: (entry.handover ++ .callq next :: entry.leave) := by
  simp only [instructions, prologue, handover, List.append_assoc, List.cons_append,
    List.nil_append]

theorem Entry.straight_prologue (entry : Entry) (s : X86.State) : ∃ t,
    straight entry.prologue s = some t ∧ InFrame entry s t ∧ t.gpr .rsi = s.gpr .rsp ∧
      t.gpr .rdi = frame (s.gpr .rsp) := by
  let inside := s.set .rsp (frame (s.gpr .rsp))
  have hsub : (Instr.subq (BitVec.ofNat 64 STACK) .rsp).effect s = some inside := rfl
  obtain ⟨m, hrun, hread, houtside⟩ := straight_preserve (s := inside)
    (State.set_gpr_self s .rsp _) (entry.slots_apart (s.gpr .rsp))
  let ready := ((withMemory inside m).set .rsi
    ((withMemory inside m).address STACK .rsp)).set .rdi (frame (s.gpr .rsp))
  have hready : straight [.leaq STACK .rsp .rsi, .movq (.reg .rsp) (.reg .rdi)]
      (withMemory inside m) = some ready := rfl
  refine ⟨ready, ?_, ⟨rfl, fun x hx => ?_, fun r hr => ?_, rfl, rfl, rfl, ?_⟩, ?_, rfl⟩
  · rw [prologue, List.append_assoc, List.singleton_append, straight_cons_of hsub,
      straight_append, hrun, Option.bind_some, hready]
  · refine (hread x hx).trans ?_
    rw [State.set_gpr_of_ne (entry.arrives x hx)]
  · rw [State.set_gpr_of_ne (ne_of_mem_of_not_mem hr (by decide)),
      State.set_gpr_of_ne (ne_of_mem_of_not_mem hr (by decide))]
    exact State.set_gpr_of_ne (ne_of_mem_of_not_mem hr (by decide)) s _
  · refine houtside _ fun x hx => ?_
    exact (Set.disjoint_compl_left_iff_subset.2 (entry.slot_subset hx _))
  · exact BitVec.sub_add_cancel (s.gpr .rsp) (BitVec.ofNat 64 STACK)

/-! ## The capture -/

/-- What an image describes is what a call preserves and the word at the stack pointer. -/
theorem called_congr {stack : Word} (hpreserved : ∀ r ∈ preserved, t.gpr r = s.gpr r)
    (hmxcsr : t.mxcsr = s.mxcsr) (hfcw : t.fcw = s.fcw)
    (hra : t.memory.read stack 8 = s.memory.read stack 8) :
    Registers.called t stack = Registers.called s stack := by
  rw [Registers.called, Registers.called, hmxcsr, hfcw, hra, hpreserved .rbx (by decide),
    hpreserved .rbp (by decide), hpreserved .r12 (by decide), hpreserved .r13 (by decide),
    hpreserved .r14 (by decide), hpreserved .r15 (by decide)]

/-- Calling leaves the frame of the trampoline as it is. -/
theorem InFrame.push (h : InFrame entry s t) (v : Word) (region : Set Word)
    (hregion : Disjoint region (Mem.block (lowest (s.gpr .rsp)) 8)) :
    Set.EqOn (t.push v).memory t.memory region := by
  have hlowest : t.gpr .rsp - 8 = lowest (s.gpr .rsp) := by
    rw [h.rsp, frame_eq]
    exact BitVec.add_sub_cancel _ 8
  refine (Mem.write_eqOn t.memory (t.gpr .rsp - 8) 8 v.toNat).mono ?_
  rw [hlowest]
  exact hregion.subset_compl_right

theorem InFrame.push_rsp (h : InFrame entry s t) (v : Word) :
    (t.push v).gpr .rsp = lowest (s.gpr .rsp) := by
  rw [State.push_rsp, h.rsp, frame_eq]
  exact BitVec.add_sub_cancel _ 8

/-! ## Regions of the frame -/

section

variable (stack : Word)

theorem storage_subset : storage (frame stack) ⊆ Mem.block (lowest stack) (STACK + 8) := by
  rw [storage, frame_eq]
  exact Mem.block_add_subset _ (by decide) (by decide)

theorem lowest_subset : Mem.block (lowest stack) 8 ⊆ Mem.block (lowest stack) (STACK + 8) :=
  fun _ hx => Nat.lt_of_lt_of_le hx (by decide)

theorem storage_lowest : Disjoint (storage (frame stack)) (Mem.block (lowest stack) 8) := by
  have h := Mem.disjoint_offsets (lowest stack) (i := 0) (n := 8) (j := 8)
    (k := Registers.sizeOf) (by decide) (by decide)
  rw [BitVec.add_zero, ← frame_eq] at h
  exact h.symm

/-- The return address of the trampoline is above what it writes. -/
theorem frame_stack :
    Disjoint (Mem.block (lowest stack) (STACK + 8)) (Mem.block stack 8) := by
  have h := Mem.disjoint_offsets (lowest stack) (i := 0) (n := STACK + 8) (j := STACK + 8) (k := 8)
    (by decide) (by decide)
  rwa [BitVec.add_zero, ← stack_eq] at h

variable {x : Argument} (hx : x ∈ entry.arguments)
include hx

theorem Entry.slot_storage : Disjoint (x.slot (frame stack)) (storage (frame stack)) := by
  obtain ⟨hfirst, hle⟩ := entry.behind x hx
  have h := Mem.disjoint_offsets (frame stack) (i := 0) (n := Registers.sizeOf) (j := x.offset)
    (k := 8) (by rw [Nat.zero_add]; exact hfirst) (hle.trans (by decide))
  rw [BitVec.add_zero] at h
  exact h.symm

theorem Entry.slot_lowest : Disjoint (x.slot (frame stack)) (Mem.block (lowest stack) 8) := by
  obtain ⟨-, hle⟩ := entry.behind x hx
  have h := Mem.disjoint_offsets (lowest stack) (i := 0) (n := 8) (j := 8 + x.offset) (k := 8)
    (Nat.le_add_right 8 _) ((Nat.add_assoc 8 _ 8).trans_le
      ((Nat.add_le_add_left hle 8).trans (by decide)))
  rw [BitVec.add_zero, ← frame_add] at h
  exact h.symm

end

theorem InFrame.captures (h : InFrame entry s t) (back : Word)
    (hload : Loaded code capture Registers.entry b) (hrsi : t.gpr .rsi = s.gpr .rsp)
    (hrdi : t.gpr .rdi = frame (s.gpr .rsp)) : ∃ u,
      Reaches code ⟨capture, t.push back⟩ ⟨back, u⟩ ∧ InFrame entry s u ∧
      Registers.take u.memory (frame (s.gpr .rsp)) = Registers.called s (s.gpr .rsp) := by
  have hrsi' : (t.push back).gpr .rsi = s.gpr .rsp :=
    (State.push_gpr_of_ne (by decide) t back).trans hrsi
  have hrdi' : (t.push back).gpr .rdi = frame (s.gpr .rsp) :=
    (State.push_gpr_of_ne (by decide) t back).trans hrdi
  have hrsp' := h.push_rsp back
  obtain ⟨⟨rip, u⟩, hrun, hcaptured⟩ := Registers.entry_captures (s := t.push back) hload
    (by rw [hrsi', hrdi']; exact (frame_stack _).mono_left (storage_subset _))
    (by rw [hrsp', hrdi']; exact storage_lowest _)
  obtain rfl : rip = back := hcaptured.returns.rip.trans (State.word_push t back)
  have hmemory : ∀ region, Disjoint region (Mem.block (lowest (s.gpr .rsp)) 8) →
      Disjoint region (storage (frame (s.gpr .rsp))) →
      Set.EqOn u.memory t.memory region := fun region hlowest hstorage => by
    refine (hcaptured.outside.mono ?_).trans (h.push rip region hlowest)
    rw [show (Machine.mk capture (t.push rip)).state.gpr .rdi = _ from hrdi']
    exact hstorage.subset_compl_right
  have hpushed : ∀ r ∈ X86.preserved, (t.push rip).gpr r = t.gpr r := fun r hr =>
    State.push_gpr_of_ne (ne_of_mem_of_not_mem hr (by decide)) t rip
  have hinside : InFrame entry s u := by
    refine h.congr ?_ (fun r hr => ?_) hcaptured.returns.mxcsr hcaptured.returns.fcw hcaptured.df
      (fun x hx => ?_) ?_
    · refine hcaptured.returns.rsp.trans ?_
      show (t.push rip).gpr .rsp + 8 = _
      rw [State.push_rsp]
      exact BitVec.sub_add_cancel _ 8
    · exact (hcaptured.returns.preserved r hr).trans (hpushed r hr)
    · exact hmemory _ (Entry.slot_lowest _ hx) (Entry.slot_storage _ hx)
    · exact hmemory _ (Set.disjoint_compl_left_iff_subset.2 (lowest_subset _))
        (Set.disjoint_compl_left_iff_subset.2 (storage_subset _))
  refine ⟨u, hrun, hinside, ?_⟩
  have himage := hcaptured.image
  rw [show (Machine.mk capture (t.push rip)).state = t.push rip from rfl, hrdi', hrsi'] at himage
  refine himage.trans (called_congr (fun r hr => (hpushed r hr).trans (h.preserved r hr)) h.mxcsr
    h.fcw ?_)
  -- the return address of the trampoline is above the frame
  refine Mem.read_congr (by decide) ((h.push rip _ ?_).trans (h.outside.mono ?_))
  · exact ((frame_stack _).mono_left (lowest_subset _)).symm
  · exact (frame_stack _).subset_compl_left

/-! ## From the capture to the semantic entry -/

theorem take_congr {m m' : Mem 64} {p : Word} (h : Set.EqOn m m' (storage p)) :
    Registers.take m p = Registers.take m' p := by
  refine Registers.ext_cells ?_
  rw [cells_take, cells_take]
  funext slot
  exact Mem.read_congr (by decide) (h.mono (field_subset p slot le_rfl))

theorem InFrame.passes_on (h : InFrame entry s t)
    (himage : Registers.take t.memory (frame (s.gpr .rsp)) = Registers.called s (s.gpr .rsp)) :
    ∃ u, straight entry.handover t = some u ∧ ∀ back, Dispatched entry back s (u.push back) := by
  obtain ⟨g, hrun, hpassed, hkept⟩ := straight_pass (s := t) entry.arguments.reverse
    (List.pairwise_reverse.2 (entry.distinct.imp Ne.symm))
    (fun x hx hrsp => entry.leaves x (List.mem_reverse.1 hx) (hrsp ▸ List.mem_cons_self))
  have hother : ∀ r ∈ Gpr.rsp :: .rdi :: X86.preserved, g r = t.gpr r := fun r hr =>
    hkept r fun x hx => (ne_of_mem_of_not_mem hr (entry.leaves x (List.mem_reverse.1 hx))).symm
  let passed : X86.State := { t with gpr := g }
  let u := passed.set .rdi (g .rsp)
  have hrsp : u.gpr .rsp = t.gpr .rsp := hother .rsp (by decide)
  have hinside : InFrame entry s u := by
    refine h.congr hrsp (fun r hr => ?_) rfl rfl rfl (fun _ _ => Set.eqOn_refl _ _)
      (Set.eqOn_refl _ _)
    rw [State.set_gpr_of_ne (ne_of_mem_of_not_mem hr (by decide))]
    exact hother r (List.mem_cons_of_mem _ (List.mem_cons_of_mem _ hr))
  have hrdi : ∀ back, (u.push back).gpr .rdi = frame (s.gpr .rsp) := fun back => by
    rw [State.push_gpr_of_ne (by decide), State.set_gpr_self, hother .rsp (by decide), h.rsp]
  refine ⟨u, ?_, fun back => ⟨hinside.push_rsp back, State.word_push u back, hrdi back, ?_,
    fun x hx => ?_, fun r hr => ?_, h.mxcsr, h.fcw, h.df, ?_⟩⟩
  · rw [Entry.handover, straight_append, hrun]
    rfl
  · rw [hrdi, ← himage]
    exact take_congr (hinside.push back _ (storage_lowest _))
  · have hleaves := entry.leaves x hx
    have hne : ∀ r ∈ Gpr.rsp :: .rdi :: X86.preserved, x.leaves ≠ r := fun r hr =>
      (ne_of_mem_of_not_mem hr hleaves).symm
    rw [State.push_gpr_of_ne (hne _ (by decide)), State.set_gpr_of_ne (hne _ (by decide))]
    refine BitVec.eq_of_toNat_eq ?_
    rw [← h.arguments x hx, ← h.rsp]
    exact (congrArg BitVec.toNat (hpassed x (List.mem_reverse.2 hx))).trans (t.toNat_word _)
  · rw [State.push_gpr_of_ne (ne_of_mem_of_not_mem hr (by decide))]
    exact hinside.preserved r hr
  · refine (hinside.push back _ ?_).trans hinside.outside
    exact Set.disjoint_compl_left_iff_subset.2 (lowest_subset _)

/-- **Entry.** A trampoline reaches its semantic entry, and hands over the image of its caller and
its arguments. -/
theorem Entry.dispatches {c : Word} (entry : Entry) (s : X86.State)
    (hload : Loaded code a (entry.instructions capture next) b)
    (hcapture : Loaded code capture Registers.entry c) : ∃ back t,
      Reaches code ⟨a, s⟩ ⟨next, t⟩ ∧ Dispatched entry back s t ∧
      Loaded code back entry.leave b := by
  rw [entry.instructions_eq] at hload
  obtain ⟨ready, hprologue, hframe, hrsi, hrdi⟩ := entry.straight_prologue s
  obtain ⟨behind, hcall, hload⟩ := hload.calls hprologue
  obtain ⟨u, hreturn, hframe, himage⟩ := hframe.captures behind hcapture hrsi hrdi
  obtain ⟨v, hhandover, hdispatched⟩ := hframe.passes_on himage
  obtain ⟨back, hcall', hleave⟩ := hload.calls hhandover
  exact ⟨back, v.push back, (hcall.trans hreturn).trans hcall', hdispatched back, hleave⟩

/-! ## Back to the caller -/

/-- The stack is aligned at the semantic entry when it is at the trampoline. -/
theorem Dispatched.aligned {back : Word} (h : Dispatched entry back s t)
    (ha : Aligned ⟨a, s⟩) : Aligned ⟨next, t⟩ := by
  have hmod : (s.gpr .rsp).toNat % 16 = 8 := ha
  have hsize : (BitVec.ofNat 64 (STACK + 8)).toNat = 192 := rfl
  show (t.gpr .rsp).toNat % 16 = 8
  rw [h.rsp, lowest, BitVec.toNat_sub, hsize]
  omega

/-- When the semantic entry comes back as functions do, so does the trampoline, with its
result. -/
theorem Dispatched.comes_back {back rip : Word} {u : X86.State} (h : Dispatched entry back s t)
    (hleave : entry.leave = [.addq (BitVec.ofNat 64 STACK) .rsp, .retq])
    (hload : Loaded code back entry.leave b) (hreturns : Returns ⟨next, t⟩ ⟨rip, u⟩)
    (hcaller : Set.EqOn u.memory t.memory (Mem.block (s.gpr .rsp) 8)) : ∃ m',
      Reaches code ⟨rip, u⟩ m' ∧ Returns ⟨a, s⟩ m' ∧ m'.state.memory = u.memory ∧
      ∀ r, r ≠ .rsp → m'.state.gpr r = u.gpr r := by
  obtain rfl : rip = back := hreturns.rip.trans h.back
  rw [hleave] at hload
  have hframe : u.gpr .rsp = frame (s.gpr .rsp) := by
    refine hreturns.rsp.trans ?_
    show t.gpr .rsp + 8 = _
    rw [h.rsp, frame_eq]
    rfl
  let freed := u.set .rsp (u.gpr .rsp + BitVec.ofNat 64 STACK)
  have hrun : straight [.addq (BitVec.ofNat 64 STACK) .rsp] u = some freed := rfl
  have hrsp : freed.gpr .rsp = s.gpr .rsp := by
    rw [State.set_gpr_self, hframe]
    exact BitVec.sub_add_cancel _ _
  have hother : ∀ r, r ≠ .rsp → freed.pop.gpr r = u.gpr r := fun r hr =>
    (State.set_gpr_of_ne hr _ _).trans (State.set_gpr_of_ne hr _ _)
  refine ⟨_, Loaded.returns [.addq (BitVec.ofNat 64 STACK) .rsp] hload hrun,
    ⟨?_, ?_, fun r hr => ?_, hreturns.mxcsr.trans h.mxcsr, hreturns.fcw.trans h.fcw⟩, rfl, hother⟩
  · rw [hrsp]
    exact State.word_congr ((hcaller.trans
      (h.outside.mono (frame_stack _).subset_compl_left)))
  · exact (State.set_gpr_self _ _ _).trans (congrArg (· + 8) hrsp)
  · refine (hother r (ne_of_mem_of_not_mem hr (by decide))).trans ?_
    exact (hreturns.preserved r hr).trans (h.preserved r hr)

/-- **Hand-over.** A trampoline reaches its semantic entry on an aligned stack with the register
file of its caller and its arguments, and has changed nothing above its frame. The semantic entry
of the one that resumes has nowhere to come back to. -/
theorem Entry.hands_over {c : Word} (entry : Entry)
    (hload : Loaded code a (entry.instructions capture next) b)
    (hcapture : Loaded code capture Registers.entry c) (haligned : Aligned ⟨a, s⟩) : ∃ t,
      Reaches code ⟨a, s⟩ ⟨next, t⟩ ∧ Aligned ⟨next, t⟩ ∧
      state t.memory (t.gpr .rdi) = .captured (.called s (s.gpr .rsp)) ∧
      (∀ x ∈ entry.arguments, t.gpr x.leaves = s.gpr x.arrives) ∧
      (∀ r ∈ preserved, t.gpr r = s.gpr r) ∧ t.mxcsr = s.mxcsr ∧ t.fcw = s.fcw ∧ t.df = s.df ∧
      Set.EqOn t.memory s.memory (Mem.block (lowest (s.gpr .rsp)) (STACK + 8))ᶜ ∧
      (entry = resume → ∀ m', Returns ⟨next, t⟩ m' → step code m' = none) := by
  obtain ⟨back, t, hrun, h, hback⟩ := entry.dispatches s hload hcapture
  refine ⟨t, hrun, h.aligned haligned, congrArg State.captured h.image, h.arguments, h.preserved,
    h.mxcsr, h.fcw, h.df, h.outside, ?_⟩
  rintro rfl m' hreturns
  have hrip : m'.rip = back := hreturns.rip.trans h.back
  rw [← hrip] at hback
  exact step_ud2 hback m'.state

/-- The forced unwind takes its three arguments one register up. -/
theorem Entry.hands_over_force :
    let s : X86.State :=
      ⟨fun r => if r = .rsp then 4096 - 8 else 7, fun _ => 0, 0x1f80, 0x37f, true⟩
    let code := X86.Code.of (Registers.entry ++ force.instructions 0 100)
    ∃ t, Reaches code ⟨24, s⟩ ⟨100, t⟩ ∧ t.gpr .rcx = 7 := by
  intro s code
  have hcapture : Loaded code 0 Registers.entry 24 :=
    X86.Code.loaded_of [] Registers.entry (force.instructions 0 100) (by decide)
  have hload : Loaded code 24 (force.instructions 0 100) 38 := by
    have h := X86.Code.loaded_of Registers.entry (force.instructions 0 100) [] (by decide)
    rw [List.append_nil] at h
    exact h
  have haligned : (4096 - 8 : Word).toNat % 16 = 8 := by decide
  obtain ⟨t, hrun, -, -, harguments, -⟩ := Entry.hands_over force (s := s) hload hcapture haligned
  exact ⟨t, hrun, harguments ⟨.rdx, THIRD, .rcx⟩ (by decide)⟩

/-- **Transparency.** An entry but the one that resumes is as good as its semantic entry: when
that one, called in the state the trampoline hands over, comes back and has not changed the return
address of the caller, the trampoline comes back to the caller with the same result. -/
theorem Entry.transparent {c result : Word} (entry : Entry)
    (hentry : entry ∈ [raise, force, rethrow, trace])
    (hload : Loaded code a (entry.instructions capture next) b)
    (hcapture : Loaded code capture Registers.entry c)
    (hnext : ∀ back t, Dispatched entry back s t → ∃ m', Reaches code ⟨next, t⟩ m' ∧
      Returns ⟨next, t⟩ m' ∧ m'.state.gpr .rax = result ∧
      Set.EqOn m'.state.memory t.memory (Mem.block (s.gpr .rsp) 8)) :
    ∃ m', Reaches code ⟨a, s⟩ m' ∧ Returns ⟨a, s⟩ m' ∧ m'.state.gpr .rax = result := by
  have hleave : entry.leave = [.addq (BitVec.ofNat 64 STACK) .rsp, .retq] := by
    simp only [List.mem_cons, List.not_mem_nil, or_false] at hentry
    rcases hentry with rfl | rfl | rfl | rfl <;> rfl
  obtain ⟨back, t, hdispatch, hdispatched, hback⟩ := entry.dispatches s hload hcapture
  obtain ⟨⟨rip, u⟩, hrun, hreturns, hresult, hcaller⟩ := hnext back t hdispatched
  obtain ⟨m', hleaves, hreturns', -, hgpr⟩ := hdispatched.comes_back hleave hback hreturns hcaller
  exact ⟨m', (hdispatch.trans hrun).trans hleaves, hreturns',
    (hgpr .rax (by decide)).trans hresult⟩

/-- With a semantic entry that reports a failed phase one, that is the result of raising. -/
theorem Entry.transparent_raise :
    let s : X86.State := ⟨fun _ => 4096, fun _ => 0, 0x1f80, 0x37f, false⟩
    let next : List Instr := [.movq (.imm 3) (.reg .rax), .retq]
    let code := X86.Code.of (Registers.entry ++ (raise.instructions 0 34 ++ next))
    ∃ m', Reaches code ⟨24, s⟩ m' ∧ Returns ⟨24, s⟩ m' ∧ m'.state.gpr .rax = 3 := by
  intro s next code
  have hcapture : Loaded code 0 Registers.entry 24 :=
    X86.Code.loaded_of [] Registers.entry (raise.instructions 0 34 ++ next) (by decide)
  have hload : Loaded code 24 (raise.instructions 0 34) 34 :=
    X86.Code.loaded_of Registers.entry (raise.instructions 0 34) next (by decide)
  have hnext : Loaded code 34 next 36 := by
    have h := X86.Code.loaded_of (Registers.entry ++ raise.instructions 0 34) next [] (by decide)
    rw [List.append_nil, List.append_assoc] at h
    exact h
  refine Entry.transparent raise List.mem_cons_self hload hcapture fun back t _ => ?_
  let u := t.set .rax 3
  have hrun : straight [.movq (.imm 3) (.reg .rax)] t = some u := rfl
  refine ⟨_, Loaded.returns [.movq (.imm 3) (.reg .rax)] hnext hrun,
    ⟨rfl, rfl, fun r hr => ?_, rfl, rfl⟩, rfl, Set.eqOn_refl _ _⟩
  exact (State.set_gpr_of_ne (ne_of_mem_of_not_mem hr (by decide)) _ _).trans
    (State.set_gpr_of_ne (ne_of_mem_of_not_mem hr (by decide)) _ _)

end Desenredo.Unwind.X86_64
