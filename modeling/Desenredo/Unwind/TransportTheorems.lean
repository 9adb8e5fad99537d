import Desenredo.Unwind.Transport
import Desenredo.Unwind.FieldTheorems

/-!
# The register transport moves every register

What the naked routines do to a machine. They consist of runs of stores into an image and of
loads from one, and each run acts on the fields of the image as on independent cells: filling an
image changes no byte outside its storage, and an image that is installed reaches the machine
field by field.
-/

namespace Desenredo.Unwind.X86_64

open X86 Function

/-! ## Fields -/

/-- The fields of an image in order. -/
def fields : List Slot :=
  [.rax, .rdx, .rcx, .rbx, .rsi, .rdi, .rbp, .rsp, .r8, .r9, .r10, .r11, .r12, .r13, .r14, .r15,
    .ra, .mxcsr, .fcw]

/-- The words of the image at an address, by the fields they are in. -/
def image (m : Mem 64) (p : Word) : Slot → ℕ :=
  fun slot => m.read (p + BitVec.ofNat 64 (offsetOf slot)) 8

/-- The bytes of the image at an address. -/
abbrev storage (p : Word) : Set Word := Mem.block p Registers.sizeOf

variable {m m' : Mem 64} {p : Word} {slot slot' : Slot} {f : Slot → ℕ} {n v : ℕ} {s t : X86.State}

theorem cells_take (m : Mem 64) (p : Word) : (Registers.take m p).cells.value = image m p := by
  funext slot
  cases slot <;> rfl

theorem fields_offsetOf (slot : Slot) :
    fields[offsetOf slot / 8]? = some slot ∧ offsetOf slot % 8 = 0 := by
  cases slot <;> exact ⟨rfl, rfl⟩

theorem offsetOf_add_le (slot : Slot) : offsetOf slot + 8 ≤ Registers.sizeOf := by
  cases slot <;> decide

theorem offsetOf_apart (h : slot ≠ slot') :
    offsetOf slot + 8 ≤ offsetOf slot' ∨ offsetOf slot' + 8 ≤ offsetOf slot := by
  have hne : offsetOf slot ≠ offsetOf slot' := by
    intro heq
    have hfields := (fields_offsetOf slot).1
    rw [heq, (fields_offsetOf slot').1] at hfields
    exact h (Option.some.inj hfields).symm
  have hmod := (fields_offsetOf slot).2
  have hmod' := (fields_offsetOf slot').2
  omega

theorem field_subset (p : Word) (slot : Slot) (hn : n ≤ 8) :
    Mem.block (p + BitVec.ofNat 64 (offsetOf slot)) n ⊆ storage p := by
  have hslot := offsetOf_add_le slot
  exact Mem.block_add_subset p (by omega) (by decide)

theorem field_disjoint (p : Word) (h : slot ≠ slot') (hn : n ≤ 8) :
    Disjoint (Mem.block (p + BitVec.ofNat 64 (offsetOf slot)) 8)
      (Mem.block (p + BitVec.ofNat 64 (offsetOf slot')) n) := by
  have hslot := offsetOf_add_le slot
  have hslot' := offsetOf_add_le slot'
  rw [Registers.sizeOf] at hslot hslot'
  rcases offsetOf_apart h with hlt | hlt
  · exact Mem.disjoint_offsets p hlt (by omega)
  · exact (Mem.disjoint_offsets p (by omega) (by omega)).symm

/-! ## Filling an image -/

/-- The memory is another one but for the image at an address, which has these fields. -/
structure Filled (m : Mem 64) (p : Word) (m' : Mem 64) (f : Slot → ℕ) : Prop where
  outside : Set.EqOn m' m (storage p)ᶜ
  inside : image m' p = f

namespace Filled

theorem refl (m : Mem 64) (p : Word) : Filled m p m (image m p) := ⟨Set.eqOn_refl m _, rfl⟩

/-- What is read outside the storage is read as before. -/
theorem read_outside (h : Filled m p m' f) {a : Word} (hn : n ≤ 2 ^ 64)
    (ha : Disjoint (storage p) (Mem.block a n)) : m'.read a n = m.read a n :=
  Mem.read_congr hn (h.outside.mono ha.subset_compl_left)

/-- Writing the front part of a field whose back part is empty replaces the field. -/
theorem low (h : Filled m p m' f) (slot : Slot) (hn : n ≤ 8) (hslot : f slot < 256 ^ n)
    (hv : v < 256 ^ n) :
    Filled m p (m'.write (p + BitVec.ofNat 64 (offsetOf slot)) n v) (update f slot v) := by
  have hsize := offsetOf_add_le slot
  rw [Registers.sizeOf] at hsize
  constructor
  · refine ((Mem.write_eqOn _ _ n v).mono ?_).trans h.outside
    exact Set.compl_subset_compl.2 (field_subset p slot hn)
  · funext slot'
    by_cases hne : slot' = slot
    · subst hne
      rw [update_self]
      -- the back part of the field is not written, and is zero
      have hwhole := Mem.read_add m' (p + BitVec.ofNat 64 (offsetOf slot')) n (8 - n)
      rw [Nat.add_sub_cancel' hn, show m'.read _ 8 = f slot' from congrFun h.inside slot'] at hwhole
      have hback :
          m'.read (p + BitVec.ofNat 64 (offsetOf slot') + BitVec.ofNat 64 n) (8 - n) = 0 := by
        by_contra hback
        have := Nat.le_mul_of_pos_right (256 ^ n) (Nat.pos_of_ne_zero hback)
        omega
      have hdisjoint : Disjoint
          (Mem.block (p + BitVec.ofNat 64 (offsetOf slot') + BitVec.ofNat 64 n) (8 - n))
          (Mem.block (p + BitVec.ofNat 64 (offsetOf slot')) n) := by
        rw [BitVec.add_assoc, ← BitVec.ofNat_add]
        exact (Mem.disjoint_offsets p le_rfl (by omega)).symm
      rw [image, ← Nat.add_sub_cancel' hn, Mem.read_add, Mem.read_write_self _ _ (by omega) hv,
        Mem.read_write_disjoint _ (by omega) hdisjoint, hback, Nat.mul_zero, Nat.add_zero]
    · rw [update_of_ne hne, image,
        Mem.read_write_disjoint _ (by decide) (field_disjoint p hne hn)]
      exact congrFun h.inside slot'

theorem word (h : Filled m p m' f) (slot : Slot) (v : Word) :
    Filled m p (m'.write (p + BitVec.ofNat 64 (offsetOf slot)) 8 v.toNat)
      (update f slot v.toNat) := by
  refine h.low slot le_rfl ?_ v.isLt
  rw [← h.inside]
  exact Mem.read_lt _ _ _

end Filled

/-! ## Runs of stores and loads -/

/-- Stores an operand in each of some fields of the image at the first argument. -/
def stores (l : List (Slot × Operand)) : List Instr :=
  l.map fun (slot, src) => .movq src (.mem (offsetOf slot) .rdi)

/-- Loads each of some registers from a field of the image at the first argument. -/
def loads (l : List (Slot × Gpr)) : List Instr :=
  l.map fun (slot, r) => .movq (.mem (offsetOf slot) .rdi) (.reg r)

/-- The state with other memory. -/
def withMemory (s : X86.State) (m : Mem 64) : X86.State := { s with memory := m }

/-- An operand that is not in memory. -/
def Resident : Operand → Prop
  | .mem _ _ => False
  | _ => True

instance : DecidablePred Resident
  | .mem _ _ => .isFalse id
  | .imm _ => .isTrue trivial
  | .reg _ => .isTrue trivial

/-- The fields a run of stores leaves, from what they were. -/
def fill (s : X86.State) (l : List (Slot × Operand)) (f : Slot → ℕ) : Slot → ℕ :=
  l.foldl (fun f x => update f x.1 (x.2.value s).toNat) f

/-- The registers a run of loads leaves. -/
def fetch (s : X86.State) (l : List (Slot × Gpr)) : Gpr → Word :=
  l.foldl (fun g x => update g x.2 (BitVec.ofNat 64 (image s.memory (s.gpr .rdi) x.1))) s.gpr

/-- Operands outside memory have the same values in states with the same registers. -/
theorem fill_congr {l : List (Slot × Operand)} (hl : ∀ x ∈ l, Resident x.2)
    (hgpr : t.gpr = s.gpr) (f : Slot → ℕ) : fill t l f = fill s l f := by
  refine List.foldl_ext _ _ _ fun f x hx => ?_
  have hx := hl x hx
  cases hsrc : x.2 with
  | imm value => rfl
  | reg r => rw [Operand.value, Operand.value, hgpr]
  | mem _ _ => rw [hsrc] at hx; exact hx.elim

/-- A run of stores fills the fields with the operands and changes no register. -/
theorem straight_stores {l : List (Slot × Operand)} (hl : ∀ x ∈ l, Resident x.2)
    (hp : s.gpr .rdi = p) (h : Filled m p s.memory f) : ∃ m',
      straight (stores l) s = some (withMemory s m') ∧ Filled m p m' (fill s l f) := by
  subst hp
  induction l generalizing s f with
  | nil => exact ⟨s.memory, rfl, h⟩
  | cons x l ih =>
    obtain ⟨slot, src⟩ := x
    obtain ⟨hsrc, hl⟩ := List.forall_mem_cons.1 hl
    let next := s.setWord (s.address (offsetOf slot) .rdi) (src.value s)
    have heffect : (Instr.movq src (.mem (offsetOf slot) .rdi)).effect s = some next := by
      cases src with
      | mem _ _ => exact hsrc.elim
      | _ => rfl
    obtain ⟨m', hrun, hfilled⟩ := ih (s := next) hl (h.word slot (src.value s))
    refine ⟨m', ?_, ?_⟩
    · rw [stores, List.map_cons, ← stores, straight, heffect, Option.bind_some, hrun]
      rfl
    · rw [fill_congr hl (show next.gpr = s.gpr from rfl)] at hfilled
      exact hfilled

/-- A run of loads fetches the fields and changes nothing else. -/
theorem straight_loads {l : List (Slot × Gpr)} (hl : ∀ x ∈ l, x.2 ≠ .rdi) :
    straight (loads l) s = some { s with gpr := fetch s l } := by
  induction l generalizing s with
  | nil => rfl
  | cons x l ih =>
    obtain ⟨slot, r⟩ := x
    obtain ⟨hr, hl⟩ := List.forall_mem_cons.1 hl
    let next := s.set r (s.word (s.address (offsetOf slot) .rdi))
    have heffect : (Instr.movq (.mem (offsetOf slot) .rdi) (.reg r)).effect s = some next := rfl
    have hrdi : next.gpr .rdi = s.gpr .rdi := State.set_gpr_of_ne (Ne.symm hr) s _
    rw [loads, List.map_cons, ← loads, straight, heffect, Option.bind_some, ih hl, fetch, hrdi]
    rfl

/-! ## Capture -/

/-- The image of the caller of a function, from the state at the entry of the function and the
stack pointer there: what a call preserves, and zero elsewhere. -/
def Registers.called (s : X86.State) (stack : Word) : Registers :=
  { Registers.zeroed with
    rbx := (s.gpr .rbx).toNat
    rbp := (s.gpr .rbp).toNat
    rsp := (stack + 8).toNat
    r12 := (s.gpr .r12).toNat
    r13 := (s.gpr .r13).toNat
    r14 := (s.gpr .r14).toNat
    r15 := (s.gpr .r15).toNat
    ra := s.memory.read stack 8
    mxcsr := s.mxcsr.toNat
    fcw := s.fcw.toNat }

/-- Two states differ in memory and in a register that calls clobber at most. -/
structure Scratch (s t : X86.State) : Prop where
  gpr : ∀ r, r ≠ .rax → t.gpr r = s.gpr r
  mxcsr : t.mxcsr = s.mxcsr
  fcw : t.fcw = s.fcw
  df : t.df = s.df

namespace Scratch

theorem refl (s : X86.State) : Scratch s s := ⟨fun _ _ => rfl, rfl, rfl, rfl⟩

theorem trans {u : X86.State} (h : Scratch s t) (h' : Scratch t u) : Scratch s u where
  gpr r hr := (h'.gpr r hr).trans (h.gpr r hr)
  mxcsr := h'.mxcsr.trans h.mxcsr
  fcw := h'.fcw.trans h.fcw
  df := h'.df.trans h.df

theorem set (s : X86.State) (v : Word) : Scratch s (s.set .rax v) where
  gpr _ hr := State.set_gpr_of_ne hr s v
  mxcsr := rfl
  fcw := rfl
  df := rfl

theorem withMemory (s : X86.State) (m : Mem 64) : Scratch s (withMemory s m) where
  gpr _ _ := rfl
  mxcsr := rfl
  fcw := rfl
  df := rfl

end Scratch

/-- The instructions that save the caller's stack pointer and return address. -/
def saveFrame (stack : Gpr) : List Instr := [
  .leaq 8 stack .rax,
  .movq (.reg .rax) (.mem (offsetOf .rsp) .rdi),
  .movq (.mem 0 stack) (.reg .rax),
  .movq (.reg .rax) (.mem (offsetOf .ra) .rdi)]

/-- The instructions that save the control state. -/
def saveControl : List Instr := [
  .stmxcsr (offsetOf .mxcsr) .rdi,
  .fnstcw (offsetOf .fcw) .rdi]

theorem straight_saveFrame (stack : Gpr) (hstack : stack ≠ .rax) (hp : s.gpr .rdi = p)
    (h : Filled m p s.memory f) (hapart : Disjoint (storage p) (Mem.block (s.gpr stack) 8)) :
    ∃ t, straight (saveFrame stack) s = some t ∧ Scratch s t ∧
      Filled m p t.memory (update (update f .rsp (s.gpr stack + 8).toNat) .ra
        (m.read (s.gpr stack) 8)) := by
  subst hp
  let lea := s.set .rax (s.gpr stack + 8)
  let saved := lea.setWord (s.gpr .rdi + BitVec.ofNat 64 (offsetOf .rsp)) (s.gpr stack + 8)
  let v := saved.word (s.gpr stack)
  let read := saved.set .rax v
  let done := read.setWord (s.gpr .rdi + BitVec.ofNat 64 (offsetOf .ra)) v
  have hlea : (Instr.leaq 8 stack .rax).effect s = some lea := rfl
  have hsaved : (Instr.movq (.reg .rax) (.mem (offsetOf .rsp) .rdi)).effect lea = some saved := rfl
  -- the return address is read after the stack pointer is saved, outside the storage
  have hread : (Instr.movq (.mem 0 stack) (.reg .rax)).effect saved = some read := by
    have haddress : saved.address 0 stack = s.gpr stack := by
      rw [State.address, BitVec.add_zero]
      exact State.set_gpr_of_ne hstack s _
    rw [Instr.effect, Operand.value, haddress]
  have hdone : (Instr.movq (.reg .rax) (.mem (offsetOf .ra) .rdi)).effect read = some done := rfl
  refine ⟨done, ?_, ?_, ?_⟩
  · rw [saveFrame, straight_cons_of hlea, straight_cons_of hsaved, straight_cons_of hread,
      straight_cons_of hdone]
    rfl
  · exact (((Scratch.set s _).trans (Scratch.withMemory lea _)).trans (Scratch.set saved v)).trans
      (Scratch.withMemory read _)
  · have hrsp : Filled m (s.gpr .rdi) saved.memory _ := h.word .rsp (s.gpr stack + 8)
    have hv : v.toNat = m.read (s.gpr stack) 8 :=
      (State.toNat_word saved _).trans (hrsp.read_outside (by decide) hapart)
    rw [← hv]
    exact hrsp.word .ra v

theorem straight_saveControl (hp : s.gpr .rdi = p) (h : Filled m p s.memory f)
    (hmxcsr : f .mxcsr < 2 ^ 32) (hfcw : f .fcw < 2 ^ 16) : ∃ m',
      straight saveControl s = some (withMemory s m') ∧
      Filled m p m' (update (update f .mxcsr s.mxcsr.toNat) .fcw s.fcw.toNat) := by
  subst hp
  have h' := h.low .mxcsr (n := 4) (by decide) hmxcsr s.mxcsr.isLt
  refine ⟨_, rfl, h'.low .fcw (n := 2) (by decide) ?_ s.fcw.isLt⟩
  rw [update_of_ne (by decide)]
  exact hfcw

/-- An image is its words. -/
theorem Registers.ext_cells {registers registers' : Registers}
    (h : registers.cells.value = registers'.cells.value) : registers = registers' := by
  cases registers
  cases registers'
  rw [Registers.mk.injEq]
  exact ⟨congrFun h .rax, congrFun h .rdx, congrFun h .rcx, congrFun h .rbx, congrFun h .rsi,
    congrFun h .rdi, congrFun h .rbp, congrFun h .rsp, congrFun h .r8, congrFun h .r9,
    congrFun h .r10, congrFun h .r11, congrFun h .r12, congrFun h .r13, congrFun h .r14,
    congrFun h .r15, congrFun h .ra, congrFun h .mxcsr, congrFun h .fcw⟩

theorem Filled.take_eq {registers : Registers} (h : Filled m p m' registers.cells.value) :
    Registers.take m' p = registers :=
  Registers.ext_cells ((cells_take m' p).trans h.inside)

/-- The registers that calls preserve, and the fields they are saved in. -/
def saveCallee : List (Slot × Operand) :=
  [(.rbx, .reg .rbx), (.rbp, .reg .rbp), (.r12, .reg .r12), (.r13, .reg .r13), (.r14, .reg .r14),
    (.r15, .reg .r15)]

/-- What a capture leaves to its caller: it returned, the image is the one of the caller of the
function with the stack pointer, and nothing else changed. -/
structure Captured (stack : Word) (m m' : Machine) : Prop where
  returns : Returns m m'
  gpr : ∀ r, r ≠ .rax → r ≠ .rsp → m'.state.gpr r = m.state.gpr r
  df : m'.state.df = m.state.df
  outside : Set.EqOn m'.state.memory m.state.memory (storage (m.state.gpr .rdi))ᶜ
  image : Registers.take m'.state.memory (m.state.gpr .rdi) = Registers.called m.state stack

/-- A capture is over once the image is filled and control returns. -/
theorem captured_of_filled {a stack : Word} (hscratch : Scratch s t)
    (hfilled : Filled s.memory (s.gpr .rdi) t.memory (Registers.called s stack).cells.value)
    (hapart : Disjoint (storage (s.gpr .rdi)) (Mem.block (s.gpr .rsp) 8)) :
    Captured stack ⟨a, s⟩ ⟨t.word (t.gpr .rsp), t.pop⟩ := by
  have hrsp : t.gpr .rsp = s.gpr .rsp := hscratch.gpr .rsp (by decide)
  have hgpr : ∀ r, r ≠ .rax → r ≠ .rsp → t.pop.gpr r = s.gpr r := by
    intro r hrax hr
    rw [State.pop, State.set_gpr_of_ne hr, hscratch.gpr r hrax]
  refine ⟨⟨?_, ?_, fun r hr => ?_, hscratch.mxcsr, hscratch.fcw⟩, hgpr, hscratch.df,
    hfilled.outside, hfilled.take_eq⟩
  · rw [hrsp]
    exact State.word_congr (hfilled.outside.mono hapart.subset_compl_left)
  · exact (State.set_gpr_self t .rsp _).trans (by rw [hrsp])
  · have hrax : Gpr.rax ∉ preserved := by decide
    have hrsp : Gpr.rsp ∉ preserved := by decide
    exact hgpr r (ne_of_mem_of_not_mem hr hrax) (ne_of_mem_of_not_mem hr hrsp)

/-- **The entry capture describes the caller.** -/
theorem Registers.entry_captures {code : X86.Code} {a b : Word} (hload : Loaded code a entry b)
    (hstack : Disjoint (storage (s.gpr .rdi)) (Mem.block (s.gpr .rsi) 8))
    (hreturn : Disjoint (storage (s.gpr .rdi)) (Mem.block (s.gpr .rsp) 8)) :
    ∃ m', Reaches code ⟨a, s⟩ m' ∧ Captured (s.gpr .rsi) ⟨a, s⟩ m' := by
  let scratch : List (Slot × Operand) := [(.rax, .imm 0), (.rdx, .imm 0), (.rcx, .imm 0),
    (.rsi, .imm 0), (.rdi, .imm 0), (.r8, .imm 0), (.r9, .imm 0), (.r10, .imm 0), (.r11, .imm 0)]
  let control : List (Slot × Operand) := [(.mxcsr, .imm 0), (.fcw, .imm 0)]
  have hentry : entry = (stores (scratch ++ saveCallee) ++ saveFrame .rsi ++ stores control ++
    saveControl) ++ [.retq] := rfl
  rw [hentry] at hload
  obtain ⟨m₁, hrun₁, hfilled₁⟩ := straight_stores (l := scratch ++ saveCallee) (by decide) rfl
    (Filled.refl s.memory (s.gpr .rdi))
  obtain ⟨s₂, hrun₂, hscratch₂, hfilled₂⟩ := straight_saveFrame (s := withMemory s m₁)
    .rsi (by decide) rfl hfilled₁ hstack
  have hrdi : s₂.gpr .rdi = s.gpr .rdi := hscratch₂.gpr .rdi (by decide)
  obtain ⟨m₃, hrun₃, hfilled₃⟩ := straight_stores (l := control) (by decide) hrdi hfilled₂
  obtain ⟨m₄, hrun₄, hfilled₄⟩ := straight_saveControl (s := withMemory s₂ m₃) hrdi hfilled₃
    (Nat.two_pow_pos 32) (Nat.two_pow_pos 16)
  let t := withMemory (withMemory s₂ m₃) m₄
  have hrun : straight (stores (scratch ++ saveCallee) ++ saveFrame .rsi ++ stores control ++
      saveControl) s = some t := by
    rw [straight_append, straight_append, straight_append, hrun₁, Option.bind_some, hrun₂,
      Option.bind_some, hrun₃, Option.bind_some, hrun₄]
  have hscratch : Scratch s t := ((Scratch.withMemory s m₁).trans hscratch₂).trans
    ((Scratch.withMemory s₂ m₃).trans (Scratch.withMemory _ m₄))
  have hfilled : Filled s.memory (s.gpr .rdi) m₄ (called s (s.gpr .rsi)).cells.value := by
    convert hfilled₄ using 1
    rw [show (withMemory s₂ m₃).mxcsr = s.mxcsr from hscratch₂.mxcsr,
      show (withMemory s₂ m₃).fcw = s.fcw from hscratch₂.fcw]
    funext slot
    cases slot <;> rfl
  exact ⟨_, hload.returns _ hrun, captured_of_filled hscratch hfilled hreturn⟩

/-- **The capture of the calling function.** Into zeroed storage it is an entry capture at its own
stack pointer. -/
theorem Registers.save_captures {code : X86.Code} {a b : Word} (hload : Loaded code a save b)
    (hzeroed : take s.memory (s.gpr .rdi) = zeroed)
    (hreturn : Disjoint (storage (s.gpr .rdi)) (Mem.block (s.gpr .rsp) 8)) :
    ∃ m', Reaches code ⟨a, s⟩ m' ∧ Captured (s.gpr .rsp) ⟨a, s⟩ m' := by
  have hsave : save = (stores saveCallee ++ saveFrame .rsp ++ saveControl) ++ [.retq] := rfl
  rw [hsave] at hload
  have hrefl := Filled.refl s.memory (s.gpr .rdi)
  rw [← cells_take, hzeroed] at hrefl
  obtain ⟨m₁, hrun₁, hfilled₁⟩ := straight_stores (l := saveCallee) (by decide) rfl hrefl
  obtain ⟨s₂, hrun₂, hscratch₂, hfilled₂⟩ := straight_saveFrame (s := withMemory s m₁)
    .rsp (by decide) rfl hfilled₁ hreturn
  have hrdi : s₂.gpr .rdi = s.gpr .rdi := hscratch₂.gpr .rdi (by decide)
  obtain ⟨m₃, hrun₃, hfilled₃⟩ := straight_saveControl hrdi hfilled₂
    (Nat.two_pow_pos 32) (Nat.two_pow_pos 16)
  let t := withMemory s₂ m₃
  have hrun : straight (stores saveCallee ++ saveFrame .rsp ++ saveControl) s = some t := by
    rw [straight_append, straight_append, hrun₁, Option.bind_some, hrun₂, Option.bind_some, hrun₃]
  have hscratch : Scratch s t :=
    ((Scratch.withMemory s m₁).trans hscratch₂).trans (Scratch.withMemory s₂ m₃)
  have hfilled : Filled s.memory (s.gpr .rdi) m₃ (called s (s.gpr .rsp)).cells.value := by
    convert hfilled₃ using 1
    rw [show s₂.mxcsr = s.mxcsr from hscratch₂.mxcsr, show s₂.fcw = s.fcw from hscratch₂.fcw]
    funext slot
    cases slot <;> rfl
  exact ⟨_, hload.returns _ hrun, captured_of_filled hscratch hfilled hreturn⟩

/-- A caller whose stack pointer is 4096 and whose image is to go to 8192. -/
theorem Registers.save_captures_caller :
    let s : X86.State :=
      ⟨fun r => if r = .rdi then 8192 else 4096, fun _ => 0, 0x1f80, 0x37f, false⟩
    ∃ m', Reaches (X86.Code.of save) ⟨0, s⟩ m' ∧ Captured 4096 ⟨0, s⟩ m' := by
  intro s
  have hload : Loaded (X86.Code.of save) 0 save 13 := by
    have h := X86.Code.loaded_of [] save [] (by decide)
    rw [List.append_nil] at h
    exact h
  have hread : ∀ p, s.memory.read p 8 = 0 := fun p => by
    rw [Mem.read, Mem.load, List.map_const']
    rfl
  have hzeroed : take s.memory (s.gpr .rdi) = zeroed := by
    simp only [take, hread, zeroed]
  have hapart := (Mem.disjoint_offsets (4096 : Word) (i := 0) (n := 8) (j := 4096)
    (k := Registers.sizeOf) (by decide) (by decide)).symm
  rw [BitVec.add_zero] at hapart
  exact Registers.save_captures hload hzeroed hapart

/-! ## Installation -/

/-- The field of a general register. -/
def slotOf : Gpr → Slot
  | .rax => .rax
  | .rcx => .rcx
  | .rdx => .rdx
  | .rbx => .rbx
  | .rsp => .rsp
  | .rbp => .rbp
  | .rsi => .rsi
  | .rdi => .rdi
  | .r8 => .r8
  | .r9 => .r9
  | .r10 => .r10
  | .r11 => .r11
  | .r12 => .r12
  | .r13 => .r13
  | .r14 => .r14
  | .r15 => .r15

/-- The machine that an image describes, with the given memory. -/
def Registers.landing (registers : Registers) (m : Mem 64) : Machine where
  rip := BitVec.ofNat 64 registers.ra
  state := {
    gpr := fun r => BitVec.ofNat 64 (registers.cells.value (slotOf r))
    memory := m
    mxcsr := BitVec.ofNat 32 registers.mxcsr
    fcw := BitVec.ofNat 16 registers.fcw
    df := false }

/-- The word below the stack of an image, which the installation uses for the return address. -/
def Registers.scratch (registers : Registers) : Word := BitVec.ofNat 64 registers.rsp - 8

/-- The front part of a field. -/
theorem read_field (hcells : image s.memory (s.gpr .rdi) = f) (slot : Slot) (hn : n ≤ 8) :
    s.memory.read (s.address (offsetOf slot) .rdi) n = f slot % 2 ^ (8 * n) := by
  have hwhole := s.memory.read_add (s.address (offsetOf slot) .rdi) n (8 - n)
  have hfield : s.memory.read (s.address (offsetOf slot) .rdi) 8 = f slot := congrFun hcells slot
  rw [Nat.add_sub_cancel' hn, hfield] at hwhole
  rw [hwhole, Nat.pow_mul, Nat.add_mul_mod_self_left, Nat.mod_eq_of_lt (s.memory.read_lt _ n)]

/-- A field is cut to the width of the register it is loaded into. -/
theorem ofNat_mod (w x : ℕ) : BitVec.ofNat w (x % 2 ^ w) = BitVec.ofNat w x :=
  BitVec.eq_of_toNat_eq (by rw [BitVec.toNat_ofNat, BitVec.toNat_ofNat, Nat.mod_mod])

/-- The instructions that switch to the stack and the control state of the image. -/
def switchStack : List Instr := [
  .movq (.mem (offsetOf .rsp) .rdi) (.reg .rsp),
  .ldmxcsr (offsetOf .mxcsr) .rdi,
  .fldcw (offsetOf .fcw) .rdi,
  .movq (.mem (offsetOf .ra) .rdi) (.reg .rax),
  .pushq .rax]

/-- The state on the stack of an image, with the return address of the image pushed. -/
def Registers.switched (registers : Registers) (s : X86.State) : X86.State :=
  let ra := BitVec.ofNat 64 registers.ra
  { (s.set .rsp (BitVec.ofNat 64 registers.rsp)).set .rax ra with
    mxcsr := BitVec.ofNat 32 registers.mxcsr
    fcw := BitVec.ofNat 16 registers.fcw }.push ra

theorem straight_switchStack {registers : Registers}
    (hcells : image s.memory (s.gpr .rdi) = registers.cells.value)
    (hmxcsr : registers.mxcsr % 2 ^ 32 < 2 ^ 16) :
    straight switchStack s = some (registers.switched s) := by
  have hword : ∀ slot, s.word (s.address (offsetOf slot) .rdi) =
      BitVec.ofNat 64 (registers.cells.value slot) := fun slot =>
    congrArg (BitVec.ofNat 64) (congrFun hcells slot)
  let loadRsp := s.set .rsp (BitVec.ofNat 64 registers.rsp)
  let loadMxcsr : X86.State := { loadRsp with mxcsr := BitVec.ofNat 32 registers.mxcsr }
  let loadFcw : X86.State := { loadMxcsr with fcw := BitVec.ofNat 16 registers.fcw }
  let loadRa := loadFcw.set .rax (BitVec.ofNat 64 registers.ra)
  have hrsp : (Instr.movq (.mem (offsetOf .rsp) .rdi) (.reg .rsp)).effect s = some loadRsp :=
    congrArg (fun v => some (s.set .rsp v)) (hword .rsp)
  have hldmxcsr : (Instr.ldmxcsr (offsetOf .mxcsr) .rdi).effect loadRsp = some loadMxcsr := by
    have hread : loadRsp.memory.read (loadRsp.address (offsetOf .mxcsr) .rdi) 4 =
        registers.mxcsr % 2 ^ 32 := read_field hcells .mxcsr (by decide)
    simp only [Instr.effect, hread, if_pos hmxcsr, ofNat_mod, loadMxcsr]
  have hfldcw : (Instr.fldcw (offsetOf .fcw) .rdi).effect loadMxcsr = some loadFcw := by
    have hread : loadMxcsr.memory.read (loadMxcsr.address (offsetOf .fcw) .rdi) 2 =
        registers.fcw % 2 ^ 16 := read_field hcells .fcw (by decide)
    simp only [Instr.effect, hread, ofNat_mod, loadFcw]
  have hra : (Instr.movq (.mem (offsetOf .ra) .rdi) (.reg .rax)).effect loadFcw = some loadRa :=
    congrArg (fun v => some (loadFcw.set .rax v)) (hword .ra)
  have hpush : (Instr.pushq .rax).effect loadRa = some (registers.switched s) := rfl
  rw [switchStack, straight_cons_of hrsp, straight_cons_of hldmxcsr, straight_cons_of hfldcw,
    straight_cons_of hra, straight_cons_of hpush]
  rfl

/-- **The jump installs the image.** Every register of the machine becomes the field of the image,
and memory changes in the word below the stack of the image at most. The storage of the image
must not be there, and the reserved half of the SSE control must be clear. -/
theorem Registers.jump_lands {code : X86.Code} {a b : Word} {registers : Registers}
    (hload : Loaded code a jump b) (himage : take s.memory (s.gpr .rdi) = registers)
    (hmxcsr : registers.mxcsr % 2 ^ 32 < 2 ^ 16)
    (hapart : Disjoint (storage (s.gpr .rdi)) (Mem.block registers.scratch 8)) :
    Reaches code ⟨a, s⟩
      (registers.landing (s.memory.write registers.scratch 8 registers.ra)) := by
  have hcells : image s.memory (s.gpr .rdi) = registers.cells.value := by
    rw [← cells_take, himage]
  let l : List (Slot × Gpr) := [(.rax, .rax), (.rdx, .rdx), (.rcx, .rcx), (.rbx, .rbx),
    (.rsi, .rsi), (.rbp, .rbp), (.r8, .r8), (.r9, .r9), (.r10, .r10), (.r11, .r11), (.r12, .r12),
    (.r13, .r13), (.r14, .r14), (.r15, .r15)]
  let tail : List Instr := [.movq (.mem (offsetOf .rdi) .rdi) (.reg .rdi), .cld]
  have hjump : jump = (switchStack ++ loads l ++ tail) ++ [.retq] := rfl
  rw [hjump] at hload
  let switched := registers.switched s
  -- the push leaves the image alone
  have hswitched : image switched.memory (switched.gpr .rdi) = registers.cells.value := by
    funext slot
    refine Eq.trans ?_ (congrFun hcells slot)
    exact Mem.read_write_disjoint s.memory (by decide)
      (hapart.mono_left (field_subset _ slot le_rfl))
  let loaded : X86.State := { switched with gpr := fetch switched l }
  have hloads : straight (loads l) switched = some loaded := straight_loads (by decide)
  let final : X86.State :=
    { loaded.set .rdi (loaded.word (loaded.address (offsetOf .rdi) .rdi)) with df := false }
  have htail : straight tail loaded = some final := rfl
  have hrun : straight (switchStack ++ loads l ++ tail) s = some final := by
    rw [straight_append, straight_append, straight_switchStack hcells hmxcsr, Option.bind_some,
      hloads, Option.bind_some, htail]
  have hra : (BitVec.ofNat 64 registers.ra).toNat = registers.ra := by
    have hlt : image s.memory (s.gpr .rdi) .ra < 256 ^ 8 := s.memory.read_lt _ 8
    rw [hcells] at hlt
    rw [BitVec.toNat_ofNat]
    exact Nat.mod_eq_of_lt hlt
  convert hload.returns _ hrun using 1
  refine Machine.ext ?_ (X86.State.ext (funext fun r => ?_) ?_ rfl rfl rfl)
  · exact (State.word_setWord_self _ registers.scratch (BitVec.ofNat 64 registers.ra)).symm
  · cases r with
    | rsp => exact (BitVec.sub_add_cancel (BitVec.ofNat 64 registers.rsp) 8).symm
    | _ => exact congrArg (BitVec.ofNat 64) (congrFun hswitched _).symm
  · exact congrArg (s.memory.write registers.scratch 8) hra.symm

end Desenredo.Unwind.X86_64
