import Desenredo.Lsda.Table
import Desenredo.Unwind.Runtime
import Mathlib.Data.List.ReduceOption

/-!
# Backtraces of the worker

The worker captures its own stack without allocating: a trace function records the instruction
pointers of the frames in fixed storage. What happens to them after that is not modelled.
-/

namespace Desenredo.Worker

open Unwind

/-- Maximum number of physical frames captured without allocation. -/
def FRAME_LIMIT : ℕ := 64

/-- Backtrace capture or symbolization failure. -/
inductive BacktraceError where
  /-- Physical unwinding failed before reaching the terminal frame. -/
  | walk
  /-- The executable could not be opened. -/
  | open_
  /-- The executable file size was invalid for mapping. -/
  | size
  /-- The executable could not be mapped read-only. -/
  | map
  /-- The mapped executable was not a supported object file. -/
  | object
  /-- One required section could not be read. -/
  | section_
  /-- Debug information could not be parsed or looked up. -/
  | dwarf
  /-- No captured interior return address resolved. -/
  | interior
deriving DecidableEq, Repr

/-- One physical program counter and its relation to the active instruction. -/
structure ProgramCounter where
  rip : NonZeroUsize
  relation : Relation
deriving DecidableEq

namespace ProgramCounter

/-- Constructs one captured program counter from the callback state. -/
def new (rip : ℕ) (before : Bool) : Option ProgramCounter :=
  (NonZeroUsize.new rip).map fun rip => ⟨rip, if before then .instruction else .return_⟩

/-- The address that belongs to the active instruction. -/
def probe (pc : ProgramCounter) : Option ℕ := pc.relation.site pc.rip

/-- Whether this frame required return-address adjustment. -/
def interior (pc : ProgramCounter) : Bool := pc.relation matches .return_

end ProgramCounter

/-- Fixed physical frame storage. The slots in front of `len` are filled and the others free. -/
structure Trace where
  slots : List (Option ProgramCounter)
  len : ℕ
  /-- Whether capture exceeded fixed storage. -/
  truncated : Bool
  size : slots.length = FRAME_LIMIT
  len_le : len ≤ FRAME_LIMIT
  filled : ∀ slot ∈ slots.take len, slot.isSome
  free : ∀ slot ∈ slots.drop len, slot = none

namespace Trace

/-- Empty storage. -/
def new : Trace where
  slots := List.replicate FRAME_LIMIT none
  len := 0
  truncated := false
  size := List.length_replicate
  len_le := Nat.zero_le _
  filled := by simp
  free := by simp

theorem set_len {slots : List (Option ProgramCounter)} {len : ℕ} (h : len < slots.length)
    (frame : ProgramCounter) :
    slots.set len (some frame) = slots.take len ++ some frame :: slots.drop (len + 1) := by
  rw [List.set_eq_take_append_cons_drop, if_pos h]

/-- Records one frame when fixed storage remains available. -/
def push (trace : Trace) (frame : ProgramCounter) : Trace :=
  if h : trace.len < trace.slots.length then
    { slots := trace.slots.set trace.len (some frame)
      len := trace.len + 1
      truncated := trace.truncated
      size := by rw [List.length_set, trace.size]
      len_le := by rw [trace.size] at h; exact h
      filled := by
        have hlen : (trace.slots.take trace.len).length = trace.len := by
          rw [List.length_take, Nat.min_eq_left h.le]
        rw [set_len h, List.take_append, hlen, Nat.add_sub_cancel_left,
          List.take_of_length_le (by omega), List.take_succ_cons, List.take_zero]
        exact List.forall_mem_append.2 ⟨trace.filled, by simp⟩
      free := by
        rw [List.drop_set_of_lt (Nat.lt_add_one _)]
        exact fun slot hslot =>
          trace.free slot (List.drop_subset_drop_left _ (Nat.le_succ _) hslot) }
  else { trace with truncated := true }

/-- Every captured physical frame in traversal order. -/
def frames (trace : Trace) : List ProgramCounter := trace.slots.reduceOption

end Trace

variable [Gimli]

/-- Records one physical frame. The parameter is the trace, which is the world of the callback. -/
def visit : TraceFn Trace := fun context _ host =>
  let (rip, before) := (context.map Callback.info).getD (0, false)
  match ProgramCounter.new rip before with
  | some frame => ⟨.NONE, [], { host with world := host.world.push frame }⟩
  | none => ⟨.NONE, [], host⟩

/-- Captures one physical backtrace into fixed storage, for at most `n` turns of the walk. -/
def capture (n : ℕ) (state : State) (memory : Memory) (U : Unwinder) :
    Option (Except BacktraceError Trace) :=
  (Walk.trace n state ⟨memory, Trace.new⟩ U visit 0).2.map fun (reason, host) =>
    if reason = .END then .ok host.world else .error .walk

end Desenredo.Worker
