import Desenredo.Unwind.Source

/-!
# Traversal of one physical stack

A cursor owns one reconstructed machine state and the relation its instruction pointer is to be
read under. Operations that change a cursor return it next to their result, so that a failed
one says what it leaves behind.
-/

namespace Desenredo.Unwind

open Usize

/-- Internal identity used to match one physical frame across unwind phases. -/
structure Key where
  get : ℕ
deriving DecidableEq, Repr

/-- Read-only information about one reconstructed physical frame. -/
structure Frame where
  /-- Instruction address used to select the frame description entry. -/
  ip : ℕ
  /-- Stack pointer carried by the cursor before caller reconstruction. -/
  sp : ℕ
deriving DecidableEq, Repr

/-- Cursor over one currently live physical stack. -/
@[ext] structure Cursor where
  state : State
  relation : Relation

variable [Gimli] (U : Unwinder)

/-- The relation of the caller of a frame. -/
def Info.callerRelation (info : Info) : Relation :=
  if info.signal then .instruction else .return_

namespace Cursor

omit [Gimli] in
/-- Creates a traversal cursor from one captured machine state. -/
def new (state : State) : Cursor := ⟨state, .return_⟩

/-- Advances to the next physical frame. -/
def step (c : Cursor) : Except UnwindError (Option Frame) × Cursor :=
  match Info.new U c.state c.relation with
  | .error error => (.error error, c)
  | .ok none => (.ok none, c)
  | .ok (some info) =>
    match c.state.stack with
    | .error error => (.error error, c)
    | .ok sp =>
      match info.caller U c.state with
      | .error error => (.error error, c)
      | .ok caller => (.ok (some ⟨info.ip, sp⟩), ⟨caller, info.callerRelation⟩)

/-- Resolves the frame currently named by the cursor state. -/
def current (c : Cursor) : Except UnwindError (Option Info) := Info.new U c.state c.relation

/-- Replaces the cursor state with the caller reconstructed from `info`. -/
def advance (c : Cursor) (info : Info) : Except UnwindError Unit × Cursor :=
  match info.caller U c.state with
  | .error error => (.error error, c)
  | .ok caller => (.ok (), ⟨caller, info.callerRelation⟩)

/-- Reads one register from the current reconstructed state. -/
def read (c : Cursor) (register : Register) : Except UnwindError ℕ := c.state.read register

/-- Writes one register in the current reconstructed state. -/
def write (c : Cursor) (register : Register) (value : ℕ) : Except UnwindError Unit × Cursor :=
  match c.state.write register value with
  | .error error => (.error error, c)
  | .ok state => (.ok (), ⟨state, c.relation⟩)

/-- The current stack pointer. -/
def stack (c : Cursor) : Except UnwindError ℕ := c.state.stack

omit [Gimli] in
/-- The current instruction pointer image. -/
def ip (c : Cursor) : Option ℕ := c.state.ip

/-- The physical frame identity used by level I phase matching. -/
def key (c : Cursor) : Except UnwindError Key := do
  let sp ← c.state.stack
  .ok ⟨wrappingSub sp (if c.relation.before then 1 else 0)⟩

/-- Applies the saved-argument stack adjustment for landing pad installation. -/
def adjust (c : Cursor) (size : ℕ) : Except UnwindError Unit × Cursor :=
  match c.state.adjust size with
  | .error error => (.error error, c)
  | .ok state => (.ok (), ⟨state, c.relation⟩)

omit [Gimli] in
/-- Consumes the cursor and returns its installable machine state. -/
def take (c : Cursor) : State := c.state

end Cursor

end Desenredo.Unwind
