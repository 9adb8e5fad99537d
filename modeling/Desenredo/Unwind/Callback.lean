import Desenredo.Abi
import Desenredo.Unwind.Cursor

/-!
# Callbacks of the unwinder

Personality routines, stop functions and trace functions are called with a context that borrows
the cursor of the running traversal and the frame it stands on. A callback is a function from
its arguments and everything else it may depend on, the `Host`, to a reply: the reason it
returns, the registers it writes through the context in order, and the host it leaves.
-/

namespace Desenredo.Unwind

variable [Gimli]

/-- The callback state behind an opaque context. -/
structure Callback where
  cursor : Cursor
  /-- The resolved frame, when one exists. -/
  frame : Option Info

namespace Callback

variable (U : Unwinder)

omit [Gimli] in
/-- Converts a C register number into a DWARF register identity. -/
def decode (index : ℤ) : Option Register :=
  if 0 ≤ index ∧ index < 2 ^ 16 then some ⟨index.toNat⟩ else none

/-- Reads one ABI-visible register value. -/
def read (callback : Callback) (index : ℤ) : ℕ :=
  match decode index with
  | none => 0
  | some register =>
    if register = .RSP ∧ callback.frame.isNone then 0
    else (callback.cursor.read register).toOption.getD 0

/-- Writes one ABI-visible register value; a register that is not modelled is ignored. -/
def set (callback : Callback) (index : ℤ) (value : ℕ) : Callback :=
  match decode index with
  | none => callback
  | some register => { callback with cursor := (callback.cursor.write register value).2 }

/-- The ABI instruction pointer. -/
def pc (callback : Callback) : ℕ := callback.cursor.ip.getD 0

/-- The ABI canonical frame address. -/
def base (callback : Callback) : ℕ :=
  if callback.frame.isSome then callback.cursor.stack.toOption.getD 0 else 0

/-- The instruction pointer and whether it precedes the instruction. -/
def info (callback : Callback) : ℕ × Bool := (callback.pc, callback.cursor.relation.before)

/-- The LSDA pointer for the active frame, zero for none. -/
def lsda (callback : Callback) : ℕ :=
  match callback.frame with
  | some frame => ((frame.lsda U).toOption.join).getD 0
  | none => 0

/-- The code region start for the active frame. -/
def start (callback : Callback) : ℕ := (callback.frame.map Info.start).getD 0

/-- The text-relative base for the active frame. -/
def text (callback : Callback) : ℕ := (callback.frame.map Info.text).getD 0

/-- The data-relative base for the active frame. -/
def data (callback : Callback) : ℕ := (callback.frame.bind Info.data).getD 0

/-- The callback after a list of register writes. -/
def replay (callback : Callback) (writes : List (ℤ × ℕ)) : Callback :=
  writes.foldl (fun callback write => callback.set write.1 write.2) callback

@[simp] theorem replay_nil (callback : Callback) : callback.replay [] = callback := rfl

end Callback

/-- Everything a callback may depend on besides its arguments. -/
structure Host (W : Type) where
  memory : Memory
  /-- What callbacks keep outside the memory of exception objects. -/
  world : W

/-- What a callback does. -/
structure Reply (W : Type) where
  reason : ReasonCode
  writes : List (ℤ × ℕ)
  host : Host W

/-- The arguments of a personality routine; a stop function takes a parameter more. -/
structure Arguments where
  version : ℤ
  actions : Actions
  class_ : ExceptionClass
  /-- The exception pointer, zero for null. -/
  exception : ℕ
  /-- The context pointer, absent for null. -/
  context : Option Callback

abbrev PersonalityFn (W : Type) := Arguments → Host W → Reply W
abbrev StopFn (W : Type) := Arguments → ℕ → Host W → Reply W
abbrev TraceFn (W : Type) := Option Callback → ℕ → Host W → Reply W

/-- The code behind function addresses. -/
structure Code (W : Type) where
  personality : ℕ → PersonalityFn W
  stop : ℕ → StopFn W

end Desenredo.Unwind
