import Desenredo.Unwind.ResumeTheorems
import Mathlib.Data.List.Infix

/-!
# Delivery of an exception

A propagation from the pass phase one starts to the last one, through every cleanup landing pad
that resumes it. The handler is remembered as one word of the exception header and found again
by its key, so what keeps a propagation on course is that the frames of a chain have different
keys and that nobody else writes the private words.
-/

namespace Desenredo.Unwind

/-! ## Chains -/

section

variable [Gimli] {W : Type}

/-- The key of the frame an event resolves, if it is one that does. -/
def Event.visited : Event W → Option Key
  | .frame cursor _ => cursor.key.toOption
  | _ => none

/-- The keys of the frames a pass resolves, in order. -/
def visited (log : List (Event W)) : List Key := log.filterMap Event.visited

section

variable (U : Unwinder) (code : Code W) (p : ℕ)

end

/-! ## Turns -/

/-- A call is made on a visited frame, with the handler bit if the frame has the handler's key
and with the cleanup bit alone otherwise. -/
def Addressed (handler : Key) (keys : List Key) (call : Call W) : Prop :=
  ∃ callback key, call.args.context = some callback ∧ callback.cursor.key = .ok key ∧
    key ∈ keys ∧ call.args.actions = if key = handler then .CLEANUP ||| .HANDLER else .CLEANUP

theorem Addressed.mono {handler : Key} {keys keys' : List Key} {call : Call W}
    (h : Addressed handler keys call) (hkeys : keys ⊆ keys') : Addressed handler keys' call := by
  obtain ⟨callback, key, hcontext, hkey, hmem, hactions⟩ := h
  exact ⟨callback, key, hcontext, hkey, hkeys hmem, hactions⟩

namespace Walk

variable {w : Walk W} {s : Position W} {handler : Key} {keys : List Key} {info : Info}
  {answer : Answer W}

theorem Answered.visited {actions : Actions} (h : w.Answered s info actions answer) :
    visited answer.log = [] := by
  cases h <;> rfl

end Walk

/-! ## Propagations -/

section

variable (U : Unwinder) (code : Code W) (p : ℕ)

end

variable {U : Unwinder} {code : Code W} {p : ℕ} {handler : Key}

end

section

attribute [local instance] Gimli.decoded

/-! ## A propagation over two calls -/

namespace Calls

end Calls

end

end Desenredo.Unwind
