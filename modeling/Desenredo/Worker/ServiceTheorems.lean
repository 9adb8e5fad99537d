import Desenredo.Panic.LifecycleTheorems
import Desenredo.Worker.Service

/-!
# What a request leaves

A request that returns has released its page before its boundary reports it. A request that panics
releases its page while it unwinds, before the boundary takes the payload out of the packet, and
nothing of either is left.
-/

namespace Desenredo.Worker

open Routine

variable {K ε α : Type} {p : Platform K} {s t : World K} {request : Request} {handled : Bool}

/-! ## The platform -/

section

variable {Q : α → World K → Prop} {R : ε → World K → Prop} {S : Status → World K → Prop}

end

/-! ## The page -/

/-- The world of a process after some of its work: its own records are as they were. -/
structure Kept (s : World K) (released : ℕ) (log : List Event) (t : World K) : Prop where
  cleanups : t.cleanups = s.cleanups + released
  heap : t.heap = s.heap
  raised : t.raised = s.raised
  faults : t.faults = s.faults
  log : t.log = s.log ++ log

/-- What a request that has been served has done, as the boundary reports it. The packet of a panic
has the number of panics before it. -/
inductive Served (request : Request) (serial : ℕ) : Outcome → List Event → Prop
  | resource : Served request serial .resource []
  | complete (page : ℕ) : request.command = .work → Served request serial .complete
      [.mapped page, .touched page request.id, .unmapped page]
  | traced (page : ℕ) : request.command = .trace → Served request serial .complete
      [.mapped page, .touched page request.id, .printed, .unmapped page]
  | untraced (page : ℕ) : request.command = .trace → Served request serial .backtrace
      [.mapped page, .touched page request.id, .printed, .unmapped page]
  | recovered (page fault : ℕ) : request.command = .panic → Served request serial .recovered
      [.mapped page, .touched page request.id, .boxed fault request.id, .unmapped page,
        .panic (.released serial), .unboxed fault]

/-- The panics of an outcome. -/
def Outcome.panics : Outcome → ℕ
  | .recovered => 1
  | _ => 0

/-- No request is running and nothing of an earlier one is left. -/
structure Idle (s : World K) : Prop where
  active : s.active = 0
  heap : s.heap = fun _ => none
  faults : s.faults = fun _ => none

end Desenredo.Worker
