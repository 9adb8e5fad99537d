import Desenredo.Library.Scope
import Desenredo.Panic.Object
import Mathlib.Logic.Function.Basic

/-!
# The life of a panic packet

Who owns a panic packet from its allocation to its release. The functions of the panic runtime are
computations over a heap of exception objects that log what they release, drop and hand over. They
run in any order, for any number of packets, between the moves of the unwinder and of other
runtimes that the contracts of these functions allow.
-/

namespace Desenredo.Panic

/-! ## The heap -/

/-- The function that raised a packet. -/
inductive Caller where
  | raise
  | start
deriving DecidableEq, Repr

/-- Who is responsible for a packet. -/
inductive Owner where
  /-- The unwinder, until it returns or delivers the packet to a landing pad or a deletion. -/
  | unwinder (caller : Caller)
  /-- A `Raise` error with the reason the unwinder returned. -/
  | raise (reason : ReasonCode)
  /-- Nobody any more: its address has been given up. -/
  | nobody
deriving DecidableEq, Repr

/-- An allocated exception object. -/
inductive Object where
  /-- A packet of this runtime, numbered in the order of raising. -/
  | packet (serial : ℕ) (packet : Packet) (owner : Owner)
  /-- An object of another producer, of which only the common head has a meaning. -/
  | foreign (object : Packet)
deriving DecidableEq, Repr

/-- The fields of an object. -/
def Object.fields : Object → Packet
  | .packet _ fields _ => fields
  | .foreign fields => fields

/-- What happens to packets and exceptions. -/
inductive Event where
  /-- The box of a packet is deallocated. -/
  | released (serial : ℕ)
  /-- The payload of a packet is dropped. -/
  | dropped (serial : ℕ)
  /-- The payload of a packet is returned to the caller of `take` or `catch`. -/
  | returned (serial : ℕ) (payload : Payload)
  /-- The hook for lost packets takes control in the cleanup callback of a packet. -/
  | lost (serial : ℕ)
  /-- The hook for lost packets takes control in `start`. -/
  | terminal (serial : ℕ)
  /-- `_Unwind_DeleteException` is called for the object at an address. -/
  | deletion (address : ℕ)
  /-- The hook for foreign exceptions takes control. -/
  | foreign
deriving DecidableEq, Repr

/-- The packet an event is about. -/
def Event.serial : Event → Option ℕ
  | .released serial | .dropped serial | .returned serial _ | .lost serial | .terminal serial =>
    some serial
  | .deletion _ | .foreign => none

/-- The heap, the payloads raised so far and what has happened. -/
structure World where
  heap : ℕ → Option Object
  raised : List Payload
  log : List Event

namespace World

/-- Nothing has been raised. -/
def empty : World := ⟨fun _ => none, [], []⟩

/-- Logs one event. -/
def record (event : Event) (w : World) : World := { w with log := w.log ++ [event] }

/-- Replaces the object at an address. -/
def put (address : ℕ) (object : Option Object) (w : World) : World :=
  { w with heap := Function.update w.heap address object }

end World

/-! ## Boxes -/

/-- Logs one event. -/
def record (event : Event) : Proc World Unit := .modify (World.record event)

/-- Calls a hook, which does not come back. -/
def hook {α : Type} (event : Event) : Proc World α := do
  record event
  .diverge

/-- Reads the fields of an object through a raw pointer. -/
def fields (address : ℕ) : Proc World Packet := .view fun w => (w.heap address).map Object.fields

/-- `Box::from_raw` on the address of a packet: its number and its fields. -/
def fromRaw (address : ℕ) : Proc World (ℕ × Packet) := .view fun w =>
  match w.heap address with
  | some (.packet serial packet _) => some (serial, packet)
  | _ => none

/-- Releases the allocation of a box. -/
def deallocate (address serial : ℕ) : Proc World Unit := do
  .modify (World.put address none)
  record (.released serial)

/-- Drops a box with the fields it still has: the payload, the only one with a destructor, and the
allocation. -/
def dropBox (address serial : ℕ) : Proc World Unit := do
  record (.dropped serial)
  deallocate address serial

/-! ## The runtime -/

/-- The runtime and the callbacks of other producers, of which some do not come back. -/
structure Producers where
  runtime : Runtime
  returns : ℕ → Bool
  cleanup_ne_zero : runtime.cleanup ≠ 0

/-- Failure returned when the unwinder gives a raised packet back. -/
structure Raise where
  reason : ReasonCode
  packet : ℕ
deriving DecidableEq, Repr

/-- `Drop` of the error. -/
def Raise.drop (error : Raise) : Proc World Unit := do
  let (serial, _) ← fromRaw error.packet
  dropBox error.packet serial

/-- Releases a packet deleted by the active unwinder. -/
def Packet.cleanup (exception : ℕ) : Proc World Unit := do
  let (serial, _) ← fromRaw exception
  -- the pattern copies the hook out of the box and moves nothing: all of it is dropped at the end
  .owning (dropBox exception serial) (hook (.lost serial))

/-- `raise` up to its call of the unwinder. -/
def raise.enter (rt : Runtime) (caller : Caller) (payload : Payload) (address : ℕ) :
    Proc World Unit :=
  .modify fun w =>
    { w.put address (some (.packet w.raised.length (.new rt payload) (.unwinder caller))) with
      raised := w.raised ++ [payload] }

/-- `raise` from the return of the unwinder on. -/
def raise.leave (reason : ReasonCode) (address : ℕ) : Proc World Raise := pure ⟨reason, address⟩

/-- Raises one Rust-class exception with an owned payload. -/
def raise (rt : Runtime) (caller : Caller) (payload : Payload) (address : ℕ)
    (raiseException : Proc World ReasonCode) : Proc World Raise := do
  raise.enter rt caller payload address
  let reason ← raiseException
  raise.leave reason address

/-- The terminal path of `start`, for the error `raise` has returned. -/
def start.leave (error : Raise) : Proc World Unit := do
  let (serial, _) ← fromRaw error.packet
  -- `ManuallyDrop` keeps the destructor of the error from running
  .owning (pure ()) (hook (.terminal serial))

/-- Raises a packet and applies the terminal policy when the unwinder returns. -/
def start (rt : Runtime) (payload : Payload) (address : ℕ)
    (raiseException : Proc World ReasonCode) : Proc World Unit := do
  let error ← raise rt .start payload address raiseException
  start.leave error

/-- Deletes an exception through the callback of its producer. Another producer's callback releases
its own object. -/
def deleteException (h : Producers) (exception : ℕ) : Proc World Unit := do
  record (.deletion exception)
  if exception = 0 then pure ()
  else do
    let header ← fields exception
    let cleanup := header.unwind.cleanup
    if cleanup = 0 then pure ()
    else if cleanup = h.runtime.cleanup then Packet.cleanup exception
    else if h.returns cleanup then .modify (World.put exception none)
    else .diverge

namespace Heap

/-- Extracts a payload from a locally produced Rust panic packet. -/
def take (rt : Runtime) (exception : ℕ) : Proc World (Except CatchError Payload) := do
  let header ← fields exception
  if header.unwind.class_ ≠ CLASS then pure (.error .foreign)
  else if header.canary ≠ rt.canary then pure (.error .rust)
  else do
    let (serial, packet) ← fromRaw exception
    -- the payload moves out of the box: only the allocation is left at the end
    .owning (deallocate exception serial) (pure (.ok packet.payload))

/-- Extracts a local Rust panic or applies Rust's foreign-exception policy. -/
def catch_ (h : Producers) (exception : ℕ) : Proc World Payload := do
  match ← take h.runtime exception with
  | .ok payload => pure payload
  | .error .foreign => do
    deleteException h exception
    hook .foreign
  | .error .rust => hook .foreign

end Heap

/-! ## Runs -/

/-- What can happen next, to the object at an address. -/
inductive Action where
  | raise (caller : Caller) (payload : Payload) (address : ℕ)
  /-- The unwinder writes its words of the header. -/
  | unwind (address private1 private2 : ℕ)
  /-- The unwinder returns to the function that raised the packet. -/
  | return_ (address : ℕ) (reason : ReasonCode)
  /-- The `Raise` error of the packet is dropped. -/
  | drop (address : ℕ)
  /-- A landing pad the object was delivered to calls `take`. -/
  | take (address : ℕ)
  /-- A landing pad the object was delivered to calls `catch`. -/
  | catch_ (address : ℕ)
  /-- Another runtime calls `_Unwind_DeleteException`. -/
  | delete (address : ℕ)
  /-- Another producer raises an object of its own. -/
  | foreign (address : ℕ) (object : Packet)
deriving DecidableEq, Repr

/-- An object of another producer has another class or another canary, and another callback. -/
def Alien (rt : Runtime) (object : Packet) : Prop :=
  (object.unwind.class_ ≠ CLASS ∨ object.canary ≠ rt.canary) ∧ object.unwind.cleanup ≠ rt.cleanup

instance (rt : Runtime) (object : Packet) : Decidable (Alien rt object) :=
  inferInstanceAs (Decidable (_ ∧ _))

namespace World

/-- The packet at an address gets another owner. -/
def own (owner : Owner) (address : ℕ) (w : World) : World :=
  match w.heap address with
  | some (.packet serial packet _) => w.put address (some (.packet serial packet owner))
  | _ => w

/-- A call that may have returned the payload of the packet at an address. -/
def deliver (address : ℕ) (w : World) : Option Payload × World → World
  | (some payload, t) =>
    match w.heap address with
    | some (.packet serial _ _) => t.record (.returned serial payload)
    | _ => t
  | (none, t) => t

/-- The world after an action, if the contracts allow it. -/
def step (h : Producers) (w : World) : Action → Option World
  | .raise caller payload address =>
    if address ≠ 0 ∧ w.heap address = none then
      -- for the time being the unwinder does not come back
      match caller with
      | .raise => some ((raise h.runtime .raise payload address .diverge).run w).2
      | .start => some ((start h.runtime payload address .diverge).run w).2
    else none
  | .unwind address private1 private2 =>
    match w.heap address with
    | some (.packet serial packet (.unwinder caller)) =>
      let unwind := { packet.unwind with private1 := private1, private2 := private2 }
      let packet := { packet with unwind := unwind }
      some (w.put address (some (.packet serial packet (.unwinder caller))))
    | _ => none
  | .return_ address reason =>
    match w.heap address with
    | some (.packet _ _ (.unwinder .raise)) =>
      some (((raise.leave reason address).run w).2.own (.raise reason) address)
    | some (.packet _ _ (.unwinder .start)) =>
      some (((start.leave ⟨reason, address⟩).run w).2.own .nobody address)
    | _ => none
  | .drop address =>
    match w.heap address with
    | some (.packet _ _ (.raise reason)) => some ((Raise.drop ⟨reason, address⟩).run w).2
    | _ => none
  | .take address =>
    match w.heap address with
    | some (.packet _ _ (.unwinder _)) | some (.foreign _) =>
      let result := (Heap.take h.runtime address).run w
      some (w.deliver address (result.1.bind Except.toOption, result.2))
    | _ => none
  | .catch_ address =>
    match w.heap address with
    | some (.packet _ _ (.unwinder _)) | some (.foreign _) =>
      some (w.deliver address ((Heap.catch_ h address).run w))
    | _ => none
  | .delete address =>
    match w.heap address with
    | some (.packet _ _ (.unwinder _)) =>
      some (((deleteException h address).run w).2.own .nobody address)
    | some (.foreign _) => some ((deleteException h address).run w).2
    | _ => none
  | .foreign address object =>
    if address ≠ 0 ∧ w.heap address = none ∧ Alien h.runtime object then
      some (w.put address (some (.foreign object)))
    else none

/-- The world after a list of actions. -/
def run (h : Producers) : World → List Action → Option World
  | w, [] => some w
  | w, action :: actions => (w.step h action).bind fun t => run h t actions

end World

end Desenredo.Panic
