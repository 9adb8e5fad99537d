import Desenredo.Panic.Lifecycle

/-!
# Steps in the life of a packet

What each function of the panic runtime does to the heap and to the log, and from that all that a
step of a run can do. The cleanup callback of a packet releases nothing: the hook it calls takes
control while the box is still owned by its scope.
-/

namespace Desenredo.Panic

open Proc

/-! ## The functions of the runtime -/

section

variable {w : World} {address serial : ℕ} {packet : Packet} {owner : Owner}

theorem fields_run {object : Object} (h : w.heap address = some object) :
    (fields address).run w = (some object.fields, w) := by
  rw [fields, run_view, h, Option.map_some]

theorem fromRaw_run (h : w.heap address = some (.packet serial packet owner)) :
    (fromRaw address).run w = (some (serial, packet), w) := by
  rw [fromRaw, run_view, h]

theorem hook_run {α : Type} (event : Event) : (hook event : Proc World α).run w =
    (none, w.record event) := rfl

theorem deallocate_run : (deallocate address serial).run w =
    (some (), (w.put address none).record (.released serial)) := rfl

theorem dropBox_run : (dropBox address serial).run w =
    (some (), ((w.record (.dropped serial)).put address none).record (.released serial)) := rfl

/-- Dropping the error drops the payload and releases the box. -/
theorem Raise.drop_run {reason : ReasonCode}
    (h : w.heap address = some (.packet serial packet owner)) :
    (Raise.drop ⟨reason, address⟩).run w =
      (some (), ((w.record (.dropped serial)).put address none).record (.released serial)) := by
  rw [drop, run_bind_of_some (fromRaw_run h), dropBox_run]

/-- The cleanup callback hands control to the hook before its scope drops the box. -/
theorem Packet.cleanup_run (h : w.heap address = some (.packet serial packet owner)) :
    (Packet.cleanup address).run w = (none, w.record (.lost serial)) := by
  rw [cleanup, run_bind_of_some (fromRaw_run h)]
  exact owning_of_none (hook_run _)

theorem start.leave_run {reason : ReasonCode}
    (h : w.heap address = some (.packet serial packet owner)) :
    (start.leave ⟨reason, address⟩).run w = (none, w.record (.terminal serial)) := by
  rw [start.leave, run_bind_of_some (fromRaw_run h)]
  exact owning_of_none (hook_run _)

/-- The world in which a packet has just been raised. -/
def World.launched (rt : Runtime) (caller : Caller) (payload : Payload) (address : ℕ) (w : World) :
    World where
  heap := Function.update w.heap address
    (some (.packet w.raised.length (.new rt payload) (.unwinder caller)))
  raised := w.raised ++ [payload]
  log := w.log

/-- Raising allocates the packet; the unwinder has not come back yet. -/
theorem raise_run (rt : Runtime) (caller : Caller) (payload : Payload) :
    (raise rt caller payload address .diverge).run w =
      (none, w.launched rt caller payload address) := rfl

theorem start_run (rt : Runtime) (payload : Payload) :
    (start rt payload address .diverge).run w = (none, w.launched rt .start payload address) :=
  run_bind_of_none (raise_run rt .start payload)

end

/-- The fields of a packet of this runtime that the unwinder does not write. -/
structure Ours (rt : Runtime) (packet : Packet) : Prop where
  class_ : packet.unwind.class_ = CLASS
  canary : packet.canary = rt.canary
  cleanup : packet.unwind.cleanup = rt.cleanup

theorem Ours.new (rt : Runtime) (payload : Payload) : Ours rt (.new rt payload) := ⟨rfl, rfl, rfl⟩

section

variable {h : Producers} {w : World} {address serial : ℕ} {packet : Packet} {owner : Owner}

/-- Extraction moves the payload out and releases the box. -/
theorem Heap.take_ours {rt : Runtime} (hours : Ours rt packet)
    (hheap : w.heap address = some (.packet serial packet owner)) :
    (Heap.take rt address).run w = (some (.ok packet.payload),
      (w.put address none).record (.released serial)) := by
  rw [take, run_bind_of_some (fields_run hheap)]
  simp only [Object.fields, hours.class_, hours.canary, ne_eq, not_true_eq_false, if_false]
  rw [run_bind_of_some (fromRaw_run hheap)]
  exact owning_of_some (run_pure _ _) deallocate_run

/-- Why an object of another producer is refused. -/
def refusal (object : Packet) : CatchError :=
  if object.unwind.class_ ≠ CLASS then .foreign else .rust

/-- The extraction of an object of another producer changes nothing. -/
theorem Heap.take_alien {rt : Runtime} {object : Packet} (halien : Alien rt object)
    (hheap : w.heap address = some (.foreign object)) :
    (Heap.take rt address).run w = (some (.error (refusal object)), w) := by
  rw [take, run_bind_of_some (fields_run hheap), refusal]
  simp only [Object.fields]
  by_cases hclass : object.unwind.class_ = CLASS
  · have hcanary : object.canary ≠ rt.canary := halien.1.resolve_left (not_not.2 hclass)
    simp only [hclass, ne_eq, not_true_eq_false, if_false, hcanary, not_false_eq_true, if_true,
      run_pure]
  · simp only [hclass, ne_eq, not_false_eq_true, if_true, run_pure]

/-- Extraction reads an object as it reads the memory that stores it. -/
theorem Heap.take_eq {rt : Runtime} {m : Memory} {object : Object}
    (hheap : w.heap address = some object) (hm : Packet.load m address = object.fields)
    (halien : ∀ fields, object = .foreign fields → Alien rt fields) :
    ((Heap.take rt address).run w).1 = some (Panic.take rt m address) := by
  have hclass : (Exception.load m address).class_ = object.fields.unwind.class_ := by rw [← hm]; rfl
  rw [take, run_bind_of_some (fields_run hheap)]
  simp only [Panic.take, hclass, hm]
  by_cases hrust : object.fields.unwind.class_ = CLASS
  · by_cases hcanary : object.fields.canary = rt.canary
    · cases object with
      | packet serial packet owner =>
        simp only [hrust, hcanary, ne_eq, not_true_eq_false, if_false]
        rw [run_bind_of_some (fromRaw_run hheap)]
        rfl
      | foreign fields => exact absurd (halien fields rfl).1 (by simp_all [Object.fields])
    · simp only [hrust, hcanary, ne_eq, not_true_eq_false, not_false_eq_true, if_false, if_true,
        run_pure]
  · simp only [hrust, ne_eq, not_false_eq_true, if_true, run_pure]

/-- Deleting a packet runs its cleanup callback. -/
theorem deleteException_ours (hours : Ours h.runtime packet) (hne : address ≠ 0)
    (hheap : w.heap address = some (.packet serial packet owner)) :
    (deleteException h address).run w =
      (none, (w.record (.deletion address)).record (.lost serial)) := by
  have hheap' : (w.record (.deletion address)).heap address =
      some (.packet serial packet owner) := hheap
  have hrecord : (record (.deletion address)).run w = (some (), w.record (.deletion address)) := rfl
  rw [deleteException, run_bind_of_some hrecord, if_neg hne, run_bind_of_some (fields_run hheap')]
  simp only [Object.fields, hours.cleanup, h.cleanup_ne_zero, if_false, if_true]
  exact Packet.cleanup_run hheap'

/-- Nothing but the object at an address may be gone. -/
structure Spares (w : World) (address : ℕ) (t : World) : Prop where
  raised : t.raised = w.raised
  heap : t.heap = w.heap ∨ t.heap = Function.update w.heap address none

/-- Deleting an object of another producer may release that object and does nothing else. -/
theorem deleteException_alien {object : Packet} (halien : Alien h.runtime object)
    (hheap : w.heap address = some (.foreign object)) :
    ∃ back t, (deleteException h address).run w = (back, t) ∧ Spares w address t ∧
      t.log = w.log ++ [.deletion address] := by
  have hheap' : (w.record (.deletion address)).heap address = some (.foreign object) := hheap
  have hrecord : (record (.deletion address)).run w = (some (), w.record (.deletion address)) := rfl
  rw [deleteException, run_bind_of_some hrecord]
  by_cases hzero : address = 0
  · rw [if_pos hzero]
    exact ⟨_, _, rfl, ⟨rfl, .inl rfl⟩, rfl⟩
  · have hfields : (fields address).run (w.record (.deletion address)) =
        (some object, w.record (.deletion address)) := fields_run hheap'
    rw [if_neg hzero, run_bind_of_some hfields]
    simp only [halien.2, if_false]
    split
    · exact ⟨_, _, rfl, ⟨rfl, .inl rfl⟩, rfl⟩
    · split
      · exact ⟨_, _, rfl, ⟨rfl, .inr rfl⟩, rfl⟩
      · exact ⟨_, _, rfl, ⟨rfl, .inl rfl⟩, rfl⟩

/-- `catch` returns the payload of a packet. -/
theorem Heap.catch_ours (hours : Ours h.runtime packet)
    (hheap : w.heap address = some (.packet serial packet owner)) :
    (Heap.catch_ h address).run w =
      (some packet.payload, (w.put address none).record (.released serial)) := by
  rw [catch_, run_bind_of_some (take_ours hours hheap)]
  rfl

/-- The event is a deletion. -/
def Event.isDeletion : Event → Bool
  | .deletion _ => true
  | _ => false

/-- `catch` deletes an object of another class once and one with another canary not at all. It
returns for neither. -/
theorem Heap.catch_alien {object : Packet} (halien : Alien h.runtime object)
    (hheap : w.heap address = some (.foreign object)) :
    ∃ t events, (Heap.catch_ h address).run w = (none, t) ∧ Spares w address t ∧
      t.log = w.log ++ events ∧ (∀ event ∈ events, event.serial = none) ∧
      events.filter Event.isDeletion =
        if object.unwind.class_ = CLASS then [] else [.deletion address] := by
  rw [catch_, run_bind_of_some (take_alien halien hheap), refusal]
  by_cases hclass : object.unwind.class_ = CLASS
  · rw [if_neg (not_not.2 hclass), if_pos hclass]
    exact ⟨_, [.foreign], rfl, ⟨rfl, .inl rfl⟩, rfl, by simp [Event.serial], rfl⟩
  · rw [if_pos hclass, if_neg hclass]
    obtain ⟨back, t, hdelete, hspares, hlog⟩ := deleteException_alien halien hheap
    cases back with
    | none =>
      exact ⟨t, [.deletion address], run_bind_of_none hdelete, hspares, hlog,
        by simp [Event.serial], rfl⟩
    | some _ =>
      refine ⟨t.record .foreign, [.deletion address, .foreign], ?_,
        ⟨hspares.raised, hspares.heap⟩, ?_, by simp [Event.serial], rfl⟩
      · exact (run_bind_of_some hdelete).trans (hook_run _)
      · rw [World.record, hlog, List.append_assoc]
        rfl

/-- The packets of a heap in which the object of another producer was changed are where they
were. -/
theorem packet_of_apart {object : Option Packet}
    (hfree : ∀ serial packet owner, w.heap address ≠ some (.packet serial packet owner))
    {a k : ℕ} {p : Packet} {o : Owner} : Function.update w.heap address (object.map .foreign) a =
      some (.packet k p o) ↔ w.heap a = some (.packet k p o) := by
  by_cases ha : a = address
  · subst ha
    rw [Function.update_self]
    exact iff_of_false (by simp [Option.map_eq_some_iff]) (hfree k p o)
  · rw [Function.update_of_ne ha]

/-- A packet stays where it is when an object of another producer is released. -/
theorem Spares.packet_iff {t : World} {object : Packet} (hspares : Spares w address t)
    (hheap : w.heap address = some (.foreign object)) (a : ℕ) :
    t.heap a = some (.packet serial packet owner) ↔
      w.heap a = some (.packet serial packet owner) := by
  rcases hspares.heap with hkept | hgone
  · rw [hkept]
  · rw [hgone]
    exact @packet_of_apart w address none (by rw [hheap]; nofun) a serial packet owner

end

/-! ## Steps -/

/-- What has happened to a packet, by who is responsible for it: nobody when its address was given
up, and no one at all (`none`) when its box is gone. -/
inductive Lived (serial : ℕ) (payload : Payload) : Option Owner → List Event → Prop
  | held {owner : Owner} : owner ≠ .nobody → Lived serial payload (some owner) []
  | terminal : Lived serial payload (some .nobody) [.terminal serial]
  | lost : Lived serial payload (some .nobody) [.lost serial]
  | dropped : Lived serial payload none [.dropped serial, .released serial]
  | returned : Lived serial payload none [.released serial, .returned serial payload]

/-- The events about a packet. -/
def about (serial : ℕ) (log : List Event) : List Event :=
  log.filter fun event => event.serial = some serial

/-- A packet of this runtime is deleted through its cleanup callback. -/
def World.Deletes (w : World) (action : Action) : Prop :=
  ∃ address serial packet owner, action = .delete address ∧
    w.heap address = some (.packet serial packet owner)

/-- What a step can do: raise a packet, change the cell of one packet that someone is responsible
for, or change an object of another producer. -/
inductive Stepped (h : Producers) (w : World) (action : Action) : World → Prop
  | raised {address : ℕ} {payload : Payload} {caller : Caller} :
      address ≠ 0 → w.heap address = none → ¬w.Deletes action →
      Stepped h w action (w.launched h.runtime caller payload address)
  | moved {address serial : ℕ} {packet : Packet} {owner : Owner} {events : List Event}
      (cell : Option (Packet × Owner)) :
      w.heap address = some (.packet serial packet owner) → owner ≠ .nobody →
      (∀ left ∈ cell, left.1.payload = packet.payload ∧ Ours h.runtime left.1) →
      (∀ event ∈ events, event.serial = none ∨ event.serial = some serial) →
      Lived serial packet.payload (cell.map Prod.snd) (about serial events) →
      (.lost serial ∈ events ↔ w.Deletes action) →
      Stepped h w action
        ⟨Function.update w.heap address (cell.map fun left => .packet serial left.1 left.2),
        w.raised, w.log ++ events⟩
  | apart {address : ℕ} {events : List Event} (object : Option Packet) :
      (∀ serial packet owner, w.heap address ≠ some (.packet serial packet owner)) →
      (∀ fields ∈ object, address ≠ 0 ∧ Alien h.runtime fields) →
      (∀ event ∈ events, event.serial = none) → ¬w.Deletes action →
      Stepped h w action
        ⟨Function.update w.heap address (object.map .foreign), w.raised, w.log ++ events⟩

/-- The objects of a heap: packets have the number and the payload they were raised with, and no
two the same number. -/
structure WellFormed (rt : Runtime) (w : World) : Prop where
  null : w.heap 0 = none
  unique : ∀ {a b serial p q o o'}, w.heap a = some (.packet serial p o) →
    w.heap b = some (.packet serial q o') → a = b
  ours : ∀ {a serial p o}, w.heap a = some (.packet serial p o) →
    Ours rt p ∧ w.raised[serial]? = some p.payload
  alien : ∀ {a fields}, w.heap a = some (.foreign fields) → Alien rt fields

section

variable {h : Producers} {w t : World} {action : Action} {address serial : ℕ} {packet : Packet}
  {owner : Owner}

theorem own_eq (hheap : w.heap address = some (.packet serial packet owner)) (next : Owner) :
    w.own next address = w.put address (some (.packet serial packet next)) := by
  rw [World.own, hheap]

theorem deliver_eq (hheap : w.heap address = some (.packet serial packet owner))
    (payload : Payload) :
    w.deliver address (some payload, t) = t.record (.returned serial payload) := by
  simp only [World.deliver, hheap]

theorem not_deletes (hne : ∀ a, action ≠ .delete a) : ¬w.Deletes action := by
  rintro ⟨a, _, _, _, heq, _⟩
  exact hne a heq

theorem not_deletes_foreign {object : Packet} (hheap : w.heap address = some (.foreign object)) :
    ¬w.Deletes (.delete address) := by
  rintro ⟨_, _, _, _, heq, hpacket⟩
  cases heq
  rw [hheap] at hpacket
  cases hpacket

/-- A packet is handed on without anything being logged. -/
theorem Stepped.handed {left : Packet} {next : Owner}
    (hheap : w.heap address = some (.packet serial packet owner)) (howner : owner ≠ .nobody)
    (hnext : next ≠ .nobody) (hpayload : left.payload = packet.payload)
    (hours : Ours h.runtime left) (hne : ∀ a, action ≠ .delete a) :
    Stepped h w action (w.put address (some (.packet serial left next))) := by
  have hmoved : Stepped h w action _ := .moved (some (left, next)) hheap howner
    (by rintro _ ⟨⟩; exact ⟨hpayload, hours⟩) (List.forall_mem_nil _) (.held hnext)
    (iff_of_false List.not_mem_nil (not_deletes hne))
  rwa [List.append_nil] at hmoved

/-- An extraction logs the release of the box and the return of the payload. -/
theorem Stepped.extracted (hheap : w.heap address = some (.packet serial packet owner))
    (howner : owner ≠ .nobody) (hne : ∀ a, action ≠ .delete a) :
    Stepped h w action (w.deliver address
      (some packet.payload, (w.put address none).record (.released serial))) := by
  have hevents : ∀ event ∈ [Event.released serial, .returned serial packet.payload],
      event.serial = none ∨ event.serial = some serial := by simp [Event.serial]
  have hmoved : Stepped h w action _ := .moved none hheap howner nofun hevents
    (by simpa [about, Event.serial] using .returned) (iff_of_false (by simp) (not_deletes hne))
  rw [deliver_eq hheap]
  simpa [World.record, World.put] using hmoved

/-- A packet is given up: it stays where it is and nobody is responsible for it any more. -/
theorem Stepped.given_up {events : List Event}
    (hw : WellFormed h.runtime w) (hheap : w.heap address = some (.packet serial packet owner))
    (howner : owner ≠ .nobody)
    (hevents : ∀ event ∈ events, event.serial = none ∨ event.serial = some serial)
    (hlived : Lived serial packet.payload (some .nobody) (about serial events))
    (hlost : .lost serial ∈ events ↔ w.Deletes action) :
    Stepped h w action
      (World.own .nobody address { w with log := w.log ++ events }) := by
  have hmoved : Stepped h w action _ := .moved (some (packet, .nobody)) hheap howner
    (by rintro _ ⟨⟩; exact ⟨rfl, (hw.ours hheap).1⟩) hevents hlived hlost
  have hheap' : ({ w with log := w.log ++ events } : World).heap address =
      some (.packet serial packet owner) := hheap
  rw [own_eq hheap']
  exact hmoved

/-- The drop of a `Raise` error logs the drop of the payload and the release of the box. -/
theorem Stepped.dropped (hheap : w.heap address = some (.packet serial packet owner))
    (howner : owner ≠ .nobody) (hne : ∀ a, action ≠ .delete a) :
    Stepped h w action
      (((w.record (.dropped serial)).put address none).record (.released serial)) := by
  have hevents : ∀ event ∈ [Event.dropped serial, .released serial],
      event.serial = none ∨ event.serial = some serial := by simp [Event.serial]
  have hmoved : Stepped h w action _ := .moved none hheap howner nofun hevents
    (by simpa [about, Event.serial] using .dropped) (iff_of_false (by simp) (not_deletes hne))
  simpa [World.record, World.put] using hmoved

/-- A step that may release an object of another producer. -/
theorem Stepped.spares {object : Packet} {events : List Event}
    (hw : WellFormed h.runtime w) (hheap : w.heap address = some (.foreign object))
    (hspares : Spares w address t) (hlog : t.log = w.log ++ events)
    (hevents : ∀ event ∈ events, event.serial = none) (hne : ¬w.Deletes action) :
    Stepped h w action t := by
  have hfree : ∀ serial packet owner, w.heap address ≠ some (.packet serial packet owner) := by
    rintro _ _ _ heq
    rw [hheap] at heq
    cases heq
  have hnull : address ≠ 0 := by
    rintro rfl
    rw [hw.null] at hheap
    cases hheap
  obtain ⟨hraised, hkept | hgone⟩ := hspares
  · have hapart : Stepped h w action _ := .apart (some object) hfree
      (by rintro _ ⟨⟩; exact ⟨hnull, hw.alien hheap⟩) hevents hne
    rw [show (some object).map Object.foreign = w.heap address from hheap.symm,
      Function.update_eq_self, ← hkept, ← hraised, ← hlog] at hapart
    exact hapart
  · have hapart : Stepped h w action _ := .apart none hfree nofun hevents hne
    rw [Option.map_none, ← hgone, ← hraised, ← hlog] at hapart
    exact hapart

end

/-! ## Actions -/

section

variable {h : Producers} {w t : World} {address : ℕ}

/-- Whoever raises a packet, the unwinder has it next. -/
theorem step_raise {caller : Caller} {payload : Payload}
    (hstep : w.step h (.raise caller payload address) = some t) :
    Stepped h w (.raise caller payload address) t := by
  simp only [World.step] at hstep
  split at hstep
  · rename_i hfree
    cases caller with
    | raise =>
      rw [raise_run] at hstep
      cases hstep
      exact .raised hfree.1 hfree.2 (not_deletes nofun)
    | start =>
      rw [start_run] at hstep
      cases hstep
      exact .raised hfree.1 hfree.2 (not_deletes nofun)
  · cases hstep

/-- The words of the header the unwinder writes identify no packet. -/
theorem step_unwind {private1 private2 : ℕ} (hw : WellFormed h.runtime w)
    (hstep : w.step h (.unwind address private1 private2) = some t) :
    Stepped h w (.unwind address private1 private2) t := by
  simp only [World.step] at hstep
  split at hstep
  · rename_i serial packet caller hheap
    cases hstep
    have hours := (hw.ours hheap).1
    exact .handed hheap nofun nofun rfl ⟨hours.class_, hours.canary, hours.cleanup⟩ nofun
  · cases hstep

/-- The unwinder returns to `raise`, which hands the packet on, or to `start`, which gives it up. -/
theorem step_return {reason : ReasonCode} (hw : WellFormed h.runtime w)
    (hstep : w.step h (.return_ address reason) = some t) :
    Stepped h w (.return_ address reason) t := by
  simp only [World.step] at hstep
  split at hstep
  · rename_i serial packet hheap
    cases hstep
    rw [raise.leave, run_pure, own_eq hheap]
    exact .handed hheap nofun nofun rfl (hw.ours hheap).1 nofun
  · rename_i serial packet hheap
    cases hstep
    rw [start.leave_run hheap]
    apply Stepped.given_up hw hheap nofun
    · simp [Event.serial]
    · simpa [about, Event.serial] using .terminal
    · exact iff_of_false (by simp) (not_deletes nofun)
  · cases hstep

theorem step_drop (hstep : w.step h (.drop address) = some t) :
    Stepped h w (.drop address) t := by
  simp only [World.step] at hstep
  split at hstep
  · rename_i serial packet reason hheap
    cases hstep
    rw [Raise.drop_run hheap]
    exact .dropped hheap nofun nofun
  · cases hstep

theorem step_take (hw : WellFormed h.runtime w) (hstep : w.step h (.take address) = some t) :
    Stepped h w (.take address) t := by
  simp only [World.step] at hstep
  split at hstep
  · rename_i serial packet caller hheap
    cases hstep
    rw [Heap.take_ours (hw.ours hheap).1 hheap]
    exact .extracted hheap nofun nofun
  · rename_i object hheap
    cases hstep
    rw [Heap.take_alien (hw.alien hheap) hheap]
    exact .spares hw hheap ⟨rfl, .inl rfl⟩ (List.append_nil _).symm (List.forall_mem_nil _)
      (not_deletes nofun)
  · cases hstep

theorem step_catch (hw : WellFormed h.runtime w) (hstep : w.step h (.catch_ address) = some t) :
    Stepped h w (.catch_ address) t := by
  simp only [World.step] at hstep
  split at hstep
  · rename_i serial packet caller hheap
    cases hstep
    rw [Heap.catch_ours (hw.ours hheap).1 hheap]
    exact .extracted hheap nofun nofun
  · rename_i object hheap
    cases hstep
    obtain ⟨u, events, hrun, hspares, hlog, hevents, -⟩ :=
      Heap.catch_alien (hw.alien hheap) hheap
    rw [hrun]
    exact .spares hw hheap hspares hlog hevents (not_deletes nofun)
  · cases hstep

/-- A packet that is deleted is given up; an object of another producer is not. -/
theorem step_delete (hw : WellFormed h.runtime w) (hstep : w.step h (.delete address) = some t) :
    Stepped h w (.delete address) t := by
  simp only [World.step] at hstep
  split at hstep
  · rename_i serial packet caller hheap
    cases hstep
    have hnull : address ≠ 0 := by
      rintro rfl
      rw [hw.null] at hheap
      cases hheap
    rw [deleteException_ours (hw.ours hheap).1 hnull hheap]
    have hlog : (w.record (.deletion address)).record (.lost serial) =
        { w with log := w.log ++ [.deletion address, .lost serial] } := by
      simp [World.record]
    rw [hlog]
    apply Stepped.given_up hw hheap nofun
    · simp [Event.serial]
    · simpa [about, Event.serial] using .lost
    · exact iff_of_true (by simp) ⟨_, _, _, _, rfl, hheap⟩
  · rename_i object hheap
    cases hstep
    obtain ⟨back, u, hrun, hspares, hlog⟩ := deleteException_alien (hw.alien hheap) hheap
    rw [hrun]
    exact .spares hw hheap hspares hlog (by simp [Event.serial]) (not_deletes_foreign hheap)
  · cases hstep

theorem step_foreign {object : Packet} (hstep : w.step h (.foreign address object) = some t) :
    Stepped h w (.foreign address object) t := by
  simp only [World.step] at hstep
  split at hstep
  · rename_i hfree
    cases hstep
    have hapart : Stepped h w (.foreign address object) _ := .apart (some object)
      (by rw [hfree.2.1]; nofun) (by rintro _ ⟨⟩; exact ⟨hfree.1, hfree.2.2⟩)
      (List.forall_mem_nil _) (not_deletes nofun)
    rwa [List.append_nil] at hapart
  · cases hstep

end

/-- Every step does one of these things. -/
theorem step_cases {h : Producers} {w t : World} {action : Action}
    (hw : WellFormed h.runtime w) (hstep : w.step h action = some t) : Stepped h w action t := by
  cases action with
  | raise caller payload address => exact step_raise hstep
  | unwind address private1 private2 => exact step_unwind hw hstep
  | return_ address reason => exact step_return hw hstep
  | drop address => exact step_drop hstep
  | take address => exact step_take hw hstep
  | catch_ address => exact step_catch hw hstep
  | delete address => exact step_delete hw hstep
  | foreign address object => exact step_foreign hstep

end Desenredo.Panic
