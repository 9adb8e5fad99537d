import Desenredo.Panic.LifecycleTheorems

/-!
# Exactly one release

A packet that is extracted or whose `Raise` error is dropped is released exactly once, and its
payload is returned or dropped exactly once. A packet that is deleted through its cleanup callback
is not released at all.
-/

namespace Desenredo.Panic

/-! ## The invariant -/

section

variable {serial : ℕ} {payload : Payload} {log events : List Event}

theorem about_append : about serial (log ++ events) = about serial log ++ about serial events :=
  List.filter_append _ _

/-- Events that are about no packet, or about another one, say nothing about a packet. -/
theorem about_eq_nil {other : Option ℕ} (hother : other ≠ some serial)
    (hevents : ∀ event ∈ events, event.serial = none ∨ event.serial = other) :
    about serial events = [] := by
  apply List.filter_eq_nil_iff.2
  intro event hmem
  rcases hevents event hmem with hnone | hsome
  · simp [hnone]
  · simp [hsome, hother]

/-- Nothing has happened to a packet someone is responsible for. -/
theorem Lived.eq_nil {owner : Owner} (hlived : Lived serial payload (some owner) log)
    (howner : owner ≠ .nobody) : log = [] := by
  cases hlived with
  | held _ => rfl
  | terminal => exact absurd rfl howner
  | lost => exact absurd rfl howner

end

/-- What has happened to every packet: nothing while someone is responsible for it, and after that
one of the ways its life can end. -/
structure Inv (rt : Runtime) (w : World) : Prop extends WellFormed rt w where
  held : ∀ {a serial p o}, w.heap a = some (.packet serial p o) →
    Lived serial p.payload (some o) (about serial w.log)
  gone : ∀ {serial payload}, w.raised[serial]? = some payload →
    (∀ a p o, w.heap a ≠ some (.packet serial p o)) → Lived serial payload none (about serial w.log)
  fresh : ∀ {serial}, w.raised.length ≤ serial → about serial w.log = []

theorem Inv.empty (rt : Runtime) : Inv rt .empty where
  null := rfl
  unique := nofun
  ours := nofun
  alien := nofun
  held := nofun
  gone := nofun
  fresh _ := rfl

section

variable {h : Producers} {w : World} {address : ℕ}

/-- The object at an address of a heap with one cell replaced. -/
theorem update_eq_some {heap : ℕ → Option Object} {cell : Option Object} {a : ℕ}
    {object : Object} : Function.update heap address cell a = some object ↔
      a = address ∧ cell = some object ∨ a ≠ address ∧ heap a = some object := by
  by_cases ha : a = address
  · subst ha
    simp
  · simp [ha]

theorem WellFormed.serial_lt {rt : Runtime} (hw : WellFormed rt w) {a serial : ℕ} {p : Packet}
    {o : Owner} (hheap : w.heap a = some (.packet serial p o)) : serial < w.raised.length :=
  (List.getElem?_eq_some_iff.1 (hw.ours hheap).2).1

theorem WellFormed.raised {payload : Payload} {caller : Caller} (hw : WellFormed h.runtime w)
    (hne : address ≠ 0) : WellFormed h.runtime (w.launched h.runtime caller payload address) where
  null := by
    show Function.update w.heap address _ 0 = none
    rw [Function.update_of_ne hne.symm, hw.null]
  unique := by
    intro a b serial p q o o' ha hb
    -- the number of the new packet is larger than all the others
    rcases update_eq_some.1 ha with ⟨rfl, hcell⟩ | ⟨-, hold⟩ <;>
      rcases update_eq_some.1 hb with ⟨rfl, hcell'⟩ | ⟨-, hold'⟩
    · rfl
    · cases hcell
      exact absurd (hw.serial_lt hold') (lt_irrefl _)
    · cases hcell'
      exact absurd (hw.serial_lt hold) (lt_irrefl _)
    · exact hw.unique hold hold'
  ours := by
    intro a serial p o ha
    rcases update_eq_some.1 ha with ⟨rfl, hcell⟩ | ⟨-, ha⟩
    · cases hcell
      exact ⟨.new _ _, List.getElem?_concat_length⟩
    · obtain ⟨hours, hraised⟩ := hw.ours ha
      exact ⟨hours, (List.getElem?_append_left (hw.serial_lt ha)).trans hraised⟩
  alien := by
    intro a fields ha
    rcases update_eq_some.1 ha with ⟨rfl, hcell⟩ | ⟨-, ha⟩
    · cases hcell
    · exact hw.alien ha

/-- Raising a packet adds one that the unwinder is responsible for. -/
theorem Inv.raised {payload : Payload} {caller : Caller} (hw : Inv h.runtime w)
    (hne : address ≠ 0) (hfree : w.heap address = none) :
    Inv h.runtime (w.launched h.runtime caller payload address) := by
  refine ⟨hw.toWellFormed.raised hne, ?held, ?gone, ?fresh⟩
  case held =>
    intro a serial p o ha
    rcases update_eq_some.1 ha with ⟨rfl, hcell⟩ | ⟨-, ha⟩
    · cases hcell
      show Lived w.raised.length payload (some (.unwinder caller)) (about w.raised.length w.log)
      rw [hw.fresh le_rfl]
      exact .held nofun
    · exact hw.held ha
  case gone =>
    intro serial raised hraised hgone
    replace hraised : (w.raised ++ [payload])[serial]? = some raised := hraised
    by_cases hlt : serial < w.raised.length
    · -- an earlier packet: the cell of the new one was free
      rw [List.getElem?_append_left hlt] at hraised
      refine hw.gone hraised fun a p o ha => hgone a p o (update_eq_some.2 (.inr ⟨?_, ha⟩))
      rintro rfl
      rw [hfree] at ha
      cases ha
    · have hlast : serial < w.raised.length + 1 := by
        simpa using (List.getElem?_eq_some_iff.1 hraised).1
      have hserial : serial = w.raised.length := by omega
      subst hserial
      exact absurd (update_eq_some.2 (.inl ⟨rfl, rfl⟩)) (hgone address _ _)
  case fresh =>
    intro serial hle
    have hlength : (w.raised ++ [payload]).length = w.raised.length + 1 := List.length_append
    have hle' : (w.raised ++ [payload]).length ≤ serial := hle
    exact hw.fresh (by omega)

/-- The packets of a heap in which the cell of one packet was changed. -/
theorem packet_of_moved {serial : ℕ} {packet : Packet} {owner : Owner}
    {cell : Option (Packet × Owner)}
    (hheap : w.heap address = some (.packet serial packet owner)) {a k : ℕ} {p : Packet}
    {o : Owner} (ha : Function.update w.heap address
      (cell.map fun left => .packet serial left.1 left.2) a = some (.packet k p o)) :
    a = address ∧ k = serial ∧ cell = some (p, o) ∨
      a ≠ address ∧ w.heap a = some (.packet k p o) := by
  apply (update_eq_some.1 ha).imp_left
  rintro ⟨rfl, hleft⟩
  obtain ⟨left, hcell, heq⟩ := Option.map_eq_some_iff.1 hleft
  cases heq
  exact ⟨rfl, rfl, hcell⟩

theorem WellFormed.moved {serial : ℕ} {packet : Packet} {owner : Owner} {log : List Event}
    {cell : Option (Packet × Owner)} (hw : WellFormed h.runtime w)
    (hheap : w.heap address = some (.packet serial packet owner))
    (hcell : ∀ left ∈ cell, left.1.payload = packet.payload ∧ Ours h.runtime left.1) :
    WellFormed h.runtime ⟨Function.update w.heap address
      (cell.map fun left => .packet serial left.1 left.2), w.raised, log⟩ where
  null := by
    have hnull : 0 ≠ address := by
      rintro rfl
      rw [hw.null] at hheap
      cases hheap
    show Function.update w.heap address _ 0 = none
    rw [Function.update_of_ne hnull, hw.null]
  unique := by
    intro a b k p q o o' ha hb
    -- the packets of the new heap were there before
    have hold : ∀ {a p o}, Function.update w.heap address
        (cell.map fun left => .packet serial left.1 left.2) a = some (.packet k p o) →
        ∃ q o', w.heap a = some (.packet k q o') := by
      intro a p o ha
      rcases packet_of_moved hheap ha with ⟨rfl, rfl, -⟩ | ⟨-, hkept⟩
      · exact ⟨_, _, hheap⟩
      · exact ⟨_, _, hkept⟩
    obtain ⟨_, _, ha'⟩ := hold ha
    obtain ⟨_, _, hb'⟩ := hold hb
    exact hw.unique ha' hb'
  ours := by
    intro a k p o ha
    rcases packet_of_moved hheap ha with ⟨rfl, rfl, hleft⟩ | ⟨-, hkept⟩
    · obtain ⟨hpayload, hours⟩ := hcell _ hleft
      rw [hpayload]
      exact ⟨hours, (hw.ours hheap).2⟩
    · exact hw.ours hkept
  alien := by
    intro a fields ha
    rcases update_eq_some.1 ha with ⟨rfl, hleft⟩ | ⟨-, hkept⟩
    · obtain ⟨left, -, heq⟩ := Option.map_eq_some_iff.1 hleft
      cases heq
    · exact hw.alien hkept

/-- A step on the cell of one packet that someone is responsible for. -/
theorem Inv.moved {serial : ℕ} {packet : Packet} {owner : Owner} {events : List Event}
    {cell : Option (Packet × Owner)} (hw : Inv h.runtime w)
    (hheap : w.heap address = some (.packet serial packet owner)) (howner : owner ≠ .nobody)
    (hcell : ∀ left ∈ cell, left.1.payload = packet.payload ∧ Ours h.runtime left.1)
    (hevents : ∀ event ∈ events, event.serial = none ∨ event.serial = some serial)
    (hlived : Lived serial packet.payload (cell.map Prod.snd) (about serial events)) :
    Inv h.runtime ⟨Function.update w.heap address
      (cell.map fun left => .packet serial left.1 left.2), w.raised, w.log ++ events⟩ := by
  -- nothing had happened to this packet, and nothing happens to the others
  have hself : about serial (w.log ++ events) = about serial events := by
    rw [about_append, (hw.held hheap).eq_nil howner, List.nil_append]
  have hother : ∀ {k}, k ≠ serial → about k (w.log ++ events) = about k w.log := by
    intro k hk
    have hk' : some serial ≠ some k := fun heq => hk (Option.some.inj heq).symm
    rw [about_append, about_eq_nil hk' hevents, List.append_nil]
  refine ⟨hw.toWellFormed.moved hheap hcell, ?held, ?gone, ?fresh⟩
  case held =>
    intro a k p o ha
    show Lived k p.payload (some o) (about k (w.log ++ events))
    rcases packet_of_moved hheap ha with ⟨rfl, rfl, hleft⟩ | ⟨hne, hkept⟩
    · rw [hleft] at hlived
      rw [hself, (hcell _ hleft).1]
      exact hlived
    · have hk : k ≠ serial := by
        rintro rfl
        exact hne (hw.unique hkept hheap)
      rw [hother hk]
      exact hw.held hkept
  case gone =>
    intro k payload hraised hgone
    show Lived k payload none (about k (w.log ++ events))
    by_cases hk : k = serial
    · subst hk
      cases cell with
      | some left => exact absurd (update_eq_some.2 (.inl ⟨rfl, rfl⟩)) (hgone address _ _)
      | none =>
        have hpayload := Option.some.inj ((hw.ours hheap).2.symm.trans hraised)
        rw [hself, ← hpayload]
        exact hlived
    · rw [hother hk]
      refine hw.gone hraised fun a p o ha => hgone a p o (update_eq_some.2 (.inr ⟨?_, ha⟩))
      rintro rfl
      rw [hheap] at ha
      cases ha
      exact hk rfl
  case fresh =>
    intro k hle
    show about k (w.log ++ events) = []
    have hk : k ≠ serial := by
      rintro rfl
      exact absurd (hw.serial_lt hheap) (not_lt.2 hle)
    rw [hother hk]
    exact hw.fresh hle

theorem WellFormed.apart {log : List Event} {object : Option Packet}
    (hw : WellFormed h.runtime w)
    (hfree : ∀ serial packet owner, w.heap address ≠ some (.packet serial packet owner))
    (hobject : ∀ fields ∈ object, address ≠ 0 ∧ Alien h.runtime fields) :
    WellFormed h.runtime ⟨Function.update w.heap address (object.map .foreign), w.raised, log⟩ where
  null := by
    show Function.update w.heap address _ 0 = none
    by_cases hzero : address = 0
    · subst hzero
      rw [Function.update_self, Option.map_eq_none_iff, Option.eq_none_iff_forall_not_mem]
      exact fun fields hmem => (hobject fields hmem).1 rfl
    · rw [Function.update_of_ne (Ne.symm hzero), hw.null]
  unique := by
    intro a b k p q o o' ha hb
    exact hw.unique ((packet_of_apart hfree).1 ha) ((packet_of_apart hfree).1 hb)
  ours := by
    intro a k p o ha
    exact hw.ours ((packet_of_apart hfree).1 ha)
  alien := by
    intro a fields ha
    rcases update_eq_some.1 ha with ⟨rfl, hobj⟩ | ⟨-, hkept⟩
    · obtain ⟨_, hmem, heq⟩ := Option.map_eq_some_iff.1 hobj
      cases heq
      exact (hobject fields hmem).2
    · exact hw.alien hkept

/-- A step on an object of another producer. -/
theorem Inv.apart {events : List Event} {object : Option Packet} (hw : Inv h.runtime w)
    (hfree : ∀ serial packet owner, w.heap address ≠ some (.packet serial packet owner))
    (hobject : ∀ fields ∈ object, address ≠ 0 ∧ Alien h.runtime fields)
    (hevents : ∀ event ∈ events, event.serial = none) :
    Inv h.runtime ⟨Function.update w.heap address (object.map .foreign), w.raised,
      w.log ++ events⟩ := by
  have habout : ∀ k, about k (w.log ++ events) = about k w.log := by
    intro k
    have hnone : ∀ event ∈ events, event.serial = none ∨ event.serial = none :=
      fun event hmem => .inl (hevents event hmem)
    rw [about_append, about_eq_nil (Option.some_ne_none k).symm hnone, List.append_nil]
  refine ⟨hw.toWellFormed.apart hfree hobject, ?held, ?gone, ?fresh⟩
  case held =>
    intro a k p o ha
    show Lived k p.payload (some o) (about k (w.log ++ events))
    rw [habout]
    exact hw.held ((packet_of_apart hfree).1 ha)
  case gone =>
    intro k payload hraised hgone
    show Lived k payload none (about k (w.log ++ events))
    rw [habout]
    exact hw.gone hraised fun a p o ha => hgone a p o ((packet_of_apart hfree).2 ha)
  case fresh =>
    intro k hle
    show about k (w.log ++ events) = []
    rw [habout]
    exact hw.fresh hle

/-- Every step keeps the invariant. -/
theorem Inv.step {t : World} {action : Action} (hw : Inv h.runtime w)
    (hstep : w.step h action = some t) : Inv h.runtime t := by
  cases step_cases hw.toWellFormed hstep with
  | raised hne hfree _ => exact hw.raised hne hfree
  | moved cell hheap howner hcell hevents hlived _ =>
    exact hw.moved hheap howner hcell hevents hlived
  | apart object hfree hobject hevents _ => exact hw.apart hfree hobject hevents

/-- A hook for lost packets takes control in a cleanup callback if and only if the step deletes a
packet. -/
theorem Stepped.lost {t : World} {action : Action} (hstepped : Stepped h w action t) :
    (∃ k, .lost k ∈ t.log) ↔ (∃ k, .lost k ∈ w.log) ∨ w.Deletes action := by
  cases hstepped with
  | raised _ _ hkeeps => exact (or_iff_left hkeeps).symm
  | @moved _ serial _ _ events _ _ _ _ hevents _ hlost =>
    have hserial : ∀ k, Event.lost k ∈ events ↔ k = serial ∧ w.Deletes action := by
      intro k
      rw [← hlost]
      constructor
      · intro hmem
        have hk : k = serial := by simpa [Event.serial] using hevents _ hmem
        exact ⟨hk, hk ▸ hmem⟩
      · rintro ⟨rfl, hmem⟩
        exact hmem
    simp only [List.mem_append, hserial, exists_or, exists_eq_left]
  | @apart _ events _ _ _ hevents hkeeps =>
    have hnone : ∀ k, Event.lost k ∉ events := by
      intro k hmem
      simpa [Event.serial] using hevents _ hmem
    simp [hnone, hkeeps]

end

/-! ## Runs -/

/-- No step of a run deletes a packet of this runtime through its cleanup callback. -/
def World.Spared (h : Producers) : World → List Action → Prop
  | _, [] => True
  | w, action :: actions => ¬w.Deletes action ∧ ∀ t ∈ w.step h action, t.Spared h actions

/-- Every run keeps the invariant, and a hook for lost packets takes control in a cleanup callback
if and only if the run deletes a packet. -/
theorem Inv.run {h : Producers} {actions : List Action} :
    ∀ {w t : World}, Inv h.runtime w → w.run h actions = some t → Inv h.runtime t ∧
      ((∃ k, .lost k ∈ t.log) ↔ (∃ k, .lost k ∈ w.log) ∨ ¬w.Spared h actions) := by
  induction actions with
  | nil =>
    intro w t hw hrun
    cases hrun
    exact ⟨hw, by simp [World.Spared]⟩
  | cons action actions ih =>
    intro w t hw hrun
    obtain ⟨u, hstep, hrun⟩ := Option.bind_eq_some_iff.1 hrun
    obtain ⟨ht, hlost⟩ := ih (hw.step hstep) hrun
    have hspared : w.Spared h (action :: actions) ↔ ¬w.Deletes action ∧ u.Spared h actions := by
      simp [World.Spared, hstep]
    refine ⟨ht, ?_⟩
    rw [hlost, (step_cases hw.toWellFormed hstep).lost, hspared, not_and_or, not_not, or_assoc]

/-! ## The contract -/

/-- The event ends the life of the payload of a packet. -/
def Event.ends (serial : ℕ) : Event → Bool
  | .dropped k | .returned k _ => k = serial
  | _ => false

/-- The box of a packet is released exactly once, before its cleanup callback calls the hook, and
its payload is either dropped exactly once or returned exactly once. -/
structure Released (serial : ℕ) (payload : Payload) (log : List Event) : Prop where
  box : log.count (.released serial) = 1
  payload : log.filter (Event.ends serial) = [.dropped serial] ∨
    log.filter (Event.ends serial) = [.returned serial payload]
  order : ∀ before after, log = before ++ .lost serial :: after → .released serial ∈ before

/-- `take` and `catch` leave every packet where it is when they refuse an object. `catch` deletes
an object of another class exactly once and one with another canary not at all. -/
structure Refused (h : Producers) (w : World) (address : ℕ) (object : Packet) : Prop where
  take : (Heap.take h.runtime address).run w = (some (.error (refusal object)), w)
  catch_ : ∃ t events, (Heap.catch_ h address).run w = (none, t) ∧ t.log = w.log ++ events ∧
    (∀ event ∈ events, event.serial = none) ∧
    (∀ a serial packet owner, t.heap a = some (.packet serial packet owner) ↔
      w.heap a = some (.packet serial packet owner)) ∧
    events.filter Event.isDeletion =
      if object.unwind.class_ = CLASS then [] else [.deletion address]

/-- Every packet whose life has ended other than in `start` has been released as it should, and
no refusal releases one. -/
structure Accounted (h : Producers) (w : World) : Prop where
  packets : ∀ serial payload, w.raised[serial]? = some payload →
    (∀ address packet owner, w.heap address = some (.packet serial packet owner) →
      owner = .nobody) →
    .terminal serial ∉ w.log → Released serial payload w.log
  refusals : ∀ address object, w.heap address = some object →
    object.fields.unwind.class_ ≠ CLASS ∨ object.fields.canary ≠ h.runtime.canary →
    Refused h w address object.fields

section

variable {serial : ℕ} {payload : Payload} {log : List Event}

theorem mem_about {event : Event} : event ∈ about serial log ↔
    event ∈ log ∧ event.serial = some serial := by
  rw [about, List.mem_filter, decide_eq_true_iff]

theorem count_about : (about serial log).count (.released serial) = log.count (.released serial) :=
  List.count_filter (by simp [Event.serial])

theorem filter_about : (about serial log).filter (Event.ends serial) =
    log.filter (Event.ends serial) := by
  rw [about, List.filter_filter]
  apply List.filter_congr
  intro event _
  cases event <;> simp [Event.ends, Event.serial]

/-- The packet of a box that is gone was dropped or returned. -/
theorem Lived.of_none (hlived : Lived serial payload none log) :
    log = [.dropped serial, .released serial] ∨
      log = [.released serial, .returned serial payload] := by
  cases hlived with
  | dropped => exact .inl rfl
  | returned => exact .inr rfl

/-- A packet that nobody is responsible for was given up to a hook. -/
theorem Lived.of_nobody (hlived : Lived serial payload (some .nobody) log) :
    log = [.terminal serial] ∨ log = [.lost serial] := by
  cases hlived with
  | held hne => exact absurd rfl hne
  | terminal => exact .inl rfl
  | lost => exact .inr rfl

/-- A packet whose box is gone was released as it should. -/
theorem Released.of_lived (hlived : Lived serial payload none (about serial log)) :
    Released serial payload log where
  box := by
    rw [← count_about]
    rcases hlived.of_none with habout | habout
    · simp [habout]
    · simp [habout]
  payload := by
    rw [← filter_about]
    rcases hlived.of_none with habout | habout
    · simp [habout, Event.ends]
    · simp [habout, Event.ends]
  order := by
    intro before after heq
    have hmem : .lost serial ∈ about serial log := by
      rw [mem_about, heq]
      exact ⟨List.mem_append_right _ List.mem_cons_self, rfl⟩
    rcases hlived.of_none with habout | habout
    · simp [habout] at hmem
    · simp [habout] at hmem

end

section

variable {h : Producers} {w : World}

/-- An object that is refused belongs to another producer. -/
theorem WellFormed.refused (hw : WellFormed h.runtime w) {address : ℕ} {object : Object}
    (hheap : w.heap address = some object)
    (hforeign : object.fields.unwind.class_ ≠ CLASS ∨
      object.fields.canary ≠ h.runtime.canary) :
    Refused h w address object.fields := by
  cases object with
  | packet serial packet owner =>
    have hours := (hw.ours hheap).1
    rcases hforeign with hclass | hcanary
    · exact absurd hours.class_ hclass
    · exact absurd hours.canary hcanary
  | foreign fields =>
    obtain ⟨t, events, hrun, hspares, hlog, hevents, hdeletions⟩ :=
      Heap.catch_alien (hw.alien hheap) hheap
    refine ⟨Heap.take_alien (hw.alien hheap) hheap, t, events, hrun, hlog, hevents, ?_, hdeletions⟩
    exact fun a serial packet owner => hspares.packet_iff hheap a

/-- A packet whose life has ended was released as it should, was given up by `start` or was lost
in its cleanup callback. -/
theorem Inv.ended (hw : Inv h.runtime w) {serial : ℕ} {payload : Payload}
    (hraised : w.raised[serial]? = some payload)
    (hended : ∀ address packet owner, w.heap address = some (.packet serial packet owner) →
      owner = .nobody) :
    Lived serial payload none (about serial w.log) ∨ about serial w.log = [.terminal serial] ∨
      about serial w.log = [.lost serial] := by
  by_cases hcell : ∃ a p o, w.heap a = some (.packet serial p o)
  · obtain ⟨a, p, o, hheap⟩ := hcell
    have howner := hended a p o hheap
    subst howner
    exact .inr (hw.held hheap).of_nobody
  · push Not at hcell
    exact .inl (hw.gone hraised hcell)

/-- A packet lost in its cleanup callback has not been released. -/
theorem Inv.lost (hw : Inv h.runtime w) {serial : ℕ} (hlost : .lost serial ∈ w.log) :
    ∃ payload, w.raised[serial]? = some payload ∧ about serial w.log = [.lost serial] ∧
      ∀ address packet owner, w.heap address = some (.packet serial packet owner) →
        owner = .nobody := by
  have habout : .lost serial ∈ about serial w.log := mem_about.2 ⟨hlost, rfl⟩
  have hlt : serial < w.raised.length := by
    by_contra hle
    rw [hw.fresh (not_lt.1 hle)] at habout
    cases habout
  have howner : ∀ address packet owner, w.heap address = some (.packet serial packet owner) →
      owner = .nobody := by
    intro a p o hheap
    by_contra hne
    rw [(hw.held hheap).eq_nil hne] at habout
    cases habout
  refine ⟨_, List.getElem?_eq_getElem hlt, ?_, howner⟩
  rcases hw.ended (List.getElem?_eq_getElem hlt) howner with hlived | hterminal | hlost
  · rcases hlived.of_none with heq | heq
    · simp [heq] at habout
    · simp [heq] at habout
  · simp [hterminal] at habout
  · exact hlost

/-- Every packet is accounted for if and only if no cleanup callback has lost one. -/
theorem Inv.accounted_iff (hw : Inv h.runtime w) :
    Accounted h w ↔ ¬∃ serial, .lost serial ∈ w.log := by
  constructor
  · rintro haccounted ⟨serial, hlost⟩
    obtain ⟨payload, hraised, habout, howner⟩ := hw.lost hlost
    have hterminal : .terminal serial ∉ w.log := by
      intro hmem
      have hmem' := mem_about.2 ⟨hmem, rfl⟩
      simp [habout] at hmem'
    have hbox := (haccounted.packets serial payload hraised howner hterminal).box
    rw [← count_about, habout] at hbox
    simp at hbox
  · intro hlost
    constructor
    · intro serial payload hraised howner hterminal
      rcases hw.ended hraised howner with hlived | habout | habout
      · exact .of_lived hlived
      · exact absurd (mem_about.1 (habout ▸ List.mem_singleton_self _)).1 hterminal
      · exact absurd ⟨serial, (mem_about.1 (habout ▸ List.mem_singleton_self _)).1⟩ hlost
    · intro address object hheap hforeign
      exact hw.toWellFormed.refused hheap hforeign

end

/-- In every run of the runtime, for any number of packets, every packet whose life has ended other
than in `start` is released exactly once and its payload dropped or returned exactly once, if and
only if no packet is deleted through its cleanup callback. -/
theorem packets_released_once {h : Producers} {actions : List Action} {w : World}
    (hrun : World.run h .empty actions = some w) :
    Accounted h w ↔ World.Spared h .empty actions := by
  obtain ⟨hw, hlost⟩ := (Inv.empty h.runtime).run hrun
  have hempty : ¬∃ k, Event.lost k ∈ World.empty.log := nofun
  rw [hw.accounted_iff, hlost, or_iff_right hempty, not_not]

/-- The actions of a run that are no deletions spare every packet. -/
theorem World.Spared.of_not_delete {h : Producers} {actions : List Action} :
    ∀ {w : World}, (∀ address, Action.delete address ∉ actions) → w.Spared h actions := by
  induction actions with
  | nil => exact fun _ => trivial
  | cons action actions ih =>
    intro w hne
    refine ⟨not_deletes fun a heq => hne a (heq ▸ List.mem_cons_self), fun t _ => ih ?_⟩
    exact fun a hmem => hne a (List.mem_cons_of_mem _ hmem)

/-- A runtime next to a producer whose callback at 9 comes back. -/
def producers : Producers := ⟨⟨1, 2, 3⟩, fun cleanup => cleanup = 9, by decide⟩

/-- Three packets and a foreign object whose lives overlap: one packet is taken, the second dropped
with its error and the third ends in `start`. -/
def overlapping : List Action :=
  [.raise .raise ⟨16, 17⟩ 4096, .raise .raise ⟨32, 33⟩ 8192, .unwind 4096 5 6,
    .raise .start ⟨48, 49⟩ 12288, .return_ 8192 .END, .foreign 16384 ⟨.new ⟨7⟩ 9, 0, ⟨0, 0⟩, 0⟩,
    .take 4096, .return_ 12288 .END, .catch_ 16384, .drop 8192]

/-- Every one of the packets in flight at the same time is accounted for. -/
theorem packets_released_once_overlapping :
    ∃ w, World.run producers .empty overlapping = some w ∧ Accounted producers w := by
  have hspared : World.empty.Spared producers overlapping := .of_not_delete (by simp [overlapping])
  have hrun : World.run producers .empty overlapping = some _ := rfl
  exact ⟨_, hrun, (packets_released_once hrun).2 hspared⟩

/-- The cleanup callback of a deleted packet releases nothing. -/
theorem packets_released_once_fails :
    ¬∀ (h : Producers) (actions : List Action) (w : World),
      World.run h .empty actions = some w → Accounted h w := by
  intro hall
  have hrun : World.run producers .empty [.raise .raise ⟨16, 17⟩ 4096, .delete 4096] =
      some ⟨Function.update (Function.update (fun _ => none) 4096
        (some (.packet 0 (.new producers.runtime ⟨16, 17⟩) (.unwinder .raise)))) 4096
        (some (.packet 0 (.new producers.runtime ⟨16, 17⟩) .nobody)),
        [⟨16, 17⟩], [.deletion 4096, .lost 0]⟩ := rfl
  have hreleased := (hall _ _ _ hrun).packets 0 ⟨16, 17⟩ rfl
    (by
      intro address packet owner hheap
      rcases update_eq_some.1 hheap with ⟨-, hcell⟩ | ⟨hne, hheap⟩
      · cases hcell
        rfl
      · rw [Function.update_of_ne hne] at hheap
        cases hheap)
    (by decide)
  exact absurd hreleased.box (by decide)

end Desenredo.Panic
