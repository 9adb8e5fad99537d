import Desenredo.Unwind.TraceTheorems
import Desenredo.Worker.Backtrace

/-!
# What a captured backtrace holds

The trace of the worker holds the frames that repeated steps of a cursor report, up to the limit
of its storage, and says exactly then that it is truncated when there were more.
-/

namespace Desenredo.Worker

open Unwind

/-- The address of a recorded counter is nonzero, so it always belongs to an instruction. -/
theorem ProgramCounter.probe_new {rip : ℕ} (h : rip ≠ 0) (before : Bool) :
    ∃ pc, new rip before = some pc ∧ pc.probe = some (if before then rip else rip - 1) := by
  refine ⟨_, by rw [new, NonZeroUsize.new, dif_pos h, Option.map_some], ?_⟩
  cases before with
  | true => rfl
  | false => exact Usize.checkedSub_eq_some.2 ⟨Nat.one_le_iff_ne_zero.2 h, rfl⟩

/-! ## Storage -/

namespace Trace

variable {trace : Trace} {frame : ProgramCounter}

@[simp] theorem frames_new : new.frames = [] := List.reduceOption_replicate_none

/-- The free slots hold no frame. -/
theorem frames_eq (trace : Trace) : trace.frames = (trace.slots.take trace.len).reduceOption := by
  have hfree : (trace.slots.drop trace.len).reduceOption = [] :=
    List.filterMap_eq_nil_iff.2 trace.free
  calc trace.frames = (trace.slots.take trace.len ++ trace.slots.drop trace.len).reduceOption := by
        rw [frames, List.take_append_drop]
    _ = (trace.slots.take trace.len).reduceOption := by
        rw [List.reduceOption_append, hfree, List.append_nil]

theorem length_frames (trace : Trace) : trace.frames.length = trace.len := by
  rw [frames_eq, List.reduceOption_length_eq_iff.2 trace.filled, List.length_take, trace.size,
    Nat.min_eq_left trace.len_le]

theorem frames_push (h : trace.len < FRAME_LIMIT) (frame : ProgramCounter) :
    (trace.push frame).frames = trace.frames ++ [frame] := by
  have hlen : trace.len < trace.slots.length := trace.size ▸ h
  have hfree : (trace.slots.drop (trace.len + 1)).reduceOption = [] :=
    List.filterMap_eq_nil_iff.2 fun slot hslot =>
      trace.free slot (List.drop_subset_drop_left _ (Nat.le_succ _) hslot)
  rw [push, dif_pos hlen, frames_eq trace]
  show (trace.slots.set trace.len (some frame)).reduceOption = _
  rw [set_len hlen, List.reduceOption_append, List.reduceOption_cons_of_some, hfree]

theorem truncated_push (h : trace.len < FRAME_LIMIT) (frame : ProgramCounter) :
    (trace.push frame).truncated = trace.truncated := by
  rw [push, dif_pos (trace.size ▸ h)]

theorem push_of_full (h : trace.len = FRAME_LIMIT) (frame : ProgramCounter) :
    trace.push frame = { trace with truncated := true } := by
  rw [push, dif_neg (by rw [trace.size, h]; exact lt_irrefl _)]

/-- Recording frames fills the storage in their order, and notes what no longer fits. -/
theorem push_all (pcs : List ProgramCounter) (trace : Trace) :
    (pcs.foldl push trace).frames = (trace.frames ++ pcs).take FRAME_LIMIT ∧
      ((pcs.foldl push trace).truncated ↔
        trace.truncated ∨ FRAME_LIMIT < trace.frames.length + pcs.length) := by
  induction pcs generalizing trace with
  | nil =>
    have hle : trace.frames.length ≤ FRAME_LIMIT := by
      rw [length_frames]
      exact trace.len_le
    simp [List.take_of_length_le hle, hle]
  | cons pc pcs ih =>
    obtain ⟨hframes, htruncated⟩ := ih (trace.push pc)
    rw [List.foldl_cons, hframes, htruncated]
    obtain h | h := trace.len_le.lt_or_eq
    · rw [frames_push h, truncated_push h, List.append_assoc, List.singleton_append,
        List.length_append, List.length_singleton, List.length_cons, Nat.add_assoc,
        Nat.add_comm 1]
      exact ⟨rfl, Iff.rfl⟩
    · have hlen : trace.frames.length = FRAME_LIMIT := by rw [length_frames, h]
      have hpush : (trace.push pc).frames = trace.frames := by rw [push_of_full h]; rfl
      rw [hpush, push_of_full h, List.take_append_of_le_length hlen.ge,
        List.take_append_of_le_length hlen.ge]
      simp [hlen]

end Trace

/-! ## Capture -/

section

variable [Gimli] {U : Unwinder} {c : Cursor}

/-- What the events of a walk do to the trace: every frame seen is recorded at the address it was
resolved at. -/
def Records (log : List (Event Trace)) (before after : Trace) : Prop :=
  ∃ pcs : List ProgramCounter,
    pcs.map ProgramCounter.probe = (log.filterMap Event.seen).map (some ·.ip) ∧
    after = pcs.foldl Trace.push before

theorem Records.nil (trace : Trace) : Records [] trace trace := ⟨[], rfl, rfl⟩

theorem Records.append {log rest : List (Event Trace)} {first second third : Trace} :
    Records log first second → Records rest second third → Records (log ++ rest) first third := by
  rintro ⟨pcs, hpcs, rfl⟩ ⟨more, hmore, rfl⟩
  exact ⟨pcs ++ more, by rw [List.map_append, hpcs, hmore, List.filterMap_append, List.map_append],
    by rw [List.foldl_append]⟩

theorem looks_visit : Looks visit := by
  intro context parameter host
  unfold visit
  dsimp only
  split <;> exact ⟨rfl, rfl⟩

/-- A visit records the frame the cursor stands on. -/
theorem visit_records {info : Info} (hinfo : c.current U = .ok (some info)) (parameter : ℕ)
    (host : Host Trace) :
    Records [.frame c info, .visit ⟨c, some info⟩ (visit (some ⟨c, some info⟩) parameter host)]
      host.world (visit (some ⟨c, some info⟩) parameter host).host.world := by
  obtain ⟨ip, hip, hne, -⟩ := Info.site_eq_some.1 (Info.new_eq_ok.1 hinfo).1
  have hpc : Callback.info ⟨c, some info⟩ = (ip, c.relation.before) := by
    simp [Callback.info, Callback.pc, Cursor.ip, hip]
  have hlookup : (if c.relation.before then ip else ip - 1) = info.ip := by
    rw [← Callback.lookup_eq hinfo, Callback.lookup, hpc]
    cases c.relation.before <;> rfl
  obtain ⟨pc, hnew, hprobe⟩ := ProgramCounter.probe_new hne c.relation.before
  refine ⟨[pc], ?_, ?_⟩
  · simp only [List.map_cons, List.map_nil, hprobe, hlookup, List.filterMap_cons, Event.seen,
      Callback.lookup_eq hinfo, List.filterMap_nil]
  · simp [visit, hpc, hnew]

/-- The trace a turn of the walk leaves. -/
def left : Turn (Position Trace) (Event Trace) (ReasonCode × Host Trace) → Trace
  | .again _ s => s.host.world
  | .done _ result => result.2.world

/-- One turn of the walk records the frame it visits. -/
theorem traceTurn_records (parameter : ℕ) (s : Position Trace) :
    Records (Walk.traceTurn U visit parameter s).log s.host.world
      (left (Walk.traceTurn U visit parameter s)) := by
  obtain ⟨c, host⟩ := s
  cases hinfo : c.current U with
  | error error =>
    rw [Walk.traceTurn_of_error hinfo]
    exact .nil _
  | ok info =>
    cases info with
    | none =>
      rw [Walk.traceTurn_of_end hinfo]
      exact .nil _
    | some info =>
      obtain ⟨hreason, hwrites⟩ := looks_visit (some ⟨c, some info⟩) parameter host
      have hrecords := visit_records hinfo parameter host
      simp only [Walk.traceTurn, hinfo, hreason, Walk.after]
      split <;> exact hrecords

/-- The trace a walk leaves holds the frames the walk saw. -/
theorem trace_records {n : ℕ} {state : State} {host host' : Host Trace} {parameter : ℕ}
    {log : List (Event Trace)} {reason : ReasonCode}
    (h : Walk.trace n state host U visit parameter = (log, some (reason, host'))) :
    Records log host.world host'.world := by
  refine Loop.Leaves.induction
    (motive := fun s log result => Records log s.host.world result.2.world) ?_ ?_ (.of_run h)
  · intro s log result hturn
    have := traceTurn_records (U := U) parameter s
    rwa [hturn] at this
  · intro s log t rest result hturn _ ih
    have := traceTurn_records (U := U) parameter s
    rw [hturn] at this
    exact this.append ih

/-- **Backtraces.** Capturing a backtrace holds the frames that repeated steps of a cursor report,
in their order and at the addresses they were resolved at, up to the limit of the storage; it is
truncated when there are more. A stack that cannot be stepped to its end has no backtrace. -/
theorem capture_holds_steps {state : State} (hstack : state.HasStack) (hrows : U.KeepsStack)
    (memory : Memory) :
    (∀ n frames, Cursor.steps U n (.new state) = (frames, some (.ok ())) →
      ∃ m trace, capture m state memory U = some (.ok trace) ∧
        trace.frames.map ProgramCounter.probe = (frames.take FRAME_LIMIT).map (some ·.ip) ∧
        (trace.truncated ↔ FRAME_LIMIT < frames.length)) ∧
    ∀ n frames error, Cursor.steps U n (.new state) = (frames, some (.error error)) →
      ∃ m, capture m state memory U = some (.error .walk) := by
  constructor
  · intro n frames h
    obtain ⟨log, reason, host, ⟨m, hrun⟩, rfl, rfl⟩ :=
      Walk.trace_answers hrows looks_visit (.of_run h) hstack 0 ⟨memory, Trace.new⟩
    obtain ⟨pcs, hpcs, hworld⟩ := trace_records hrun
    obtain ⟨hframes, htruncated⟩ := Trace.push_all pcs Trace.new
    have hlength := congrArg List.length hpcs
    rw [List.length_map, List.length_map] at hlength
    rw [← hworld, Trace.frames_new, List.nil_append] at hframes
    refine ⟨m, host.world, by rw [capture, Walk.trace, hrun]; rfl, ?_, ?_⟩
    · rw [hframes, List.map_take, hpcs, List.map_take]
    · rw [hworld, htruncated, Trace.frames_new, ← hlength]
      simp [Trace.new]
  · intro n frames error h
    obtain ⟨log, reason, host, ⟨m, hrun⟩, rfl, -⟩ :=
      Walk.trace_answers hrows looks_visit (.of_run h) hstack 0 ⟨memory, Trace.new⟩
    exact ⟨m, by rw [capture, Walk.trace, hrun]; rfl⟩

end

attribute [local instance] Gimli.decoded in
/-- A stack of two frames fits. -/
theorem capture_holds_steps_calls :
    ∃ m trace, capture m (Calls.state 100) (fun _ => 0) Calls.unwinder = some (.ok trace) ∧
      trace.frames.map ProgramCounter.probe = [some 99, some 199] ∧
      (trace.truncated ↔ FRAME_LIMIT < 2) :=
  (capture_holds_steps ⟨1000, rfl⟩ Calls.keepsStack fun _ => 0).1 3 [⟨99, 1000⟩, ⟨199, 1008⟩] rfl

end Desenredo.Worker
