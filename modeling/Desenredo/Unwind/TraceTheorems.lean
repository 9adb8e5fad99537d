import Desenredo.Unwind.CursorTheorems
import Desenredo.Unwind.Runtime

/-!
# The backtrace walk

A trace function that only looks sees the frames repeated steps of a cursor report.
-/

namespace Desenredo.Unwind

section

variable [Gimli] {W : Type}

/-- One turn of a loop that steps a cursor and collects the frames. -/
def Cursor.stepTurn (U : Unwinder) (c : Cursor) : Turn Cursor Frame (Except UnwindError Unit) :=
  match c.step U with
  | (.ok (some frame), next) => .again [frame] next
  | (.ok none, _) => .done [] (.ok ())
  | (.error error, _) => .done [] (.error error)

/-- The frames at most `n` steps of a cursor report, and how stepping ends. -/
def Cursor.steps (U : Unwinder) (n : ℕ) (c : Cursor) :
    List Frame × Option (Except UnwindError Unit) :=
  Loop.run (stepTurn U) n c

/-- The lookup address a callback computes from the instruction pointer and its flag. -/
def Callback.lookup (callback : Callback) : ℕ :=
  match callback.info with
  | (address, true) => address
  | (address, false) => address - 1

/-- The frame a trace function sees. -/
def Event.seen : Event W → Option Frame
  | .visit callback _ => some ⟨callback.lookup, callback.base⟩
  | _ => none

/-- No row the unwinder resolves takes the stack pointer of the caller away. -/
def Unwinder.KeepsStack (U : Unwinder) : Prop :=
  ∀ state relation info, Info.new U state relation = .ok (some info) →
    (.RSP, .undefined) ∉ info.row.registers

/-- The trace function asks for the next frame and writes no register. -/
def Looks (visit : TraceFn W) : Prop :=
  ∀ context parameter host, (visit context parameter host).reason = .NONE ∧
    (visit context parameter host).writes = []

/-- A callback on a resolved frame looks up the address the frame was resolved at. -/
theorem Callback.lookup_eq {U : Unwinder} {c : Cursor} {info : Info}
    (h : c.current U = .ok (some info)) : Callback.lookup ⟨c, some info⟩ = info.ip := by
  obtain ⟨ip, hip, hne, hsite⟩ := Info.site_eq_some.1 (Info.new_eq_ok.1 h).1
  have hpc : c.ip = some ip := hip
  cases hrelation : c.relation with
  | return_ =>
    rw [hrelation, Relation.site, Usize.checkedSub_eq_some] at hsite
    simp [lookup, Callback.info, pc, hpc, hrelation, Relation.before, Info.ip, hsite.2]
  | instruction =>
    rw [hrelation, Relation.site, Option.some.injEq] at hsite
    simp [lookup, Callback.info, pc, hpc, hrelation, Relation.before, Info.ip, hsite]

end

namespace Walk

section

variable [Gimli] {W : Type} {U : Unwinder} {visit : TraceFn W} {parameter : ℕ} {c : Cursor}
  {host : Host W}

/-- What a trace function that only looks makes of one turn. -/
theorem traceTurn_of_current {info : Info} {sp : ℕ} (hvisit : Looks visit)
    (hinfo : c.current U = .ok (some info)) (hsp : c.stack = .ok sp) (parameter : ℕ)
    (host : Host W) :
    ∃ log host', log.filterMap Event.seen = [⟨info.ip, sp⟩] ∧
      traceTurn U visit parameter ⟨c, host⟩ = match info.caller U c.state with
        | .error _ => .done log (.FATAL1, host')
        | .ok caller => .again log ⟨⟨caller, info.callerRelation⟩, host'⟩ := by
  obtain ⟨hreason, hwrites⟩ := hvisit (some ⟨c, some info⟩) parameter host
  have hbase : Callback.base ⟨c, some info⟩ = sp := by
    simp [Callback.base, hsp, Except.toOption]
  refine ⟨[.frame c info, .visit ⟨c, some info⟩ (visit (some ⟨c, some info⟩) parameter host)],
    (visit (some ⟨c, some info⟩) parameter host).host, ?_, ?_⟩
  · simp only [List.filterMap_cons, List.filterMap_nil, Event.seen, Callback.lookup_eq hinfo, hbase]
  · simp only [traceTurn, hinfo, hreason, after, hwrites, Callback.replay_nil]
    cases hcaller : info.caller U c.state with
    | error error => simp only [Cursor.advance_of_error hcaller]
    | ok caller => simp only [Cursor.advance_eq_ok.2 ⟨caller, hcaller, rfl⟩]

theorem traceTurn_of_end (h : c.current U = .ok none) :
    traceTurn U visit parameter ⟨c, host⟩ = .done [] (.END, host) := by
  simp only [traceTurn, h]

theorem traceTurn_of_error {error : UnwindError} (h : c.current U = .error error) :
    traceTurn U visit parameter ⟨c, host⟩ = .done [] (.FATAL1, host) := by
  simp only [traceTurn, h]

/-- How the frames a walk saw and its reason answer a sequence of steps. -/
def Answers (U : Unwinder) (c : Cursor) (frames : List Frame) (seen : List Frame)
    (reason : ReasonCode) : Except UnwindError Unit → Prop
  | .ok () => reason = .END ∧ seen = frames
  | .error error => reason = .FATAL1 ∧ (seen = frames ∨ ∃ last info sp,
      Loop.Path (Cursor.stepTurn U) c frames last ∧ last.current U = .ok (some info) ∧
      last.stack = .ok sp ∧ info.caller U last.state = .error error ∧
      seen = frames ++ [⟨info.ip, sp⟩])

theorem Answers.cons {next : Cursor} {frame : Frame} {frames seen : List Frame}
    {reason : ReasonCode} {result : Except UnwindError Unit}
    (hstep : Cursor.stepTurn U c = .again [frame] next)
    (h : Answers U next frames seen reason result) :
    Answers U c (frame :: frames) (frame :: seen) reason result := by
  cases result with
  | ok _ => exact ⟨h.1, congrArg _ h.2⟩
  | error error =>
    obtain ⟨hreason, rfl | ⟨last, info, sp, hpath, hinfo, hsp, hcaller, rfl⟩⟩ := h
    · exact ⟨hreason, .inl rfl⟩
    · exact ⟨hreason, .inr ⟨last, info, sp, .cons hstep hpath, hinfo, hsp, hcaller, rfl⟩⟩

/-- Where stepping ends or fails, the walk leaves. -/
theorem traceTurn_of_done (hvisit : Looks visit) {frames : List Frame}
    {result : Except UnwindError Unit} (hturn : Cursor.stepTurn U c = .done frames result)
    (hstack : c.state.HasStack) (parameter : ℕ) (host : Host W) :
    ∃ log reason host', traceTurn U visit parameter ⟨c, host⟩ = .done log (reason, host') ∧
      Answers U c frames (log.filterMap Event.seen) reason result := by
  obtain ⟨sp, hsp⟩ := hstack
  cases hinfo : c.current U with
  | error error =>
    rw [Cursor.stepTurn, Cursor.step_of_error hinfo] at hturn
    cases hturn
    exact ⟨[], .FATAL1, host, traceTurn_of_error hinfo, rfl, .inl rfl⟩
  | ok info =>
    cases info with
    | none =>
      rw [Cursor.stepTurn, Cursor.step_of_end hinfo] at hturn
      cases hturn
      exact ⟨[], .END, host, traceTurn_of_end hinfo, rfl, rfl⟩
    | some info =>
      obtain ⟨log, host', hlog, hbody⟩ := traceTurn_of_current hvisit hinfo hsp parameter host
      cases hcaller : info.caller U c.state with
      | ok caller =>
        rw [Cursor.stepTurn, Cursor.step_of_caller hinfo hsp hcaller] at hturn
        cases hturn
      | error error =>
        -- the walk visits a frame before it asks for the caller, a step after that
        rw [Cursor.stepTurn, Cursor.step_of_lost hinfo hsp hcaller] at hturn
        cases hturn
        rw [hcaller] at hbody
        exact ⟨log, .FATAL1, host', hbody, rfl,
          .inr ⟨c, info, sp, .nil c, hinfo, hsp, hcaller, hlog⟩⟩

/-- Where stepping goes on, the walk sees the same frame and goes on to the same caller. -/
theorem traceTurn_of_again (hrows : U.KeepsStack) (hvisit : Looks visit) {frames : List Frame}
    {next : Cursor} (hturn : Cursor.stepTurn U c = .again frames next)
    (hstack : c.state.HasStack) (parameter : ℕ) (host : Host W) :
    ∃ frame log host', frames = [frame] ∧ log.filterMap Event.seen = [frame] ∧
      traceTurn U visit parameter ⟨c, host⟩ = .again log ⟨next, host'⟩ ∧
      next.state.HasStack := by
  obtain ⟨sp, hsp⟩ := hstack
  cases hinfo : c.current U with
  | error error =>
    rw [Cursor.stepTurn, Cursor.step_of_error hinfo] at hturn
    cases hturn
  | ok info =>
    cases info with
    | none =>
      rw [Cursor.stepTurn, Cursor.step_of_end hinfo] at hturn
      cases hturn
    | some info =>
      obtain ⟨log, host', hlog, hbody⟩ := traceTurn_of_current hvisit hinfo hsp parameter host
      cases hcaller : info.caller U c.state with
      | error error =>
        rw [Cursor.stepTurn, Cursor.step_of_lost hinfo hsp hcaller] at hturn
        cases hturn
      | ok caller =>
        rw [Cursor.stepTurn, Cursor.step_of_caller hinfo hsp hcaller] at hturn
        cases hturn
        rw [hcaller] at hbody
        exact ⟨_, log, host', rfl, hlog, hbody, Info.caller_hasStack (hrows _ _ _ hinfo) hcaller⟩

/-- The walk leaves as stepping does, having seen the frames the steps reported. -/
theorem trace_answers (hrows : U.KeepsStack) (hvisit : Looks visit) {frames : List Frame}
    {result : Except UnwindError Unit}
    (h : Loop.Leaves (Cursor.stepTurn U) c frames result) (hstack : c.state.HasStack)
    (parameter : ℕ) (host : Host W) :
    ∃ log reason host', Loop.Leaves (traceTurn U visit parameter) ⟨c, host⟩ log (reason, host') ∧
      Answers U c frames (log.filterMap Event.seen) reason result := by
  -- on the turns of stepping; a caller keeps the stack pointer, so that every turn reads one
  refine Loop.Leaves.induction (motive := fun c frames result => c.state.HasStack →
    ∀ host, ∃ log reason host',
      Loop.Leaves (traceTurn U visit parameter) ⟨c, host⟩ log (reason, host') ∧
      Answers U c frames (log.filterMap Event.seen) reason result) ?_ ?_ h hstack host
  · intro c frames result hturn hstack host
    obtain ⟨log, reason, host', hbody, hanswers⟩ :=
      traceTurn_of_done hvisit hturn hstack parameter host
    exact ⟨log, reason, host', (Loop.leaves_done hbody).2 ⟨rfl, rfl⟩, hanswers⟩
  · intro c frames next rest result hturn _ ih hstack host
    obtain ⟨frame, log, host', rfl, hlog, hbody, hkept⟩ :=
      traceTurn_of_again hrows hvisit hturn hstack parameter host
    obtain ⟨log', reason, host'', hleaves, hanswers⟩ := ih hkept host'
    refine ⟨log ++ log', reason, host'', (Loop.leaves_again hbody).2 ⟨log', rfl, hleaves⟩, ?_⟩
    rw [List.filterMap_append, hlog]
    exact hanswers.cons hturn

/-- Stepping a cursor and walking a backtrace go through the same frames: a walk whose function
only looks ends where stepping ends, or fails where stepping fails, then possibly having seen
the frame whose caller is lost. A step or an advance that fails moves nothing. -/
theorem trace_follows_step {state : State} (hstack : state.HasStack) (hrows : U.KeepsStack)
    (hvisit : Looks visit) (parameter : ℕ) (host : Host W) :
    (∀ n frames, Cursor.steps U n (.new state) = (frames, some (.ok ())) →
      ∃ m log host', trace m state host U visit parameter = (log, some (.END, host')) ∧
        log.filterMap Event.seen = frames) ∧
    (∀ n frames error, Cursor.steps U n (.new state) = (frames, some (.error error)) →
      ∃ m log host', trace m state host U visit parameter = (log, some (.FATAL1, host')) ∧
        (log.filterMap Event.seen = frames ∨ ∃ last info sp,
          Loop.Path (Cursor.stepTurn U) (.new state) frames last ∧
          last.current U = .ok (some info) ∧ last.stack = .ok sp ∧
          info.caller U last.state = .error error ∧
          log.filterMap Event.seen = frames ++ [⟨info.ip, sp⟩])) ∧
    (∀ (c : Cursor) error, (c.step U).1 = .error error → (c.step U).2 = c) ∧
    ∀ (c : Cursor) info error, (c.advance U info).1 = .error error → (c.advance U info).2 = c := by
  refine ⟨?_, ?_, fun c error h => Cursor.step_snd_of_error h,
    fun c info error h => Cursor.advance_snd_of_error h⟩
  · intro n frames h
    obtain ⟨log, reason, host', ⟨m, hrun⟩, rfl, hseen⟩ :=
      trace_answers hrows hvisit (.of_run h) hstack parameter host
    exact ⟨m, log, host', hrun, hseen⟩
  · intro n frames error h
    obtain ⟨log, reason, host', ⟨m, hrun⟩, rfl, hseen⟩ :=
      trace_answers hrows hvisit (.of_run h) hstack parameter host
    exact ⟨m, log, host', hrun, hseen⟩

end

end Walk

attribute [local instance] Gimli.decoded in
/-- The stack pointer is recovered in both calls. -/
theorem Calls.keepsStack : Calls.unwinder.KeepsStack := by
  intro state relation info h
  have hentry := Info.new_decoded h
  unfold Calls.rows at hentry
  split at hentry
  · rw [← (Prod.mk.inj (Option.some.inj hentry)).2]
    decide
  · rw [← (Prod.mk.inj (Option.some.inj hentry)).2]
    decide
  · rw [← (Prod.mk.inj (Option.some.inj hentry)).2]
    decide
  · cases hentry

attribute [local instance] Gimli.decoded in
/-- Two frames, the outer of which has nobody to return to. -/
theorem Walk.trace_follows_step_calls :
    let visit : TraceFn Unit := fun _ _ host => ⟨.NONE, [], host⟩
    ∃ m log host', trace m (Calls.state 100) ⟨fun _ => 0, ()⟩ Calls.unwinder visit 0 =
        (log, some (.END, host')) ∧
      log.filterMap Event.seen = [⟨99, 1000⟩, ⟨199, 1008⟩] := by
  intro visit
  exact (trace_follows_step ⟨1000, rfl⟩ Calls.keepsStack (fun _ _ _ => ⟨rfl, rfl⟩) 0
    ⟨fun _ => 0, ()⟩).1 3 [⟨99, 1000⟩, ⟨199, 1008⟩] rfl

end Desenredo.Unwind
