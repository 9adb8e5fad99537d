import Desenredo.Unwind.WalkTheorems

/-!
# Forced unwinding

The calls of a forced pass. When no callback writes a register before it asks for an
installation, the stack alone says which calls a pass can make and in which order; the answers
only say how far down this script the pass gets.
-/

namespace Desenredo.Unwind

section

variable [Gimli] {W : Type}

/-- A call as the callback sees it. -/
inductive Asked where
  | stop (args : Arguments)
  | personality (args : Arguments)

/-- The arguments of a call. -/
def Asked.args : Asked → Arguments
  | .stop args | .personality args => args

/-- The frame the context of a call stands on. -/
def Asked.frame (asked : Asked) : Option Info := asked.args.context.bind Callback.frame

namespace Event

/-- The call an event is, if it is one of a propagation pass. -/
def asked : Event W → Option Asked
  | .stop call => some (.stop call.args)
  | .personality call => some (.personality call.args)
  | _ => none

/-- The callback, if the event is a call, lets a forced pass go on. -/
def Good : Event W → Prop
  | .stop call => call.reply.reason = .NONE
  | .personality call => call.reply.reason = .CONTINUE
  | _ => True

end Event

/-- Callbacks write no register unless they ask for an installation. -/
structure Code.Quiet (code : Code W) : Prop where
  stop : ∀ address args parameter host,
    (code.stop address args parameter host).reason ≠ .INSTALL →
      (code.stop address args parameter host).writes = []
  personality : ∀ address args host,
    (code.personality address args host).reason ≠ .INSTALL →
      (code.personality address args host).writes = []

namespace Walk

variable (w : Walk W)

/-- The call of a personality in a forced pass, where the frame has one. -/
def heard (c : Cursor) (info : Info) : List Asked :=
  match w.routine info with
  | .ok (some _) => [.personality (w.args c (some info) (.FORCE ||| .CLEANUP))]
  | _ => []

/-- The calls a forced pass makes on the first frames of a stack if every callback lets it. -/
def script : ℕ → Cursor → List Asked
  | 0, _ => []
  | n + 1, c =>
    match c.current w.unwinder with
    | .error _ => []
    | .ok none => [.stop (w.args c none (stopMask none))]
    | .ok (some info) =>
      .stop (w.args c (some info) (stopMask (some info))) :: (w.heard c info ++
        match w.routine info, c.advance w.unwinder info with
        | .ok _, (.ok (), next) => script n next
        | _, _ => [])

/-- Every frame and personality pointer down to the end of the stack can be resolved. -/
inductive Resolves : Cursor → Prop
  | fin {c : Cursor} : c.current w.unwinder = .ok none → Resolves c
  | frame {c next : Cursor} {info : Info} {routine : Option ℕ} :
      c.current w.unwinder = .ok (some info) → w.routine info = .ok routine →
      c.advance w.unwinder info = (.ok (), next) → Resolves next → Resolves c

variable {w} {s : Position W} {forced : Forced}

/-! ## One turn -/

section

variable {info : Info} {answer : Answer W}

/-- What an answer logs is the call the script has for the frame. -/
theorem Answered.asked (h : w.Answered s info (.FORCE ||| .CLEANUP) answer) :
    answer.log.filterMap Event.asked = w.heard s.cursor info := by
  cases h with
  | failed h => simp [heard, h]
  | absent h => simp [heard, h]
  | called h hcall =>
    subst hcall
    simp [heard, h, Event.asked, call]

/-- An answer lets the pass go on when the pointer resolves and the routine, if any, does. -/
theorem Answered.continues_iff {actions : Actions} (h : w.Answered s info actions answer) :
    answer.Continues ↔
      (∃ routine, w.routine info = .ok routine) ∧ ∀ event ∈ answer.log, event.Good := by
  cases h with
  | failed h => simp [Answer.Continues, h]
  | absent h => simp [Answer.Continues, h]
  | called h hcall => simp [Answer.Continues, h, Event.Good]

/-- A quiet personality that lets the pass go on leaves the cursor as it was. -/
theorem Answered.cursor (hq : w.code.Quiet) {actions : Actions}
    (h : w.Answered s info actions answer) (hcontinues : answer.Continues) :
    answer.position.cursor = s.cursor := by
  cases h with
  | failed h => rfl
  | absent h => rfl
  | @called address call h hcall =>
    subst hcall
    have hreason : (w.call s (some info) actions (w.code.personality address)).reply.reason =
        .CONTINUE := by
      simpa [Answer.Continues] using hcontinues
    have hwrites := hq.personality address (w.args s.cursor (some info) actions) s.host
      (hreason.trans_ne (by decide))
    simp only [after, Walk.call, hwrites, Callback.replay_nil]

end

theorem after_stopCall (hq : w.code.Quiet) {frame : Option Info} {actions : Actions}
    (h : (w.stopCall s frame actions forced).reply.reason = .NONE) :
    (after s frame (w.stopCall s frame actions forced).reply).cursor = s.cursor := by
  have hwrites := hq.stop forced.stop (w.args s.cursor frame actions) forced.parameter s.host
    (h.trans_ne (by decide))
  simp only [after, stopCall, call, hwrites, Callback.replay_nil]

/-! ## Runs -/

omit [Gimli] in
theorem mem_dropLast_append {α : Type*} {front rest : List α} {a : α}
    (h : a ∈ (front ++ rest).dropLast) : a ∈ front ∨ a ∈ rest.dropLast := by
  cases rest with
  | nil =>
    rw [List.append_nil] at h
    exact .inl (List.mem_of_mem_dropLast h)
  | cons first rest =>
    rwa [List.dropLast_append_of_ne_nil (List.cons_ne_nil first rest), List.mem_append] at h

/-- The log of a pass goes down its script as far as the answers let it. -/
structure Ordered (script : List Asked) (log : List (Event W)) (exit : Option Exit) : Prop where
  initial : log.filterMap Event.asked <+: script
  good : ∀ event ∈ log.dropLast, event.Good
  complete : (∀ event ∈ log, event.Good) → log.filterMap Event.asked = script
  halted : ∀ stop, .stop stop ∈ log → stop.reply.reason ≠ .NONE →
    log.getLast? = some (.stop stop) ∧ exit = some (.returned .FATAL2)

theorem Ordered.append {script rest : List Asked} {log tail : List (Event W)} {exit : Option Exit}
    (hlog : log.filterMap Event.asked = script) (hgood : ∀ event ∈ log, event.Good)
    (h : Ordered rest tail exit) : Ordered (script ++ rest) (log ++ tail) exit where
  initial := by
    rw [List.filterMap_append, hlog]
    exact (List.prefix_append_right_inj script).2 h.initial
  good := by
    intro event hevent
    exact (mem_dropLast_append hevent).elim (hgood event) (h.good event)
  complete := by
    intro hall
    rw [List.filterMap_append, hlog,
      h.complete fun event hevent => hall event (List.mem_append_right log hevent)]
  halted := by
    intro stop hstop hreason
    -- everything in front was good, so the call is in the tail
    rcases List.mem_append.1 hstop with hstop | hstop
    · exact absurd (hgood _ hstop) hreason
    · obtain ⟨hlast, hexit⟩ := h.halted stop hstop hreason
      exact ⟨by rw [List.getLast?_append, hlast, Option.some_or], hexit⟩

/-- A log in which only the last callback, if any, stops the pass. -/
theorem Ordered.of_last {script : List Asked} (log : List (Event W)) (event : Event W)
    {exit : Option Exit} (hasked : (log ++ [event]).filterMap Event.asked <+: script)
    (hgood : ∀ event ∈ log, event.Good)
    (hcomplete : event.Good → (log ++ [event]).filterMap Event.asked = script)
    (hexit : ∀ stop, event = .stop stop → ¬event.Good → exit = some (.returned .FATAL2)) :
    Ordered script (log ++ [event]) exit where
  initial := hasked
  good := by
    rw [List.dropLast_concat]
    exact hgood
  complete := fun hall => hcomplete (hall event (by simp))
  halted := by
    intro stop hstop hreason
    rcases List.mem_append.1 hstop with hstop | hstop
    · exact absurd (hgood _ hstop) hreason
    · obtain rfl := List.mem_singleton.1 hstop
      exact ⟨List.getLast?_concat, hexit stop rfl hreason⟩

theorem script_frame {c : Cursor} {info : Info} (n : ℕ)
    (hinfo : c.current w.unwinder = .ok (some info)) :
    Asked.stop (w.args c (some info) (stopMask (some info))) :: w.heard c info <+:
      w.script (n + 1) c := by
  rw [script, hinfo]
  exact List.prefix_append (_ :: w.heard c info) _

theorem script_lost {c : Cursor} {info : Info} {error : UnwindError} (n : ℕ)
    (hinfo : c.current w.unwinder = .ok (some info))
    (hlost : w.routine info = .error error ∨ info.caller w.unwinder c.state = .error error) :
    w.script (n + 1) c = Asked.stop (w.args c (some info) (stopMask (some info))) ::
      w.heard c info := by
  rw [script, hinfo]
  dsimp only
  rcases hlost with h | h
  · rw [h, List.append_nil]
  · rw [Cursor.advance_of_error h]
    cases w.routine info <;> simp only [List.append_nil]

theorem script_continues {c next : Cursor} {info : Info} {routine : Option ℕ} (n : ℕ)
    (hinfo : c.current w.unwinder = .ok (some info)) (hroutine : w.routine info = .ok routine)
    (hnext : c.advance w.unwinder info = (.ok (), next)) :
    w.script (n + 1) c = (Asked.stop (w.args c (some info) (stopMask (some info))) ::
      w.heard c info) ++ w.script n next := by
  rw [script, hinfo]
  dsimp only
  rw [hroutine, hnext, List.cons_append]

/-- On a resolved frame a turn makes the calls the script has for it. -/
theorem Answered.asked_frame (hq : w.code.Quiet) {info : Info} {stop : Call W}
    {answer : Answer W} (hstop : stop = w.stopCall s (some info) (stopMask (some info)) forced)
    (hreason : stop.reply.reason = .NONE)
    (hanswer : w.Answered (after s (some info) stop.reply) info (.FORCE ||| .CLEANUP) answer) :
    (.frame s.cursor info :: .stop stop :: answer.log).filterMap Event.asked =
      Asked.stop (w.args s.cursor (some info) (stopMask (some info))) ::
        w.heard s.cursor info := by
  subst hstop
  simp only [List.filterMap_cons, Event.asked, hanswer.asked, after_stopCall hq hreason]
  rfl

/-- A turn that leaves with a resolved frame logs what the script has for the frame. -/
theorem Answered.ordered (hq : w.code.Quiet) (n : ℕ) {info : Info} {stop : Call W}
    {answer : Answer W} {exit : Option Exit} (hinfo : s.cursor.current w.unwinder = .ok (some info))
    (hstop : stop = w.stopCall s (some info) (stopMask (some info)) forced)
    (hreason : stop.reply.reason = .NONE)
    (hanswer : w.Answered (after s (some info) stop.reply) info (.FORCE ||| .CLEANUP) answer)
    (hleaves : answer.Continues →
      ∃ error, info.caller w.unwinder answer.position.cursor.state = .error error) :
    Ordered (w.script (n + 1) s.cursor) (.frame s.cursor info :: .stop stop :: answer.log)
      exit := by
  have hcursor : (after s (some info) stop.reply).cursor = s.cursor := by
    subst hstop
    exact after_stopCall hq hreason
  have hasked := hanswer.asked_frame hq hstop hreason
  -- a turn that leaves although it may go on has lost the caller, and so has the script
  have hscript : answer.Continues → w.script (n + 1) s.cursor =
      Asked.stop (w.args s.cursor (some info) (stopMask (some info))) ::
        w.heard s.cursor info := by
    intro hcontinues
    obtain ⟨error, hlost⟩ := hleaves hcontinues
    rw [hanswer.cursor hq hcontinues, hcursor] at hlost
    exact script_lost n hinfo (.inr hlost)
  cases hanswer with
  | failed h =>
    refine .of_last [.frame s.cursor info] (.stop stop) ?_ ?_ ?_ ?_
    · exact hasked ▸ script_frame n hinfo
    · simp [Event.Good]
    · exact fun _ => hasked.trans (script_lost n hinfo (.inl h)).symm
    · rintro _ ⟨⟩ hbad
      exact absurd hreason hbad
  | absent h =>
    refine .of_last [.frame s.cursor info] (.stop stop) ?_ ?_ ?_ ?_
    · exact hasked ▸ script_frame n hinfo
    · simp [Event.Good]
    · exact fun _ => hasked.trans (hscript (.inl rfl)).symm
    · rintro _ ⟨⟩ hbad
      exact absurd hreason hbad
  | @called address call h hcall =>
    refine .of_last [.frame s.cursor info, .stop stop] (.personality call) ?_ ?_ ?_ ?_
    · exact hasked ▸ script_frame n hinfo
    · simp [Event.Good, hreason]
    · exact fun hgood => hasked.trans (hscript (.inr (congrArg _ (congrArg _ hgood)))).symm
    · rintro _ ⟨⟩

/-- A turn that leaves ends the log as its script allows. -/
theorem ForceTurn.ordered (hq : w.code.Quiet) (n : ℕ) {log : List (Event W)}
    {result : Exit × Host W} (h : w.ForceTurn s forced (.done log result)) :
    Ordered (w.script (n + 1) s.cursor) log (some result.1) := by
  cases h with
  | lost hinfo =>
    rw [script, hinfo]
    exact ⟨List.nil_prefix, by simp, fun _ => rfl, by simp⟩
  | @fin stop hinfo hstop hreason =>
    subst hstop
    rw [script, hinfo]
    refine .of_last [] _ List.prefix_rfl (by simp) (fun _ => rfl) ?_
    rintro _ ⟨⟩ hbad
    exact absurd hreason hbad
  -- the stop function refuses: its call is the last, with a frame or without one
  | @halted frame stop hinfo hstop hreason =>
    subst hstop
    refine .of_last _ _ ?_ ?_ (fun hgood => absurd hgood hreason) (fun _ _ _ => rfl)
    · cases frame with
      | none =>
        rw [script, hinfo]
        exact List.prefix_rfl
      | some info =>
        exact (List.prefix_append [_] _).trans (script_frame n hinfo)
    · cases frame <;> simp [Event.Good]
  | installs hinfo hstop hreason hanswer hinstall =>
    refine hanswer.ordered hq n hinfo hstop hreason ?_
    rintro (h | h) <;> rw [hinstall] at h <;> cases h
  | stuck hinfo hstop hreason hanswer hcontinues hlost =>
    exact hanswer.ordered hq n hinfo hstop hreason fun _ => ⟨_, hlost⟩
  | refused hinfo hstop hreason hanswer hcontinues _ =>
    exact hanswer.ordered hq n hinfo hstop hreason fun h => absurd h hcontinues

/-- A turn that goes on makes the calls the script has for its frame. -/
theorem ForceTurn.script_again (hq : w.code.Quiet) (n : ℕ) {log : List (Event W)}
    {next : Position W} (h : w.ForceTurn s forced (.again log next)) :
    w.script (n + 1) s.cursor = log.filterMap Event.asked ++ w.script n next.cursor ∧
      ∀ event ∈ log, event.Good := by
  cases h with
  | @continues info stop answer next hinfo hstop hreason hanswer hcontinues hnext =>
    obtain ⟨⟨routine, hroutine⟩, hgood⟩ := hanswer.continues_iff.1 hcontinues
    rw [hanswer.asked_frame hq hstop hreason]
    refine ⟨?_, ?_⟩
    · subst hstop
      rw [hanswer.cursor hq hcontinues, after_stopCall hq hreason] at hnext
      exact script_continues n hinfo hroutine hnext
    · simpa [Event.Good, hreason] using hgood

theorem run_ordered (hq : w.code.Quiet) (forced : Forced) (n : ℕ) (s : Position W) :
    Ordered (w.script n s.cursor) (Loop.run (w.forceTurn forced) n s).1
      ((Loop.run (w.forceTurn forced) n s).2.map Prod.fst) := by
  induction n generalizing s with
  | zero => exact ⟨List.nil_prefix, by simp, fun _ => rfl, by simp⟩
  | succ n ih =>
    have hturn := w.forceTurn_cases (s := s) forced
    cases h : w.forceTurn forced s with
    | done log result =>
      rw [Loop.run_succ_done h]
      rw [h] at hturn
      exact hturn.ordered hq n
    | again log next =>
      rw [Loop.run_succ_again h]
      rw [h] at hturn
      obtain ⟨hscript, hgood⟩ := hturn.script_again hq n
      rw [hscript]
      exact .append rfl hgood (ih next)

/-! ## The script -/

/-- Every call asks for forced cleanup, and the one without a frame also marks the end. -/
theorem script_mask (n : ℕ) (c : Cursor) :
    ∀ asked ∈ w.script n c, asked.args.actions = stopMask asked.frame := by
  induction n generalizing c with
  | zero => simp [script]
  | succ n ih =>
    intro asked hasked
    rw [script] at hasked
    split at hasked
    · cases hasked
    · obtain rfl := List.mem_singleton.1 hasked
      rfl
    · rename_i info _
      rcases List.mem_cons.1 hasked with rfl | hasked
      · rfl
      · rcases List.mem_append.1 hasked with hasked | hasked
        · rw [heard] at hasked
          split at hasked
          · obtain rfl := List.mem_singleton.1 hasked
            rfl
          · cases hasked
        · split at hasked
          · exact ih _ asked hasked
          · cases hasked

theorem heard_frame {c : Cursor} {info : Info} :
    ∀ asked ∈ w.heard c info, asked.frame = some info := by
  intro asked hasked
  rw [heard] at hasked
  split at hasked
  · obtain rfl := List.mem_singleton.1 hasked
    rfl
  · cases hasked

/-- Only the last call may be without a frame. -/
theorem script_dropLast (n : ℕ) (c : Cursor) :
    ∀ asked ∈ (w.script n c).dropLast, asked.frame.isSome := by
  induction n generalizing c with
  | zero => simp [script]
  | succ n ih =>
    intro asked hasked
    rw [script] at hasked
    split at hasked
    · cases hasked
    · cases hasked
    · rename_i info _
      rw [← List.cons_append] at hasked
      rcases mem_dropLast_append hasked with hasked | hasked
      · rcases List.mem_cons.1 hasked with rfl | hasked
        · rfl
        · rw [heard_frame asked hasked]
          rfl
      · split at hasked
        · exact ih _ asked hasked
        · cases hasked

/-- A personality is called with a frame. -/
theorem script_personality {n : ℕ} {c : Cursor} {args : Arguments}
    (h : .personality args ∈ w.script n c) : (Asked.personality args).frame.isSome := by
  induction n generalizing c with
  | zero => simp [script] at h
  | succ n ih =>
    rw [script] at h
    split at h
    · cases h
    · simp at h
    · rcases List.mem_cons.1 h with h | h
      · cases h
      · rcases List.mem_append.1 h with h | h
        · rw [heard_frame _ h]
          rfl
        · split at h
          · exact ih h
          · cases h

/-! ## The end of the stack -/

theorem transfer_ne_end (cursor : Cursor) (info : Info) :
    transfer cursor info ≠ .returned .END := by
  unfold transfer
  split
  · simp
  · split <;> simp

/-- A turn returns the end of the stack only there, and then only the stop function was called
and let the pass go on. -/
theorem ForceTurn.of_end {log : List (Event W)} {host : Host W}
    (h : w.ForceTurn s forced (.done log (.returned .END, host))) :
    s.cursor.current w.unwinder = .ok none ∧ ∀ event ∈ log, event.Good := by
  generalize hexit : Exit.returned .END = exit at h
  cases h with
  | fin hinfo hstop hreason => exact ⟨hinfo, by simpa [Event.Good] using hreason⟩
  | installs => exact absurd hexit.symm (transfer_ne_end _ _)
  | lost | halted | stuck | refused => simp at hexit

theorem ForceTurn.resolves (hq : w.code.Quiet) {log : List (Event W)} {next : Position W}
    (h : w.ForceTurn s forced (.again log next)) (hnext : w.Resolves next.cursor) :
    w.Resolves s.cursor := by
  cases h with
  | continues hinfo hstop hreason hanswer hcontinues hadvance =>
    obtain ⟨⟨routine, hroutine⟩, -⟩ := hanswer.continues_iff.1 hcontinues
    subst hstop
    rw [hanswer.cursor hq hcontinues, after_stopCall hq hreason] at hadvance
    exact .frame hinfo hroutine hadvance hnext

theorem resolves_of_leaves (hq : w.code.Quiet) {log : List (Event W)} {result : Exit × Host W}
    (h : Loop.Leaves (w.forceTurn forced) s log result) (hend : result.1 = .returned .END) :
    w.Resolves s.cursor ∧
      ∀ n, ∀ event ∈ (Loop.run (w.forceTurn forced) n s).1, event.Good := by
  -- from the end of the run: a pass that returned `END` went on at every frame before it
  revert hend
  refine Loop.Leaves.induction (motive := fun s _ result => result.1 = .returned .END →
    w.Resolves s.cursor ∧ ∀ n, ∀ event ∈ (Loop.run (w.forceTurn forced) n s).1, event.Good)
    ?_ ?_ h
  · rintro s log ⟨exit, host⟩ hturn rfl
    have hcases := w.forceTurn_cases (s := s) forced
    rw [hturn] at hcases
    obtain ⟨hinfo, hgood⟩ := hcases.of_end
    refine ⟨.fin hinfo, ?_⟩
    rintro (_ | n) event hevent
    · cases hevent
    · rw [Loop.run_succ_done hturn] at hevent
      exact hgood event hevent
  · intro s log next rest result hturn _ ih hend
    obtain ⟨hresolves, hrest⟩ := ih hend
    have hcases := w.forceTurn_cases (s := s) forced
    rw [hturn] at hcases
    refine ⟨hcases.resolves hq hresolves, ?_⟩
    rintro (_ | n) event hevent
    · cases hevent
    · rw [Loop.run_succ_again hturn] at hevent
      rcases List.mem_append.1 hevent with hevent | hevent
      · exact (hcases.script_again hq 0).2 event hevent
      · exact hrest n event hevent

/-- At the end of the stack a stop function that lets the pass go on ends it. -/
theorem ForceTurn.fin_of_good {turn : Turn (Position W) (Event W) (Exit × Host W)}
    (h : w.ForceTurn s forced turn) (hinfo : s.cursor.current w.unwinder = .ok none)
    (hgood : ∀ event ∈ turn.log, event.Good) :
    ∃ log host, turn = .done log (.returned .END, host) := by
  cases h with
  | fin => exact ⟨_, _, rfl⟩
  | @halted frame stop _ _ hreason =>
    exact absurd (hgood (.stop stop) (List.mem_append_right _ (List.mem_singleton_self _))) hreason
  | lost hlost => simp [hinfo] at hlost
  | installs hframe | continues hframe | stuck hframe | refused hframe => simp [hinfo] at hframe

/-- On a frame that resolves, callbacks that let the pass go on lead it to the caller. -/
theorem ForceTurn.again_of_good (hq : w.code.Quiet) {next : Cursor} {info : Info}
    {routine : Option ℕ} {turn : Turn (Position W) (Event W) (Exit × Host W)}
    (h : w.ForceTurn s forced turn) (hinfo : s.cursor.current w.unwinder = .ok (some info))
    (hroutine : w.routine info = .ok routine)
    (hnext : s.cursor.advance w.unwinder info = (.ok (), next))
    (hgood : ∀ event ∈ turn.log, event.Good) :
    ∃ log host, turn = .again log ⟨next, host⟩ := by
  have hcontinues {stop : Call W} {answer : Answer W}
      (hanswer : w.Answered (after s (some info) stop.reply) info (.FORCE ||| .CLEANUP) answer)
      (hlog : ∀ event ∈ Event.frame s.cursor info :: .stop stop :: answer.log, event.Good) :
      answer.Continues :=
    hanswer.continues_iff.2 ⟨⟨routine, hroutine⟩, fun event hevent =>
      hlog event (List.mem_cons_of_mem _ (List.mem_cons_of_mem _ hevent))⟩
  cases h with
  | lost hlost => simp [hinfo] at hlost
  | fin hframe => simp [hinfo] at hframe
  | @halted frame stop _ _ hreason =>
    exact absurd (hgood (.stop stop) (List.mem_append_right _ (List.mem_singleton_self _))) hreason
  | installs hframe hstop hreason hanswer hinstall =>
    obtain rfl : info = _ := by simpa [hinfo] using hframe
    rcases hcontinues hanswer hgood with h | h <;> rw [hinstall] at h <;> cases h
  | continues hframe hstop hreason hanswer hcontinues' hadvance =>
    obtain rfl : info = _ := by simpa [hinfo] using hframe
    subst hstop
    rw [hanswer.cursor hq hcontinues', after_stopCall hq hreason, hnext] at hadvance
    obtain rfl := (Prod.mk.inj hadvance).2
    exact ⟨_, _, rfl⟩
  | stuck hframe hstop hreason hanswer hcontinues' hlost =>
    obtain rfl : info = _ := by simpa [hinfo] using hframe
    subst hstop
    rw [hanswer.cursor hq hcontinues', after_stopCall hq hreason] at hlost
    rw [Cursor.advance_of_error hlost] at hnext
    cases hnext
  | refused hframe hstop hreason hanswer hcontinues' =>
    obtain rfl : info = _ := by simpa [hinfo] using hframe
    exact absurd (hcontinues hanswer hgood) hcontinues'

/-- Where every frame resolves, callbacks that let the pass go on lead it to the end. -/
theorem leaves_of_resolves (hq : w.code.Quiet) {c : Cursor} (h : w.Resolves c) (host : Host W)
    (hgood : ∀ n, ∀ event ∈ (Loop.run (w.forceTurn forced) n ⟨c, host⟩).1, event.Good) :
    ∃ log host', Loop.Leaves (w.forceTurn forced) ⟨c, host⟩ log (.returned .END, host') := by
  -- on the resolved stack: one turn for each of its frames
  induction h generalizing host with
  | @fin c hinfo =>
    obtain ⟨log, host', hturn⟩ := (w.forceTurn_cases (s := ⟨c, host⟩) forced).fin_of_good hinfo
      fun event hevent => hgood 1 event (by rwa [Loop.run_one])
    exact ⟨log, host', (Loop.leaves_done hturn).2 ⟨rfl, rfl⟩⟩
  | @frame c next info routine hinfo hroutine hnext _ ih =>
    obtain ⟨log, host', hturn⟩ := (w.forceTurn_cases (s := ⟨c, host⟩) forced).again_of_good hq
      hinfo hroutine hnext fun event hevent => hgood 1 event (by rwa [Loop.run_one])
    obtain ⟨rest, host'', hleaves⟩ := ih host' fun n event hevent =>
      hgood (n + 1) event (Loop.mem_run_succ hturn hevent)
    exact ⟨log ++ rest, host'',
      (Loop.leaves_again hturn).2 ⟨rest, rfl, hleaves⟩⟩

/-- **Forced unwinding goes by the script.** Whatever the callbacks answer, a pass makes the
calls of its script, in order, as far as the answers let it: the last call made is the first
that does not let it go on, and a stop function that halts the pass ends it at once. It returns
the end of the stack exactly when every callback lets it and the stack resolves to its end. -/
theorem force_in_order (hq : w.code.Quiet) (forced : Forced) (state : State) (host : Host W) :
    (∀ n, (w.force n state host forced).1.filterMap Event.asked <+: w.script n (.new state) ∧
      (∀ event ∈ (w.force n state host forced).1.dropLast, event.Good) ∧
      ((∀ event ∈ (w.force n state host forced).1, event.Good) →
        (w.force n state host forced).1.filterMap Event.asked = w.script n (.new state)) ∧
      ∀ stop, .stop stop ∈ (w.force n state host forced).1 → stop.reply.reason ≠ .NONE →
        (w.force n state host forced).1.getLast? = some (.stop stop) ∧
        ∃ host', (w.force n state host forced).2 = some (.returned .FATAL2, host')) ∧
    (∀ n, (∀ asked ∈ w.script n (.new state), asked.args.actions =
        if asked.frame.isSome then .FORCE ||| .CLEANUP else .FORCE ||| .CLEANUP ||| .END) ∧
      (∀ asked ∈ (w.script n (.new state)).dropLast, asked.frame.isSome) ∧
      ∀ args, .personality args ∈ w.script n (.new state) →
        (Asked.personality args).frame.isSome) ∧
    ((∃ n log host', w.force n state host forced = (log, some (.returned .END, host'))) ↔
      w.Resolves (.new state) ∧
        ∀ n, ∀ event ∈ (w.force n state host forced).1, event.Good) := by
  refine ⟨fun n => ?_, fun n => ⟨script_mask n _, script_dropLast n _,
    fun args h => script_personality h⟩, ?_, ?_⟩
  · have hordered := run_ordered hq forced n ⟨.new state, host⟩
    refine ⟨hordered.initial, hordered.good, hordered.complete, fun stop hstop hreason => ?_⟩
    obtain ⟨hlast, hexit⟩ := hordered.halted stop hstop hreason
    obtain ⟨⟨exit, host'⟩, hresult, rfl⟩ := Option.map_eq_some_iff.1 hexit
    exact ⟨hlast, host', hresult⟩
  · rintro ⟨n, log, host', h⟩
    exact resolves_of_leaves hq (.of_run h) rfl
  · rintro ⟨hresolves, hgood⟩
    obtain ⟨log, host', n, h⟩ := leaves_of_resolves hq hresolves host hgood
    exact ⟨n, log, host', h⟩

end Walk

end

attribute [local instance] Gimli.decoded in
/-- A stop function that halts the pass at the second of two frames, the first of which has been
asked to clean up. -/
theorem Walk.force_in_order_calls :
    let code : Code ℕ := ⟨fun _ _ host => ⟨.CONTINUE, [], host⟩, fun _ _ _ host =>
      ⟨if host.world = 0 then .NONE else .FATAL2, [], ⟨host.memory, host.world + 1⟩⟩⟩
    let w : Walk ℕ := ⟨Calls.unwinder, code, 4096, ⟨0⟩⟩
    let result := w.force 3 (Calls.state 100) ⟨fun _ => 0, 0⟩ ⟨600, 0⟩
    result.1.filterMap Event.asked <+: w.script 3 (.new (Calls.state 100)) ∧
      ∃ host', result.2 = some (.returned .FATAL2, host') := by
  intro code w result
  have hq : code.Quiet := ⟨fun _ _ _ _ _ => rfl, fun _ _ _ _ => rfl⟩
  obtain ⟨hinitial, -, -, hhalts⟩ :=
    (force_in_order (w := w) hq ⟨600, 0⟩ (Calls.state 100) ⟨fun _ => 0, 0⟩).1 3
  obtain ⟨stop, hstop, hreason⟩ : ∃ stop, .stop stop ∈ result.1 ∧ stop.reply.reason ≠ .NONE :=
    ⟨_, List.mem_of_getLast? rfl, by decide⟩
  exact ⟨hinitial, (hhalts stop hstop hreason).2⟩

end Desenredo.Unwind
