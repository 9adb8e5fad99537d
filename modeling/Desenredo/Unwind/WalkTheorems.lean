import Desenredo.Unwind.CursorTheorems
import Desenredo.Unwind.Runtime

/-!
# The turns of a walk

What one turn of each loop can do, as a relation with one constructor for each way through the
body. Every fact about whole passes is derived from these and not from the bodies.
-/

namespace Desenredo.Unwind

variable [Gimli] {W : Type}

/-- The answer lets a walk go on to the caller. -/
def Answer.Continues (answer : Answer W) : Prop :=
  answer.result = .ok none ∨ answer.result = .ok (some .CONTINUE)

namespace Walk

variable (w : Walk W) (s : Position W)

/-- What calling a personality comes to. -/
inductive Answered (info : Info) (actions : Actions) : Answer W → Prop
  | failed {error : UnwindError} : w.routine info = .error error →
      Answered info actions ⟨[], .error error, s⟩
  | absent : w.routine info = .ok none → Answered info actions ⟨[], .ok none, s⟩
  | called {address : ℕ} {call : Call W} : w.routine info = .ok (some address) →
      call = w.call s (some info) actions (w.code.personality address) →
      Answered info actions
        ⟨[.personality call], .ok (some call.reply.reason), after s (some info) call.reply⟩

theorem personality_answered (info : Info) (actions : Actions) :
    w.Answered s info actions (w.personality s info actions) := by
  unfold personality
  cases hroutine : w.routine info with
  | error error => exact .failed hroutine
  | ok address =>
    cases address with
    | none => exact .absent hroutine
    | some address => exact .called hroutine rfl

/-- The turns of the search for a handler. -/
inductive SearchTurn : Turn (Position W) (Event W) (Except ReasonCode Key × Host W) → Prop
  | lost {error : UnwindError} : s.cursor.current w.unwinder = .error error →
      SearchTurn (.done [] (.error .FATAL1, s.host))
  | fin : s.cursor.current w.unwinder = .ok none → SearchTurn (.done [] (.error .END, s.host))
  | continues {info : Info} {answer : Answer W} {next : Cursor} :
      s.cursor.current w.unwinder = .ok (some info) → w.Answered s info .SEARCH answer →
      answer.Continues → answer.position.cursor.advance w.unwinder info = (.ok (), next) →
      SearchTurn (.again (.frame s.cursor info :: answer.log) ⟨next, answer.position.host⟩)
  | stuck {info : Info} {answer : Answer W} {error : UnwindError} :
      s.cursor.current w.unwinder = .ok (some info) → w.Answered s info .SEARCH answer →
      answer.Continues → info.caller w.unwinder answer.position.cursor.state = .error error →
      SearchTurn (.done (.frame s.cursor info :: answer.log)
        (.error .FATAL1, answer.position.host))
  | found {info : Info} {answer : Answer W} :
      s.cursor.current w.unwinder = .ok (some info) → w.Answered s info .SEARCH answer →
      answer.result = .ok (some .HANDLER) →
      SearchTurn (.done (.frame s.cursor info :: answer.log)
        (answer.position.cursor.key.mapError fun _ => .FATAL1, answer.position.host))
  | refused {info : Info} {answer : Answer W} :
      s.cursor.current w.unwinder = .ok (some info) → w.Answered s info .SEARCH answer →
      ¬answer.Continues → answer.result ≠ .ok (some .HANDLER) →
      SearchTurn (.done (.frame s.cursor info :: answer.log)
        (.error .FATAL1, answer.position.host))

/-- The turns of normal phase two. -/
inductive NormalTurn (handler : Key) : Turn (Position W) (Event W) (Exit × Host W) → Prop
  | lost : (∀ info, s.cursor.current w.unwinder ≠ .ok (some info)) →
      NormalTurn handler (.done [] (.returned .FATAL2, s.host))
  | keyless {info : Info} {error : UnwindError} :
      s.cursor.current w.unwinder = .ok (some info) → s.cursor.key = .error error →
      NormalTurn handler (.done [.frame s.cursor info] (.returned .FATAL2, s.host))
  | installs {info : Info} {key : Key} {answer : Answer W} :
      s.cursor.current w.unwinder = .ok (some info) → s.cursor.key = .ok key →
      w.Answered s info (mask handler key) answer → answer.result = .ok (some .INSTALL) →
      NormalTurn handler (.done (.frame s.cursor info :: answer.log)
        (transfer answer.position.cursor info, answer.position.host))
  | continues {info : Info} {key : Key} {answer : Answer W} {next : Cursor} :
      s.cursor.current w.unwinder = .ok (some info) → s.cursor.key = .ok key →
      w.Answered s info (mask handler key) answer → key ≠ handler → answer.Continues →
      answer.position.cursor.advance w.unwinder info = (.ok (), next) →
      NormalTurn handler
        (.again (.frame s.cursor info :: answer.log) ⟨next, answer.position.host⟩)
  | stuck {info : Info} {key : Key} {answer : Answer W} {error : UnwindError} :
      s.cursor.current w.unwinder = .ok (some info) → s.cursor.key = .ok key →
      w.Answered s info (mask handler key) answer → key ≠ handler → answer.Continues →
      info.caller w.unwinder answer.position.cursor.state = .error error →
      NormalTurn handler (.done (.frame s.cursor info :: answer.log)
        (.returned .FATAL2, answer.position.host))
  | refused {info : Info} {key : Key} {answer : Answer W} :
      s.cursor.current w.unwinder = .ok (some info) → s.cursor.key = .ok key →
      w.Answered s info (mask handler key) answer → answer.result ≠ .ok (some .INSTALL) →
      (key = handler ∨ ¬answer.Continues) →
      NormalTurn handler (.done (.frame s.cursor info :: answer.log)
        (.returned .FATAL2, answer.position.host))

/-- The turns of a forced cleanup pass. -/
inductive ForceTurn (forced : Forced) : Turn (Position W) (Event W) (Exit × Host W) → Prop
  | lost {error : UnwindError} : s.cursor.current w.unwinder = .error error →
      ForceTurn forced (.done [] (.returned .FATAL2, s.host))
  | fin {stop : Call W} : s.cursor.current w.unwinder = .ok none →
      stop = w.stopCall s none (stopMask none) forced → stop.reply.reason = .NONE →
      ForceTurn forced (.done [.stop stop] (.returned .END, stop.reply.host))
  | halted {frame : Option Info} {stop : Call W} : s.cursor.current w.unwinder = .ok frame →
      stop = w.stopCall s frame (stopMask frame) forced → stop.reply.reason ≠ .NONE →
      ForceTurn forced (.done ((frame.map (Event.frame s.cursor)).toList ++ [.stop stop])
        (.returned .FATAL2, stop.reply.host))
  | installs {info : Info} {stop : Call W} {answer : Answer W} :
      s.cursor.current w.unwinder = .ok (some info) →
      stop = w.stopCall s (some info) (stopMask (some info)) forced →
      stop.reply.reason = .NONE →
      w.Answered (after s (some info) stop.reply) info (.FORCE ||| .CLEANUP) answer →
      answer.result = .ok (some .INSTALL) →
      ForceTurn forced (.done (.frame s.cursor info :: .stop stop :: answer.log)
        (transfer answer.position.cursor info, answer.position.host))
  | continues {info : Info} {stop : Call W} {answer : Answer W} {next : Cursor} :
      s.cursor.current w.unwinder = .ok (some info) →
      stop = w.stopCall s (some info) (stopMask (some info)) forced →
      stop.reply.reason = .NONE →
      w.Answered (after s (some info) stop.reply) info (.FORCE ||| .CLEANUP) answer →
      answer.Continues → answer.position.cursor.advance w.unwinder info = (.ok (), next) →
      ForceTurn forced (.again (.frame s.cursor info :: .stop stop :: answer.log)
        ⟨next, answer.position.host⟩)
  | stuck {info : Info} {stop : Call W} {answer : Answer W} {error : UnwindError} :
      s.cursor.current w.unwinder = .ok (some info) →
      stop = w.stopCall s (some info) (stopMask (some info)) forced →
      stop.reply.reason = .NONE →
      w.Answered (after s (some info) stop.reply) info (.FORCE ||| .CLEANUP) answer →
      answer.Continues → info.caller w.unwinder answer.position.cursor.state = .error error →
      ForceTurn forced (.done (.frame s.cursor info :: .stop stop :: answer.log)
        (.returned .FATAL2, answer.position.host))
  | refused {info : Info} {stop : Call W} {answer : Answer W} :
      s.cursor.current w.unwinder = .ok (some info) →
      stop = w.stopCall s (some info) (stopMask (some info)) forced →
      stop.reply.reason = .NONE →
      w.Answered (after s (some info) stop.reply) info (.FORCE ||| .CLEANUP) answer →
      ¬answer.Continues → answer.result ≠ .ok (some .INSTALL) →
      ForceTurn forced (.done (.frame s.cursor info :: .stop stop :: answer.log)
        (.returned .FATAL2, answer.position.host))

variable {w s}

/-- Moving to the caller succeeds as the reconstruction of the caller does. -/
theorem advance_cases {ρ : Type} (log : List (Event W)) (info : Info) (failed : ρ) :
    (∃ next, s.cursor.advance w.unwinder info = (.ok (), next) ∧
      w.advance s log info failed = .again log ⟨next, s.host⟩) ∨
    ∃ error, info.caller w.unwinder s.cursor.state = .error error ∧
      w.advance s log info failed = .done log (failed, s.host) := by
  unfold Walk.advance
  cases hcaller : info.caller w.unwinder s.cursor.state with
  | error error =>
    rw [Cursor.advance_of_error hcaller]
    exact .inr ⟨error, rfl, rfl⟩
  | ok caller =>
    rw [Cursor.advance_eq_ok.2 ⟨caller, hcaller, rfl⟩]
    exact .inl ⟨_, rfl, rfl⟩

theorem SearchTurn.continues_or_stuck {info : Info} {answer : Answer W}
    (hinfo : s.cursor.current w.unwinder = .ok (some info))
    (hanswer : w.Answered s info .SEARCH answer) (hcontinues : answer.Continues) :
    w.SearchTurn s (w.advance answer.position (.frame s.cursor info :: answer.log) info
      (.error .FATAL1)) := by
  obtain ⟨next, hnext, heq⟩ | ⟨error, herror, heq⟩ := advance_cases (w := w)
    (s := answer.position) (.frame s.cursor info :: answer.log) info
    (Except.error ReasonCode.FATAL1 : Except ReasonCode Key)
  · rw [heq]
    exact .continues hinfo hanswer hcontinues hnext
  · rw [heq]
    exact .stuck hinfo hanswer hcontinues herror

theorem searchTurn_cases : w.SearchTurn s (w.searchTurn s) := by
  unfold searchTurn
  split
  · exact .lost ‹_›
  · exact .fin ‹_›
  · rename_i info hinfo
    have hanswer := w.personality_answered s info .SEARCH
    have hcontinues := SearchTurn.continues_or_stuck hinfo hanswer
    dsimp only
    split
    · exact hcontinues (.inl ‹_›)
    · exact hcontinues (.inr ‹_›)
    · exact .found hinfo hanswer ‹_›
    · exact .refused hinfo hanswer (by simp_all [Answer.Continues]) (by simp_all)
    · exact .refused hinfo hanswer (by simp_all [Answer.Continues]) (by simp_all)

theorem NormalTurn.continues_or_stuck {handler key : Key} {info : Info} {answer : Answer W}
    (hinfo : s.cursor.current w.unwinder = .ok (some info)) (hkey : s.cursor.key = .ok key)
    (hanswer : w.Answered s info (mask handler key) answer) (hne : key ≠ handler)
    (hcontinues : answer.Continues) :
    w.NormalTurn s handler (w.advance answer.position (.frame s.cursor info :: answer.log) info
      (.returned .FATAL2)) := by
  obtain ⟨next, hnext, heq⟩ | ⟨error, herror, heq⟩ := advance_cases (w := w)
    (s := answer.position) (.frame s.cursor info :: answer.log) info (Exit.returned .FATAL2)
  · rw [heq]
    exact .continues hinfo hkey hanswer hne hcontinues hnext
  · rw [heq]
    exact .stuck hinfo hkey hanswer hne hcontinues herror

theorem normalTurn_cases (handler : Key) : w.NormalTurn s handler (w.normalTurn handler s) := by
  unfold normalTurn
  split
  · exact .lost (by simp_all)
  · exact .lost (by simp_all)
  · rename_i info hinfo
    split
    · exact .keyless hinfo ‹_›
    · rename_i key hkey
      dsimp only
      have hanswer := w.personality_answered s info (mask handler key)
      have hcontinues := NormalTurn.continues_or_stuck hinfo hkey hanswer
      split
      · exact .installs hinfo hkey hanswer ‹_›
      · exact hcontinues (by simp_all) (.inl ‹_›)
      · exact hcontinues (by simp_all) (.inr ‹_›)
      · exact .refused hinfo hkey hanswer (by simp_all) (.inl (by simp_all))
      · exact .refused hinfo hkey hanswer (by simp_all) (.inl (by simp_all))
      · rename_i hinstall hfalse htrue
        refine .refused hinfo hkey hanswer (by simp_all) ?_
        -- the catch-all branch: the handler's own frame, or an answer that lets nothing go on
        by_cases hselected : key = handler
        · exact .inl hselected
        · exact .inr (by simp_all [Answer.Continues])
      · exact .refused hinfo hkey hanswer (by simp_all) (.inr (by simp_all [Answer.Continues]))

theorem ForceTurn.continues_or_stuck {forced : Forced} {info : Info} {stop : Call W}
    {answer : Answer W} (hinfo : s.cursor.current w.unwinder = .ok (some info))
    (hstop : stop = w.stopCall s (some info) (stopMask (some info)) forced)
    (hreason : stop.reply.reason = .NONE)
    (hanswer : w.Answered (after s (some info) stop.reply) info (.FORCE ||| .CLEANUP) answer)
    (hcontinues : answer.Continues) :
    w.ForceTurn s forced (w.advance answer.position
      (.frame s.cursor info :: .stop stop :: answer.log) info (.returned .FATAL2)) := by
  obtain ⟨next, hnext, heq⟩ | ⟨error, herror, heq⟩ := advance_cases (w := w)
    (s := answer.position) (.frame s.cursor info :: .stop stop :: answer.log) info
    (Exit.returned .FATAL2)
  · rw [heq]
    exact .continues hinfo hstop hreason hanswer hcontinues hnext
  · rw [heq]
    exact .stuck hinfo hstop hreason hanswer hcontinues herror

theorem forceTurn_cases (forced : Forced) : w.ForceTurn s forced (w.forceTurn forced s) := by
  unfold forceTurn
  split
  · exact .lost ‹_›
  · rename_i frame hframe
    dsimp only
    split
    · exact .fin hframe rfl ‹_›
    · rename_i info hreason
      have hanswer := w.personality_answered
        (after s (some info) (w.stopCall s (some info) (stopMask (some info)) forced).reply) info
        (.FORCE ||| .CLEANUP)
      have hcontinues := fun hcontinues => ForceTurn.continues_or_stuck hframe rfl hreason hanswer
        hcontinues
      split
      · exact hcontinues (.inl ‹_›)
      · exact hcontinues (.inr ‹_›)
      · exact .installs hframe rfl hreason hanswer ‹_›
      · exact .refused hframe rfl hreason hanswer (by simp_all [Answer.Continues]) (by simp_all)
      · exact .refused hframe rfl hreason hanswer (by simp_all [Answer.Continues]) (by simp_all)
    · rename_i frame _ _ hfin hsome
      refine .halted hframe rfl fun hreason => ?_
      cases frame with
      | none => exact hfin hreason rfl
      | some info => exact hsome info hreason rfl

end Walk

end Desenredo.Unwind
