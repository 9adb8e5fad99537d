import Desenredo.Personality.Protocol
import Desenredo.Unwind.WalkTheorems

/-!
# The typed protocol

The loops of the unwinder over frames whose personalities go through the typed dispatch. One
turn of a loop comes to what a turn of the typed protocol comes to, in which frames answer with
decisions and not with reason codes; so do whole passes.
-/

namespace Desenredo.Personality

open Unwind

section

variable [Gimli] {W : Type} (w : Walk W) (P : Personality W)

/-- The personality of a frame goes through the typed dispatch, if the frame has one. -/
def Dispatches (info : Info) : Prop :=
  ∀ address, w.routine info = .ok (some address) → w.code.personality address = dispatch P

/-- The header of the exception carries the class of the walk. -/
def Live (host : Host W) : Prop :=
  (Exception.load host.memory w.exception).class_ = w.class_

/-- A stop function always lets the traversal go on and leaves the class in the header alone. -/
structure Obliging (forced : Forced) : Prop where
  reason : ∀ args host, (w.code.stop forced.stop args forced.parameter host).reason = .NONE
  live : ∀ args host, Live w host →
    Live w (w.code.stop forced.stop args forced.parameter host).host

/-! ## Typed turns -/

variable (s : Position W) (info : Info)

/-- The search invocation of a frame. -/
def searchCall : Search :=
  ⟨⟨⟨s.cursor, some info⟩⟩, ⟨w.exception, s.host.memory⟩, w.class_⟩

/-- The cleanup invocation of a frame. -/
def cleanupCall (forced : Bool) : Cleanup :=
  ⟨⟨⟨s.cursor, some info⟩⟩, ⟨w.exception, s.host.memory⟩, w.class_, forced⟩

/-- The handler invocation of a frame. -/
def handlerCall : Handler :=
  ⟨⟨⟨s.cursor, some info⟩⟩, ⟨w.exception, s.host.memory⟩, w.class_⟩

/-- What a frame decides in the search; one without a personality continues. -/
def searchVerdict : Except UnwindError (SearchDecision × W) :=
  match w.routine info with
  | .error error => .error error
  | .ok none => .ok (.continue_, s.host.world)
  | .ok (some _) => .ok (P.search (searchCall w s info) s.host.world)

/-- What a frame decides on cleanup; one without a personality continues. -/
def cleanupVerdict (forced : Bool) : Except UnwindError (Outcome CleanupDecision W) :=
  match w.routine info with
  | .error error => .error error
  | .ok none => .ok ⟨.continue_, none, s.host.world⟩
  | .ok (some _) => .ok (P.cleanup (cleanupCall w s info forced) s.host.world)

/-- What the selected frame decides; one without a personality is fatal. -/
def handlerVerdict : Except UnwindError (Outcome CleanupDecision W) :=
  match w.routine info with
  | .error error => .error error
  | .ok none => .ok ⟨.fatal, none, s.host.world⟩
  | .ok (some _) =>
    let outcome := P.handler (handlerCall w s info) s.host.world
    .ok ⟨outcome.decision.cleanup, outcome.dropped, outcome.world⟩

/-- The cursor of a frame after a context was prepared. -/
def preparedCursor (writes : List (ℤ × ℕ)) : Cursor :=
  ((Callback.mk s.cursor (some info)).replay writes).cursor

/-- One turn of the typed search: the next frame, or the result of the pass. -/
def typedSearch (s : Position W) : Position W ⊕ Except ReasonCode Key :=
  match s.cursor.current w.unwinder with
  | .error _ => .inr (.error .FATAL1)
  | .ok none => .inr (.error .END)
  | .ok (some info) =>
    match searchVerdict w P s info with
    | .ok (.continue_, world) =>
      match s.cursor.advance w.unwinder info with
      | (.ok (), next) => .inl ⟨next, ⟨s.host.memory, world⟩⟩
      | (.error _, _) => .inr (.error .FATAL1)
    | .ok (.handlerFound, _) => .inr (s.cursor.key.mapError fun _ => .FATAL1)
    | .ok (.fatal, _) | .error _ => .inr (.error .FATAL1)

/-- What the verdict of a frame of phase two comes to. -/
def settle : Except UnwindError (Outcome CleanupDecision W) → Position W ⊕ Exit
  | .error _ => .inr (.returned .FATAL2)
  | .ok outcome =>
    match outcome.decision with
    | .continue_ =>
      match (preparedCursor s info (prepared outcome.dropped)).advance w.unwinder info with
      | (.ok (), next) => .inl ⟨next, ⟨s.host.memory, outcome.world⟩⟩
      | (.error _, _) => .inr (.returned .FATAL2)
    | .install context =>
      .inr (Walk.transfer (preparedCursor s info (prepared outcome.dropped ++ context.writes)) info)
    | .fatal => .inr (.returned .FATAL2)

/-- One turn of the typed phase two. -/
def typedNormal (handler : Key) (s : Position W) : Position W ⊕ Exit :=
  match s.cursor.current w.unwinder with
  | .ok none | .error _ => .inr (.returned .FATAL2)
  | .ok (some info) =>
    match s.cursor.key with
    | .error _ => .inr (.returned .FATAL2)
    | .ok key =>
      settle w s info
        (if key = handler then handlerVerdict w P s info else cleanupVerdict w P s info false)

/-- The position after the stop function was called on a frame. -/
def stopped (forced : Forced) (frame : Option Info) : Position W :=
  Walk.after s frame (w.stopCall s frame (Walk.stopMask frame) forced).reply

/-- One turn of typed forced unwinding, with a stop function that always lets it go on. -/
def typedForce (forced : Forced) (s : Position W) : Position W ⊕ Exit :=
  match s.cursor.current w.unwinder with
  | .error _ => .inr (.returned .FATAL2)
  | .ok none => .inr (.returned .END)
  | .ok (some info) =>
    settle w (stopped w s forced (some info)) info
      (cleanupVerdict w P (stopped w s forced (some info)) info true)

/-! ## Decoding -/

section

variable {w P s info}

/-- The action masks of the passes, with what a call with each is decoded as. -/
inductive Invokes (w : Walk W) (s : Position W) (info : Info) : Actions → Invocation → Prop
  | search : Invokes w s info .SEARCH (.search (searchCall w s info))
  | cleanup : Invokes w s info .CLEANUP (.cleanup (cleanupCall w s info false))
  | handler : Invokes w s info (.CLEANUP ||| .HANDLER) (.handler (handlerCall w s info))
  | forced : Invokes w s info (.FORCE ||| .CLEANUP) (.cleanup (cleanupCall w s info true))

theorem Invokes.known {actions : Actions} {call : Invocation} (h : Invokes w s info actions call) :
    actions.known = true := by
  cases h <;> decide

theorem Invokes.decode {actions : Actions} {call : Invocation} (h : Invokes w s info actions call)
    (hp : w.exception ≠ 0) (hlive : Live w s.host) :
    Personality.decode (w.args s.cursor (some info) actions) s.host.memory = .ok call := by
  have hclass : (ExceptionRef.mk w.exception s.host.memory).class_ = w.class_ := hlive
  have hknown := h.known
  simp only [Personality.decode, Walk.args, VERSION, hp, hclass, hknown, ne_eq, not_true_eq_false,
    if_false]
  cases h <;> rfl

/-! ## Answers -/

/-- What the typed dispatch replies to a decoded call. -/
def Invocation.reply (P : Personality W) (host : Host W) : Invocation → Reply W
  | .search call =>
    let outcome := P.search call host.world
    ⟨outcome.1.reason, [], ⟨host.memory, outcome.2⟩⟩
  | .cleanup call => (P.cleanup call host.world).reply host.memory
  | .handler call =>
    let outcome := P.handler call host.world
    Outcome.reply ⟨outcome.decision.cleanup, outcome.dropped, outcome.world⟩ host.memory

theorem Invokes.reply {actions : Actions} {call : Invocation} (h : Invokes w s info actions call)
    (hp : w.exception ≠ 0) (hlive : Live w s.host) :
    (w.call s (some info) actions (dispatch P)).reply = call.reply P s.host := by
  simp only [Walk.call, dispatch, h.decode hp hlive]
  cases call <;> rfl

theorem call_search (hp : w.exception ≠ 0) (hlive : Live w s.host) :
    (w.call s (some info) .SEARCH (dispatch P)).reply =
      let outcome := P.search (searchCall w s info) s.host.world
      ⟨outcome.1.reason, [], ⟨s.host.memory, outcome.2⟩⟩ :=
  Invokes.search.reply hp hlive

theorem call_cleanup (hp : w.exception ≠ 0) (hlive : Live w s.host) :
    (w.call s (some info) .CLEANUP (dispatch P)).reply =
      (P.cleanup (cleanupCall w s info false) s.host.world).reply s.host.memory :=
  Invokes.cleanup.reply hp hlive

theorem call_forced (hp : w.exception ≠ 0) (hlive : Live w s.host) :
    (w.call s (some info) (.FORCE ||| .CLEANUP) (dispatch P)).reply =
      (P.cleanup (cleanupCall w s info true) s.host.world).reply s.host.memory :=
  Invokes.forced.reply hp hlive

theorem call_handler (hp : w.exception ≠ 0) (hlive : Live w s.host) :
    (w.call s (some info) (.CLEANUP ||| .HANDLER) (dispatch P)).reply =
      let outcome := P.handler (handlerCall w s info) s.host.world
      Outcome.reply ⟨outcome.decision.cleanup, outcome.dropped, outcome.world⟩
        s.host.memory :=
  Invokes.handler.reply hp hlive

/-- Moving on comes to the caller, or to what the loop leaves with when there is none. -/
theorem advance_outcome {ρ : Type} (log : List (Event W)) (failed : ρ) :
    (w.advance s log info failed).outcome Prod.fst =
      match s.cursor.advance w.unwinder info with
      | (.ok (), next) => .inl ⟨next, s.host⟩
      | (.error _, _) => .inr failed := by
  unfold Walk.advance
  cases s.cursor.advance w.unwinder info with
  | mk result next => cases result <;> rfl

omit [Gimli] in
theorem reply_reason (outcome : Outcome CleanupDecision W) (memory : Memory) :
    (outcome.reply memory).reason = outcome.decision.reason := rfl

/-- The position after a callback of phase two has what it prepared written. -/
theorem after_reply (outcome : Outcome CleanupDecision W) (memory : Memory) :
    Walk.after s (some info) (outcome.reply memory) =
      ⟨preparedCursor s info (prepared outcome.dropped ++ prepared outcome.decision.context),
        ⟨memory, outcome.world⟩⟩ := rfl

omit [Gimli] in
theorem prepared_none : prepared none = [] := rfl

/-! ## Turns -/

/-- A turn of the search comes to what the typed turn does. -/
theorem searchTurn_outcome (hp : w.exception ≠ 0)
    (hd : ∀ info, s.cursor.current w.unwinder = .ok (some info) → Dispatches w P info)
    (hlive : Live w s.host) : (w.searchTurn s).outcome Prod.fst = typedSearch w P s := by
  unfold Walk.searchTurn typedSearch
  cases hinfo : s.cursor.current w.unwinder with
  | error error => rfl
  | ok frame =>
    cases frame with
    | none => rfl
    | some info =>
      cases hroutine : w.routine info with
      | error error => simp [Walk.personality, searchVerdict, hroutine, Turn.outcome]
      | ok address =>
        cases address with
        | none =>
          simp only [Walk.personality, searchVerdict, hroutine, advance_outcome]
        | some address =>
          have hcode := hd info hinfo address hroutine
          simp only [Walk.personality, searchVerdict, hroutine, hcode, call_search hp hlive]
          generalize P.search (searchCall w s info) s.host.world = outcome
          obtain ⟨decision, world⟩ := outcome
          cases decision with
          | continue_ => exact advance_outcome ..
          | handlerFound => rfl
          | fatal => rfl

/-- On the selected frame phase two comes to what its verdict does. -/
theorem normalTurn_selected (hp : w.exception ≠ 0) (hd : Dispatches w P info)
    (hlive : Live w s.host) {key : Key} (hinfo : s.cursor.current w.unwinder = .ok (some info))
    (hkey : s.cursor.key = .ok key) :
    (w.normalTurn key s).outcome Prod.fst = settle w s info (handlerVerdict w P s info) := by
  simp only [Walk.normalTurn, hinfo, hkey]
  cases hroutine : w.routine info with
  | error error => simp [Walk.personality, handlerVerdict, hroutine, Turn.outcome, settle]
  | ok address =>
    cases address with
    | none => simp [Walk.personality, handlerVerdict, hroutine, Turn.outcome, settle]
    | some address =>
      have hcode := hd address hroutine
      simp only [Walk.personality, Walk.mask, if_true, handlerVerdict, hroutine, hcode,
        call_handler hp hlive, decide_true]
      generalize P.handler (handlerCall w s info) s.host.world = outcome
      obtain ⟨decision, dropped, world⟩ := outcome
      cases decision with
      | install context => rfl
      | fatal => rfl

/-- On any other frame it comes to what the verdict on cleanup does. -/
theorem normalTurn_passed (hp : w.exception ≠ 0) (hd : Dispatches w P info)
    (hlive : Live w s.host) {key handler : Key}
    (hinfo : s.cursor.current w.unwinder = .ok (some info))
    (hkey : s.cursor.key = .ok key) (hne : key ≠ handler) :
    (w.normalTurn handler s).outcome Prod.fst =
      settle w s info (cleanupVerdict w P s info false) := by
  simp only [Walk.normalTurn, hinfo, hkey]
  cases hroutine : w.routine info with
  | error error => simp [Walk.personality, cleanupVerdict, hroutine, Turn.outcome, settle, hne]
  | ok address =>
    cases address with
    | none =>
      simp only [Walk.personality, cleanupVerdict, hroutine, hne, decide_false, settle]
      exact advance_outcome ..
    | some address =>
      have hcode := hd address hroutine
      simp only [Walk.personality, Walk.mask, if_false, cleanupVerdict, hroutine, hcode,
        call_cleanup hp hlive, decide_false, hne, settle, reply_reason, after_reply]
      generalize P.cleanup (cleanupCall w s info false) s.host.world = outcome
      cases outcome.decision with
      | continue_ =>
        simp only [CleanupDecision.context, prepared_none, List.append_nil]
        exact advance_outcome ..
      | install context => rfl
      | fatal => rfl

/-- A turn of normal phase two comes to what the typed turn does. -/
theorem normalTurn_outcome (hp : w.exception ≠ 0)
    (hd : ∀ info, s.cursor.current w.unwinder = .ok (some info) → Dispatches w P info)
    (hlive : Live w s.host) (handler : Key) :
    (w.normalTurn handler s).outcome Prod.fst = typedNormal w P handler s := by
  cases hinfo : s.cursor.current w.unwinder with
  | error error => simp [Walk.normalTurn, typedNormal, hinfo, Turn.outcome]
  | ok frame =>
    cases frame with
    | none => simp [Walk.normalTurn, typedNormal, hinfo, Turn.outcome]
    | some info =>
      cases hkey : s.cursor.key with
      | error error => simp [Walk.normalTurn, typedNormal, hinfo, hkey, Turn.outcome]
      | ok key =>
        by_cases hselected : key = handler
        · subst hselected
          rw [normalTurn_selected hp (hd info hinfo) hlive hinfo hkey]
          simp only [typedNormal, hinfo, hkey, if_true]
        · rw [normalTurn_passed hp (hd info hinfo) hlive hinfo hkey hselected]
          simp only [typedNormal, hinfo, hkey, hselected, if_false]

/-- A turn of forced unwinding comes to what the typed turn does when the stop function lets it
go on. -/
theorem forceTurn_outcome (hp : w.exception ≠ 0)
    (hd : ∀ info, s.cursor.current w.unwinder = .ok (some info) → Dispatches w P info)
    {forced : Forced}
    (hstop : ∀ frame, (w.stopCall s frame (Walk.stopMask frame) forced).reply.reason = .NONE)
    (hlive : ∀ frame, Live w (stopped w s forced frame).host) :
    (w.forceTurn forced s).outcome Prod.fst = typedForce w P forced s := by
  cases hinfo : s.cursor.current w.unwinder with
  | error error => simp [Walk.forceTurn, typedForce, hinfo, Turn.outcome]
  | ok frame =>
    cases frame with
    | none => simp [Walk.forceTurn, typedForce, hinfo, hstop, Turn.outcome]
    | some info =>
      have hstopped : Walk.after s (some info)
          (w.stopCall s (some info) (Walk.stopMask (some info)) forced).reply =
            stopped w s forced (some info) := rfl
      simp only [Walk.forceTurn, typedForce, hinfo, hstop, hstopped]
      have hlive := hlive (some info)
      generalize stopped w s forced (some info) = t at hlive
      cases hroutine : w.routine info with
      | error error => simp [Walk.personality, cleanupVerdict, hroutine, Turn.outcome, settle]
      | ok address =>
        cases address with
        | none =>
          simp only [Walk.personality, cleanupVerdict, hroutine, settle]
          exact advance_outcome ..
        | some address =>
          have hcode := hd info hinfo address hroutine
          simp only [Walk.personality, cleanupVerdict, hroutine, hcode, call_forced hp hlive,
            settle, reply_reason, after_reply]
          generalize P.cleanup (cleanupCall w t info true) t.host.world = outcome
          cases outcome.decision with
          | continue_ =>
            simp only [CleanupDecision.context, prepared_none, List.append_nil]
            exact advance_outcome ..
          | install context => rfl
          | fatal => rfl

end

/-! ## Resolved frames -/

section

variable {w s info}

theorem searchTurn_frame (hinfo : s.cursor.current w.unwinder = .ok (some info)) :
    .frame s.cursor info ∈ (w.searchTurn s).log := by
  have hcases := w.searchTurn_cases (s := s)
  generalize w.searchTurn s = turn at hcases
  cases hcases with
  | lost h | fin h => simp [hinfo] at h
  | continues h | stuck h | found h | refused h =>
    obtain rfl := Option.some.inj (Except.ok.inj (hinfo.symm.trans h))
    exact List.mem_cons_self

theorem normalTurn_frame (hinfo : s.cursor.current w.unwinder = .ok (some info)) (handler : Key) :
    .frame s.cursor info ∈ (w.normalTurn handler s).log := by
  have hcases := w.normalTurn_cases (s := s) handler
  generalize w.normalTurn handler s = turn at hcases
  cases hcases with
  | lost h => exact absurd hinfo (h info)
  | keyless h | installs h | continues h | stuck h | refused h =>
    obtain rfl := Option.some.inj (Except.ok.inj (hinfo.symm.trans h))
    exact List.mem_cons_self

theorem forceTurn_frame (hinfo : s.cursor.current w.unwinder = .ok (some info))
    (forced : Forced) : .frame s.cursor info ∈ (w.forceTurn forced s).log := by
  have hcases := w.forceTurn_cases (s := s) forced
  generalize w.forceTurn forced s = turn at hcases
  cases hcases with
  | lost h | fin h => simp [hinfo] at h
  | halted h =>
    obtain rfl := Except.ok.inj (hinfo.symm.trans h)
    exact List.mem_cons_self
  | installs h | continues h | stuck h | refused h =>
    obtain rfl := Option.some.inj (Except.ok.inj (hinfo.symm.trans h))
    exact List.mem_cons_self

end

/-! ## Decoded calls -/

/-- A personality call of the search is decoded as a search. -/
def Searches : Event W → Prop
  | .personality call => ∃ typed, decode call.args call.host.memory = .ok (.search typed)
  | _ => True

/-- A personality call of phase two is decoded as the handler of the frame with its key, and as
non-forced cleanup of any other frame. -/
def Delivers (handler : Key) : Event W → Prop
  | .personality call => ∃ callback key, call.args.context = some callback ∧
      callback.cursor.key = .ok key ∧
        if key = handler then ∃ typed, decode call.args call.host.memory = .ok (.handler typed)
        else ∃ typed, decode call.args call.host.memory = .ok (.cleanup typed) ∧
          typed.forced = false
  | _ => True

/-- A personality call of forced unwinding is decoded as forced cleanup. -/
def Cleans : Event W → Prop
  | .personality call =>
    ∃ typed, decode call.args call.host.memory = .ok (.cleanup typed) ∧ typed.forced = true
  | _ => True

section

variable {w P s info}

/-- The call an answer logs is made at its position. -/
theorem answered_mem {actions : Actions} {answer : Answer W} {event : Event W}
    (h : w.Answered s info actions answer) (hevent : event ∈ answer.log) :
    ∃ f, event = .personality (w.call s (some info) actions f) := by
  cases h with
  | failed h => simp at hevent
  | absent h => simp at hevent
  | @called address call h hcall =>
    rw [List.mem_singleton.1 hevent, hcall]
    exact ⟨_, rfl⟩

variable {turn : Turn (Position W) (Event W) (Exit × Host W)}

theorem searchTurn_searches (hp : w.exception ≠ 0) (hlive : Live w s.host)
    {turn : Turn (Position W) (Event W) (Except ReasonCode Key × Host W)}
    (h : w.SearchTurn s turn) : ∀ event ∈ turn.log, Searches event := by
  have hlog {info : Info} {answer : Answer W} (hanswer : w.Answered s info .SEARCH answer) :
      ∀ event ∈ Event.frame s.cursor info :: answer.log, Searches event := by
    refine List.forall_mem_cons.2 ⟨trivial, fun event hevent => ?_⟩
    obtain ⟨f, rfl⟩ := answered_mem hanswer hevent
    exact ⟨_, Invokes.search.decode hp hlive⟩
  cases h with
  | lost _ | fin _ => simp [Turn.log]
  | continues _ hanswer | stuck _ hanswer | found _ hanswer | refused _ hanswer =>
    exact hlog hanswer

theorem normalTurn_delivers (hp : w.exception ≠ 0) (hlive : Live w s.host) {handler : Key}
    (h : w.NormalTurn s handler turn) : ∀ event ∈ turn.log, Delivers handler event := by
  have hlog {info : Info} {key : Key} {answer : Answer W} (hkey : s.cursor.key = .ok key)
      (hanswer : w.Answered s info (Walk.mask handler key) answer) :
      ∀ event ∈ Event.frame s.cursor info :: answer.log, Delivers handler event := by
    refine List.forall_mem_cons.2 ⟨trivial, fun event hevent => ?_⟩
    obtain ⟨f, rfl⟩ := answered_mem hanswer hevent
    refine ⟨⟨s.cursor, some info⟩, key, rfl, hkey, ?_⟩
    by_cases hselected : key = handler
    · rw [if_pos hselected, Walk.mask, if_pos hselected]
      exact ⟨_, Invokes.handler.decode hp hlive⟩
    · rw [if_neg hselected, Walk.mask, if_neg hselected]
      exact ⟨_, Invokes.cleanup.decode hp hlive, rfl⟩
  cases h with
  | lost _ => simp [Turn.log]
  | keyless _ _ => exact List.forall_mem_singleton.2 trivial
  | installs _ hkey hanswer | continues _ hkey hanswer | stuck _ hkey hanswer
  | refused _ hkey hanswer => exact hlog hkey hanswer

theorem forceTurn_cleans (hp : w.exception ≠ 0) {forced : Forced}
    (hlive : ∀ frame, Live w (stopped w s forced frame).host)
    (h : w.ForceTurn s forced turn) : ∀ event ∈ turn.log, Cleans event := by
  have hlog {info : Info} {stop : Call W} {answer : Answer W}
      (hstop : stop = w.stopCall s (some info) (Walk.stopMask (some info)) forced)
      (hanswer : w.Answered (Walk.after s (some info) stop.reply) info (.FORCE ||| .CLEANUP)
        answer) :
      ∀ event ∈ Event.frame s.cursor info :: .stop stop :: answer.log, Cleans event := by
    subst hstop
    refine List.forall_mem_cons.2 ⟨trivial, List.forall_mem_cons.2 ⟨trivial, ?_⟩⟩
    intro event hevent
    obtain ⟨f, rfl⟩ := answered_mem hanswer hevent
    exact ⟨_, Invokes.forced.decode hp (hlive (some info)), rfl⟩
  cases h with
  | lost _ => simp [Turn.log]
  | fin _ _ _ => exact List.forall_mem_singleton.2 trivial
  | @halted frame _ _ _ _ => cases frame <;> simp [Turn.log, Cleans]
  | installs _ hstop _ hanswer | continues _ hstop _ hanswer | stuck _ hstop _ hanswer
  | refused _ hstop _ hanswer => exact hlog hstop hanswer

/-! ## Invariants -/

/-- The header carries the class, and the frames that turns from here resolve are dispatched. -/
structure Typed {ρ : Type} (w : Walk W) (P : Personality W)
    (body : Position W → Turn (Position W) (Event W) ρ) (s : Position W) : Prop where
  live : Live w s.host
  dispatches : ∀ n c info, .frame c info ∈ (Loop.run body n s).1 → Dispatches w P info

theorem Typed.of_log {ρ : Type} {body : Position W → Turn (Position W) (Event W) ρ}
    (h : Typed w P body s) {c : Cursor} (hframe : .frame c info ∈ (body s).log) :
    Dispatches w P info :=
  h.dispatches 1 c info (by rwa [Loop.run_one])

theorem Typed.again {ρ : Type} {body : Position W → Turn (Position W) (Event W) ρ}
    {log : List (Event W)} {t : Position W} (h : Typed w P body s) (hturn : body s = .again log t)
    (hlive : Live w t.host) : Typed w P body t :=
  ⟨hlive, fun n c info hframe => h.dispatches (n + 1) c info (Loop.mem_run_succ hturn hframe)⟩

theorem typedSearch_live {t : Position W} (h : typedSearch w P s = .inl t)
    (hlive : Live w s.host) : Live w t.host := by
  unfold typedSearch at h
  split at h <;> try cases h
  split at h <;> try cases h
  split at h <;> cases h
  exact hlive

theorem settle_live {verdict : Except UnwindError (Outcome CleanupDecision W)} {t : Position W}
    (h : settle w s info verdict = .inl t) (hlive : Live w s.host) : Live w t.host := by
  unfold settle at h
  split at h <;> try cases h
  split at h <;> try cases h
  split at h <;> cases h
  exact hlive

theorem typedNormal_live {handler : Key} {t : Position W}
    (h : typedNormal w P handler s = .inl t) (hlive : Live w s.host) : Live w t.host := by
  unfold typedNormal at h
  split at h <;> try cases h
  split at h <;> try cases h
  exact settle_live h hlive

theorem typedForce_live {forced : Forced} {t : Position W}
    (h : typedForce w P forced s = .inl t)
    (hlive : ∀ frame, Live w (stopped w s forced frame).host) : Live w t.host := by
  unfold typedForce at h
  split at h <;> try cases h
  exact settle_live h (hlive _)

/-! ## Passes -/

omit [Gimli] in
theorem leaves_iff_exits {σ ε ρ : Type} {body : σ → Turn σ ε (ρ × Host W)} {s : σ} (r : ρ) :
    (∃ log exit, Loop.Leaves body s log exit ∧ exit.1 = r) ↔
      ∃ n log host, Loop.run body n s = (log, some (r, host)) := by
  constructor
  · rintro ⟨log, ⟨r, host⟩, ⟨n, hn⟩, rfl⟩
    exact ⟨n, log, host, hn⟩
  · rintro ⟨n, log, host, hn⟩
    exact ⟨log, (r, host), ⟨n, hn⟩, rfl⟩

variable {host : Host W} (state : State)

theorem search_refines (hp : w.exception ≠ 0) (hlive : Live w host)
    (hd : ∀ n c info, .frame c info ∈ (w.search n state host).1 → Dispatches w P info) :
    (∀ n, ∀ event ∈ (w.search n state host).1, Searches event) ∧
      ∀ r, (∃ n log host', w.search n state host = (log, some (r, host'))) ↔
        Loop.Halts (typedSearch w P) ⟨.new state, host⟩ r := by
  have hstart : Typed w P w.searchTurn ⟨.new state, host⟩ := ⟨hlive, hd⟩
  have hturn (s : Position W) (hs : Typed w P w.searchTurn s) :
      (w.searchTurn s).outcome Prod.fst = typedSearch w P s :=
    searchTurn_outcome hp (fun _ hinfo => hs.of_log (searchTurn_frame hinfo)) hs.live
  have hinv (s : Position W) (log : List (Event W)) (t : Position W)
      (h : w.searchTurn s = .again log t) (hs : Typed w P w.searchTurn s) :
      Typed w P w.searchTurn t :=
    hs.again h (typedSearch_live (by rw [← hturn s hs, h, Turn.outcome]) hs.live)
  constructor
  · intro n
    exact Loop.run_log (fun s hs => searchTurn_searches hp hs.live Walk.searchTurn_cases) hinv n
      hstart
  · intro r
    rw [← Loop.leaves_iff_steps Prod.fst hturn hinv hstart]
    exact (leaves_iff_exits r).symm

theorem normal_refines (hp : w.exception ≠ 0) (hlive : Live w host) (handler : Key)
    (hd : ∀ n c info, .frame c info ∈ (w.normal n state host handler).1 → Dispatches w P info) :
    (∀ n, ∀ event ∈ (w.normal n state host handler).1, Delivers handler event) ∧
      ∀ exit, (∃ n log host', w.normal n state host handler = (log, some (exit, host'))) ↔
        Loop.Halts (typedNormal w P handler) ⟨.new state, host⟩ exit := by
  have hstart : Typed w P (w.normalTurn handler) ⟨.new state, host⟩ := ⟨hlive, hd⟩
  have hturn (s : Position W) (hs : Typed w P (w.normalTurn handler) s) :
      (w.normalTurn handler s).outcome Prod.fst = typedNormal w P handler s :=
    normalTurn_outcome hp (fun _ hinfo => hs.of_log (normalTurn_frame hinfo handler)) hs.live
      handler
  have hinv (s : Position W) (log : List (Event W)) (t : Position W)
      (h : w.normalTurn handler s = .again log t) (hs : Typed w P (w.normalTurn handler) s) :
      Typed w P (w.normalTurn handler) t :=
    hs.again h (typedNormal_live (by rw [← hturn s hs, h, Turn.outcome]) hs.live)
  constructor
  · intro n
    exact Loop.run_log
      (fun s hs => normalTurn_delivers hp hs.live (Walk.normalTurn_cases handler)) hinv n hstart
  · intro exit
    rw [← Loop.leaves_iff_steps Prod.fst hturn hinv hstart]
    exact (leaves_iff_exits exit).symm

theorem force_refines (hp : w.exception ≠ 0) (hlive : Live w host) {forced : Forced}
    (hobliging : Obliging w forced)
    (hd : ∀ n c info, .frame c info ∈ (w.force n state host forced).1 → Dispatches w P info) :
    (∀ n, ∀ event ∈ (w.force n state host forced).1, Cleans event) ∧
      ∀ exit, (∃ n log host', w.force n state host forced = (log, some (exit, host'))) ↔
        Loop.Halts (typedForce w P forced) ⟨.new state, host⟩ exit := by
  have hstart : Typed w P (w.forceTurn forced) ⟨.new state, host⟩ := ⟨hlive, hd⟩
  have hstopped (s : Position W) (hs : Typed w P (w.forceTurn forced) s) (frame : Option Info) :
      Live w (stopped w s forced frame).host := hobliging.live _ _ hs.live
  have hturn (s : Position W) (hs : Typed w P (w.forceTurn forced) s) :
      (w.forceTurn forced s).outcome Prod.fst = typedForce w P forced s :=
    forceTurn_outcome hp (fun _ hinfo => hs.of_log (forceTurn_frame hinfo forced))
      (fun frame => hobliging.reason _ _) (hstopped s hs)
  have hinv (s : Position W) (log : List (Event W)) (t : Position W)
      (h : w.forceTurn forced s = .again log t) (hs : Typed w P (w.forceTurn forced) s) :
      Typed w P (w.forceTurn forced) t :=
    hs.again h (typedForce_live (by rw [← hturn s hs, h, Turn.outcome]) (hstopped s hs))
  constructor
  · intro n
    exact Loop.run_log
      (fun s hs => forceTurn_cleans hp (hstopped s hs) (Walk.forceTurn_cases forced)) hinv n hstart
  · intro exit
    rw [← Loop.leaves_iff_steps Prod.fst hturn hinv hstart]
    exact (leaves_iff_exits exit).symm

/-- **The loops refine the typed protocol.** Where the personalities of the frames a pass resolves
go through the typed dispatch, or are absent, every call is decoded as the invocation its phase
stands for, and the pass ends as the typed decisions of the frames have it. -/
theorem loops_refine_protocol (hp : w.exception ≠ 0) (hlive : Live w host)
    {forced : Forced} (hobliging : Obliging w forced) (handler : Key)
    (hsearch : ∀ n c info, .frame c info ∈ (w.search n state host).1 → Dispatches w P info)
    (hnormal : ∀ n c info, .frame c info ∈ (w.normal n state host handler).1 →
      Dispatches w P info)
    (hforce : ∀ n c info, .frame c info ∈ (w.force n state host forced).1 →
      Dispatches w P info) :
    (∀ n, ∀ event ∈ (w.search n state host).1, Searches event) ∧
    (∀ n, ∀ event ∈ (w.normal n state host handler).1, Delivers handler event) ∧
    (∀ n, ∀ event ∈ (w.force n state host forced).1, Cleans event) ∧
    (∀ r, (∃ n log host', w.search n state host = (log, some (r, host'))) ↔
      Loop.Halts (typedSearch w P) ⟨.new state, host⟩ r) ∧
    (∀ exit, (∃ n log host', w.normal n state host handler = (log, some (exit, host'))) ↔
      Loop.Halts (typedNormal w P handler) ⟨.new state, host⟩ exit) ∧
    (∀ exit, (∃ n log host', w.force n state host forced = (log, some (exit, host'))) ↔
      Loop.Halts (typedForce w P forced) ⟨.new state, host⟩ exit) := by
  obtain ⟨hsearches, hsearch⟩ := search_refines state hp hlive hsearch
  obtain ⟨hdelivers, hnormal⟩ := normal_refines state hp hlive handler hnormal
  obtain ⟨hcleans, hforce⟩ := force_refines state hp hlive hobliging hforce
  exact ⟨hsearches, hdelivers, hcleans, hsearch, hnormal, hforce⟩

end

end

attribute [local instance] Gimli.decoded in
/-- The outer of two calls finds a handler and installs it, which the inner one lets pass. A forced
pass comes to the end of the stack. -/
theorem loops_refine_protocol_calls :
    let pad : LandingPad := ⟨⟨300, by decide⟩⟩
    let P : Personality ℕ :=
      ⟨fun _ world => (if world = 0 then .continue_ else .handlerFound, world + 1),
        fun _ world => ⟨.continue_, none, world⟩,
        fun call world => ⟨.install ⟨pad, call.exception.ptr, ⟨3⟩⟩, none, world⟩⟩
    let code : Code ℕ := ⟨fun _ => dispatch P, fun _ _ _ host => ⟨.NONE, [], host⟩⟩
    let host : Host ℕ := ⟨fun _ => 7, 0⟩
    let w := Walk.new Calls.unwinder code 4096 host
    let state := Calls.state 100
    (∃ n log host', w.search n state host = (log, some (.ok ⟨1008⟩, host'))) ∧
    (∃ n log registers host',
      w.normal n state host ⟨1008⟩ = (log, some (.installed registers, host')) ∧
        registers.value .ra = 300) ∧
    ∃ n log host', w.force n state host ⟨600, 0⟩ = (log, some (.returned .END, host')) := by
  intro pad P code host w state
  have hobliging : Obliging w ⟨600, 0⟩ := ⟨fun _ _ => rfl, fun _ _ hlive => hlive⟩
  have hlive : Live w host := rfl
  obtain ⟨-, -, -, hsearch, hnormal, hforce⟩ := loops_refine_protocol (P := P) state (by decide)
    hlive hobliging ⟨1008⟩ (fun _ _ _ _ _ _ => rfl) (fun _ _ _ _ _ _ => rfl)
    (fun _ _ _ _ _ _ => rfl)
  let outer := Calls.outer 100
  have hkey : outer.key = .ok ⟨1008⟩ := Calls.key_outer.1
  have hfound : typedSearch w P ⟨.new state, host⟩ = .inl ⟨outer, ⟨host.memory, 1⟩⟩ := rfl
  have hpassed : typedNormal w P ⟨1008⟩ ⟨.new state, host⟩ = .inl ⟨outer, host⟩ := by
    rw [typedNormal, Calls.key_state]
    rfl
  refine ⟨(hsearch _).2 ⟨_, .single hfound, ?_⟩, ?_, (hforce _).2
    ⟨_, .tail (.tail .refl rfl) rfl, rfl⟩⟩
  · exact congrArg (fun key => Sum.inr (key.mapError fun _ => ReasonCode.FATAL1)) hkey
  · obtain ⟨n, log, host', h⟩ := (hnormal _).2 ⟨_, .single hpassed, by rw [typedNormal, hkey]; rfl⟩
    exact ⟨n, log, _, host', h, rfl⟩

end Desenredo.Personality
