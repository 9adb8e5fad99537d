import Desenredo.Personality.CourseTheorems

/-!
# The course of a forced unwind

Forced unwinding on a stack of Rust and C++ frames with written tables runs the landing pads of all
cleanups, one pass after the other, and asks the stop function about every frame on its way. Here
the verdict of a frame is what its table says about unwinding that nothing takes.
-/

namespace Desenredo

open Personality Unwind

/-- The verdict of a Rust frame on a forced unwind: a catch runs as a cleanup and a filter is passed
over. -/
def Rust.Action.forced : Rust.Action → Personality.Verdict
  | .none | .filter _ => .pass
  | .cleanup pad | .catch pad => .cleanup ⟨pad.addr⟩
  | .terminate => .terminate

namespace Personality

section

variable [Gimli] {W : Type} {w : Walk W} {as : List Activation} {a : Activation} {forced : Forced}
  {c : Cursor} {host : Host W} {n : ℕ}

/-! ## The stop function -/

/-- A stop function that always lets the traversal go on and moves neither registers nor the
header. -/
structure Lenient (w : Walk W) (forced : Forced) : Prop where
  reason : ∀ args host, (w.code.stop forced.stop args forced.parameter host).reason = .NONE
  writes : ∀ args host, (w.code.stop forced.stop args forced.parameter host).writes = []
  header : ∀ args host, Exception.load
    (w.code.stop forced.stop args forced.parameter host).host.memory w.exception =
      Exception.load host.memory w.exception

/-- What the stop function is asked in a call: the actions, and the key of the frame unless the
stack is at its end. -/
def asks : Event W → Option (Actions × Option Key)
  | .stop call => some (call.args.actions, call.args.context.bind fun callback =>
      callback.frame.bind fun _ => callback.cursor.key.toOption)
  | _ => none

/-- What a pass over a stack asks: about every frame down to the first that does not pass, and about
the end of the stack when all do. -/
def questions : List Activation → List (Actions × Option Key)
  | [] => [(.FORCE ||| .CLEANUP ||| .END, none)]
  | a :: as => (.FORCE ||| .CLEANUP, some a.key) :: if a.verdict = .pass then questions as else []

/-- The personality of a frame answers a forced unwind by the verdict of the frame. -/
def Yields (w : Walk W) (a : Activation) : Prop :=
  ∀ host, Live w host →
    Gives host a (w.personality ⟨a.cursor, host⟩ a.info (.FORCE ||| .CLEANUP))
      (a.verdict.settle w.exception).reason (preparedCursor ⟨a.cursor, host⟩ a.info
        (prepared (a.verdict.settle w.exception).context))

/-- Two hosts with the same header. -/
def SameHeader (w : Walk W) (before after : Host W) : Prop :=
  Exception.load after.memory w.exception = Exception.load before.memory w.exception

theorem SameHeader.live {host' : Host W} (h : SameHeader w host host') (hlive : Live w host) :
    Live w host' := by
  rw [Live, h]
  exact hlive

/-- A personality asks the stop function nothing. -/
theorem personality_asks (s : Position W) (info : Info) (actions : Actions) :
    (w.personality s info actions).log.filterMap asks = [] := by
  rw [Walk.personality]
  split <;> rfl

/-! ## Turns -/

/-- The call of the stop function on a frame. -/
def stopOn (w : Walk W) (forced : Forced) (a : Activation) (host : Host W) : Call W :=
  w.stopCall ⟨a.cursor, host⟩ (some a.info) (.FORCE ||| .CLEANUP) forced

/-- What the personality of a frame answers behind the stop function. -/
def answerOn (w : Walk W) (forced : Forced) (a : Activation) (host : Host W) : Answer W :=
  w.personality ⟨a.cursor, (stopOn w forced a host).reply.host⟩ a.info (.FORCE ||| .CLEANUP)

/-- What a turn on a frame logs. -/
def logOn (w : Walk W) (forced : Forced) (a : Activation) (host : Host W) : List (Event W) :=
  .frame a.cursor a.info :: .stop (stopOn w forced a host) :: (answerOn w forced a host).log

theorem asks_logOn (w : Walk W) (forced : Forced) (host : Host W)
    (hkey : a.cursor.key = .ok a.key) :
    (logOn w forced a host).filterMap asks = [(.FORCE ||| .CLEANUP, some a.key)] := by
  have hasked : asks (.stop (stopOn w forced a host) : Event W) =
      some (.FORCE ||| .CLEANUP, a.cursor.key.toOption) := rfl
  rw [logOn, List.filterMap_cons_none rfl, List.filterMap_cons_some hasked, answerOn,
    personality_asks, hkey]
  rfl

/-- How a turn goes on with the answer of a personality. -/
def settled (w : Walk W) (info : Info) (log : List (Event W)) (s : Position W) :
    Except UnwindError (Option ReasonCode) → Turn (Position W) (Event W) (Exit × Host W)
  | .ok none | .ok (some .CONTINUE) => w.advance s log info (.returned .FATAL2)
  | .ok (some .INSTALL) => .done log (Walk.transfer s.cursor info, s.host)
  | .ok (some _) | .error _ => .done log (.returned .FATAL2, s.host)

/-- A turn on a frame asks the stop function and then the personality. -/
theorem forceTurn_eq (hlenient : Lenient w forced)
    (hinfo : a.cursor.current w.unwinder = .ok (some a.info)) :
    w.forceTurn forced ⟨a.cursor, host⟩ = settled w a.info (logOn w forced a host)
      (answerOn w forced a host).position (answerOn w forced a host).result := by
  have hreason : (stopOn w forced a host).reply.reason = .NONE := hlenient.reason _ _
  have hafter : Walk.after ⟨a.cursor, host⟩ (some a.info) (stopOn w forced a host).reply =
      ⟨a.cursor, (stopOn w forced a host).reply.host⟩ := by
    rw [Walk.after, show (stopOn w forced a host).reply.writes = [] from hlenient.writes _ _,
      Callback.replay_nil]
  have hstop : w.stopCall ⟨a.cursor, host⟩ (some a.info) (Walk.stopMask (some a.info)) forced =
      stopOn w forced a host := rfl
  simp only [Walk.forceTurn, hinfo, hstop, hreason, hafter]
  rfl

/-- What is known of the answer on a frame that keeps to its verdict. -/
theorem answerOn_gives (hlenient : Lenient w forced) (ha : Yields w a) (hlive : Live w host) :
    ((answerOn w forced a host).result = .ok (some (a.verdict.settle w.exception).reason) ∨
      (answerOn w forced a host).result = .ok none ∧ a.verdict = .pass) ∧
    (answerOn w forced a host).position.cursor =
      ((Callback.mk a.cursor (some a.info)).replay
        (prepared (a.verdict.settle w.exception).context)).cursor ∧
    SameHeader w host (answerOn w forced a host).position.host := by
  have hsame : SameHeader w host (stopOn w forced a host).reply.host := hlenient.header _ _
  obtain ⟨hresult, hcursor, hmemory⟩ := ha _ (hsame.live hlive)
  refine ⟨hresult, hcursor, ?_⟩
  rw [SameHeader, answerOn, hmemory]
  exact hsame

/-- A frame that passes lets a forced pass go on. -/
theorem forceTurn_passes {caller : Cursor} (hlenient : Lenient w forced)
    (hinfo : a.cursor.current w.unwinder = .ok (some a.info))
    (hadvance : a.cursor.advance w.unwinder a.info = (.ok (), caller)) (ha : Yields w a)
    (hlive : Live w host) (hverdict : a.verdict = .pass) :
    ∃ host', w.forceTurn forced ⟨a.cursor, host⟩ =
      .again (logOn w forced a host) ⟨caller, host'⟩ ∧ SameHeader w host host' := by
  obtain ⟨hresult, hcursor, hsame⟩ := answerOn_gives hlenient ha hlive
  rw [hverdict] at hresult hcursor
  have hkept : (answerOn w forced a host).position.cursor = a.cursor := hcursor
  refine ⟨(answerOn w forced a host).position.host, ?_, hsame⟩
  have hmoves : w.advance (answerOn w forced a host).position (logOn w forced a host) a.info
      (Exit.returned .FATAL2) = .again (logOn w forced a host)
        ⟨caller, (answerOn w forced a host).position.host⟩ := by
    simp only [Walk.advance, hkept, hadvance]
  rw [forceTurn_eq hlenient hinfo]
  rcases hresult with hresult | ⟨hresult, -⟩ <;> rw [hresult] <;> exact hmoves

/-- A frame that cleans up ends a forced pass with its landing pad. -/
theorem forceTurn_lands {pad : LandingPad} (hlenient : Lenient w forced)
    (hinfo : a.cursor.current w.unwinder = .ok (some a.info)) (ha : Yields w a)
    (hlive : Live w host) (hverdict : a.verdict = .cleanup pad) (as : List Activation) :
    ∃ exit host', w.forceTurn forced ⟨a.cursor, host⟩ =
        .done (logOn w forced a host) (exit, host') ∧ SameHeader w host host' ∧
      Landing.Taken ⟨a, pad, ⟨0⟩, as⟩ ⟨w.exception, host'.memory⟩ exit := by
  obtain ⟨hresult, hcursor, hsame⟩ := answerOn_gives hlenient ha hlive
  rw [hverdict] at hresult hcursor
  have hinstall := hresult.resolve_right fun h => by cases h.2
  refine ⟨_, _, (forceTurn_eq hlenient hinfo).trans (by rw [hinstall]; rfl), hsame, ?_⟩
  rw [hcursor]
  exact taken_of_transfers ⟨a, pad, ⟨0⟩, as⟩ (transfer_prepared a.cursor (some a.info) a.info
    ⟨⟨a.cursor, some a.info⟩⟩ pad ⟨w.exception, _⟩ ⟨0⟩)

/-- A frame that must not be left ends a forced pass with an error. -/
theorem forceTurn_terminates (hlenient : Lenient w forced)
    (hinfo : a.cursor.current w.unwinder = .ok (some a.info)) (ha : Yields w a)
    (hlive : Live w host) (hverdict : a.verdict = .terminate) :
    ∃ host', w.forceTurn forced ⟨a.cursor, host⟩ =
        .done (logOn w forced a host) (.returned .FATAL2, host') ∧ SameHeader w host host' := by
  obtain ⟨hresult, -, hsame⟩ := answerOn_gives hlenient ha hlive
  rw [hverdict] at hresult
  have hfatal := hresult.resolve_right fun h => by cases h.2
  exact ⟨_, (forceTurn_eq hlenient hinfo).trans (by rw [hfatal]; rfl), hsame⟩

/-- At the end of the stack the stop function is asked for the last time. -/
theorem forceTurn_ends (hlenient : Lenient w forced) (hend : c.current w.unwinder = .ok none)
    (host : Host W) :
    ∃ log host', w.forceTurn forced ⟨c, host⟩ = .done log (.returned .END, host') ∧
      SameHeader w host host' ∧ log.filterMap asks = [(.FORCE ||| .CLEANUP ||| .END, none)] := by
  have hreason : (w.stopCall ⟨c, host⟩ none (Walk.stopMask none) forced).reply.reason = .NONE :=
    hlenient.reason _ _
  refine ⟨[.stop (w.stopCall ⟨c, host⟩ none (Walk.stopMask none) forced)], _, ?_,
    hlenient.header (w.args c none (Walk.stopMask none)) host, rfl⟩
  simp only [Walk.forceTurn, hend, hreason]
  rfl

/-! ## Passes -/

/-- How a forced pass over a stack ends, before a resumed one diverges: at the first landing pad, or
where there is none with the end of the stack or the frame that must not be left. -/
inductive Unwound (w : Walk W) (as : List Activation) (exit : Exit) (host : Host W) : Prop
  | lands {landing : Landing} {rest : List Landing} : landings as = landing :: rest →
      landing.Taken ⟨w.exception, host.memory⟩ exit → Unwound w as exit host
  | ends : landings as = [] → sought as = .error .END → exit = .returned .END →
      Unwound w as exit host
  | fatal : landings as = [] → sought as = .error .FATAL1 → exit = .returned .FATAL2 →
      Unwound w as exit host

/-- Frames that no exception is taken in. -/
def Unhandled (as : List Activation) : Prop :=
  ∀ a ∈ as, ∀ pad selector, a.verdict ≠ .handler pad selector

/-- A landing pad of a stack that nothing is taken in cleans up. -/
theorem Unhandled.cleanup (h : Unhandled as) {landing : Landing} {rest : List Landing}
    (hstack : landings as = landing :: rest) :
    landing.activation.verdict = .cleanup landing.pad := by
  induction as with
  | nil => cases hstack
  | cons a as ih =>
    obtain ⟨hnone, hrest⟩ := List.forall_mem_cons.1 h
    cases hverdict : a.verdict with
    | pass => exact ih hrest (by rwa [landings_pass hverdict] at hstack)
    | cleanup pad =>
      rw [landings_cleanup hverdict, List.cons.injEq] at hstack
      obtain ⟨rfl, -⟩ := hstack
      exact hverdict
    | handler pad selector => exact absurd hverdict (hnone pad selector)
    | terminate =>
      rw [landings, hverdict] at hstack
      cases hstack

/-- A frame that passes makes no difference to how a pass ends. -/
theorem Unwound.pass {exit : Exit} (hverdict : a.verdict = .pass) (h : Unwound w as exit host) :
    Unwound w (a :: as) exit host := by
  have hsought : sought (a :: as) = sought as := sought_of_passes (by rw [hverdict]; rfl) as
  have hlandings := landings_pass hverdict as
  cases h with
  | lands hstack htaken => exact .lands (hlandings.trans hstack) htaken
  | ends hstack hend hexit => exact .ends (hlandings.trans hstack) (hsought.trans hend) hexit
  | fatal hstack hend hexit => exact .fatal (hlandings.trans hstack) (hsought.trans hend) hexit

/-- A forced pass over a stack goes to its first landing pad and asks the stop function about every
frame down to it; where no frame has one it asks to the end. -/
theorem force_unwinds (hstacked : Stacked w.unwinder as c) (hlenient : Lenient w forced)
    (hyields : ∀ a ∈ as, Yields w a) (hunhandled : Unhandled as) (hlive : Live w host)
    (hn : as.length < n) :
    ∃ log exit host', Loop.run (w.forceTurn forced) n ⟨c, host⟩ = (log, some (exit, host')) ∧
      SameHeader w host host' ∧ log.filterMap asks = questions as ∧ Unwound w as exit host' := by
  induction hstacked generalizing host n with
  | @bottom c hend =>
    obtain ⟨n, rfl⟩ := Nat.exists_eq_succ_of_ne_zero (Nat.ne_zero_of_lt hn)
    obtain ⟨log, host', hbody, hsame, hasks⟩ := forceTurn_ends hlenient hend host
    exact ⟨log, _, host', Loop.run_succ_done hbody n, hsame, hasks, .ends rfl rfl rfl⟩
  | @frame a as caller hinfo hkey hadvance _ ih =>
    obtain ⟨n, rfl⟩ := Nat.exists_eq_succ_of_ne_zero (Nat.ne_zero_of_lt hn)
    obtain ⟨ha, has⟩ := List.forall_mem_cons.1 hyields
    obtain ⟨hnone, hrest⟩ := List.forall_mem_cons.1 hunhandled
    have hasks := asks_logOn w forced host hkey
    cases hverdict : a.verdict with
    | pass =>
      obtain ⟨host', hbody, hsame⟩ := forceTurn_passes hlenient hinfo hadvance ha hlive hverdict
      obtain ⟨log, exit, last, hrun, hlast, hlog, hunwound⟩ :=
        ih has hrest (hsame.live hlive) (Nat.lt_of_succ_lt_succ hn)
      rw [Loop.run_succ_again hbody, hrun]
      refine ⟨_, exit, last, rfl, hlast.trans hsame, ?_, hunwound.pass hverdict⟩
      rw [List.filterMap_append, hasks, hlog, questions, if_pos hverdict, List.singleton_append]
    | cleanup pad =>
      obtain ⟨exit, host', hbody, hsame, htaken⟩ :=
        forceTurn_lands hlenient hinfo ha hlive hverdict as
      refine ⟨_, exit, host', Loop.run_succ_done hbody n, hsame, ?_,
        .lands (landings_cleanup hverdict as) htaken⟩
      rw [hasks, questions, if_neg (by rw [hverdict]; exact Verdict.noConfusion)]
    | handler pad selector => exact absurd hverdict (hnone pad selector)
    | terminate =>
      obtain ⟨host', hbody, hsame⟩ := forceTurn_terminates hlenient hinfo ha hlive hverdict
      refine ⟨_, _, host', Loop.run_succ_done hbody n, hsame, ?_, .fatal ?_ ?_ rfl⟩
      · rw [hasks, questions, if_neg (by rw [hverdict]; exact Verdict.noConfusion)]
      · rw [landings, hverdict]
      · rw [sought, hverdict]

/-! ## Compiled frames -/

section

variable [PointerEncoding]

/-- A frame of a program on a forced unwind: one without a personality, or a Rust or C++ frame with
a written table, which gives its verdict whatever the exception is. -/
inductive Abandoned (w : Walk W) (a : Activation) : Prop
  | bare : w.routine a.info = .ok none → a.verdict = .pass → Abandoned w a
  | rust {E : Type} {S : Source E} {F : TableEncoding} {T : ExceptionTable}
      {origin : NonZeroUsize} {address : ℕ} : w.routine a.info = .ok (some address) →
      w.code.personality address = dispatch (Rust.policy w.unwinder S) →
      Carries w.unwinder S F T origin a.frame →
      a.verdict = (T.rustAction (S.landingBase F origin a.frame) a.offset).forced → Abandoned w a
  | cxx {E G : Type} {S : Source E} {M : Cxx.Matcher W G} {F : TableEncoding}
      {T : ExceptionTable} {origin : NonZeroUsize} {address : ℕ} :
      w.routine a.info = .ok (some address) →
      w.code.personality address = dispatch (Cxx.policy w.unwinder S M) →
      Carries w.unwinder S F T origin a.frame →
      a.verdict = (T.cxxAction (S.landingBase F origin a.frame) (fun _ => false)
        a.offset).verdict → Abandoned w a

omit [PointerEncoding] in
/-- A typed personality that decides a forced cleanup by the verdict of a frame yields. -/
theorem yields_of_cleanup {P : Personality W} {address : ℕ} (hp : w.exception ≠ 0)
    (hroutine : w.routine a.info = .ok (some address))
    (hcode : w.code.personality address = dispatch P)
    (h : ∀ memory world,
      let outcome := P.cleanup ⟨a.cleanupFrame, ⟨w.exception, memory⟩, w.class_, true⟩ world
      outcome.decision = a.verdict.settle w.exception ∧ outcome.dropped = none) : Yields w a := by
  intro host hlive
  have hcall : (w.call ⟨a.cursor, host⟩ (some a.info) (.FORCE ||| .CLEANUP) (dispatch P)).reply =
    _ := call_forced hp hlive
  have harguments : cleanupCall w ⟨a.cursor, host⟩ a.info true =
    ⟨a.cleanupFrame, ⟨w.exception, host.memory⟩, w.class_, true⟩ := rfl
  obtain ⟨hdecision, hdropped⟩ := h host.memory host.world
  simp only [harguments, Outcome.reply, hdecision, hdropped] at hcall
  exact gives_reply hroutine hcode hcall rfl

theorem Abandoned.yields (hstandard : PointerEncoding.Standard) (hp : w.exception ≠ 0)
    (h : Abandoned w a) : Yields w a := by
  cases h with
  | bare hroutine hverdict =>
    intro host _
    rw [Walk.personality, hroutine, hverdict]
    exact ⟨.inr ⟨rfl, hverdict⟩, rfl, rfl⟩
  | rust hroutine hcode hcarries hverdict =>
    refine yields_of_cleanup hp hroutine hcode fun memory world => ⟨?_, rfl⟩
    simp only [Rust.policy, Rust.Policy.cleanup, a.frame_cleanupFrame,
      hcarries.rust_action hstandard, hverdict]
    cases ExceptionTable.rustAction _ _ a.offset <;> rfl
  | cxx hroutine hcode hcarries hverdict =>
    refine yields_of_cleanup hp hroutine hcode fun memory world => ⟨?_, rfl⟩
    obtain ⟨lsda, htable, hclean⟩ := hcarries.cxx_clean hstandard
    simp only [Cxx.policy, Cxx.Policy.cleanup, Cxx.Policy.lsda, a.frame_cleanupFrame, htable,
      hclean, hverdict]
    cases haction : ExceptionTable.cxxAction _ _ _ a.offset with
    | handler pad selector => exact absurd haction ExceptionTable.cxxAction_ne_handler
    | _ => rfl

/-- No exception is taken on a forced unwind. -/
theorem Abandoned.ne_handler (h : Abandoned w a) (pad : LandingPad) (selector : Selector) :
    a.verdict ≠ .handler pad selector := by
  cases h with
  | bare _ hverdict =>
    rw [hverdict]
    exact Verdict.noConfusion
  | rust _ _ _ hverdict =>
    rw [hverdict]
    cases ExceptionTable.rustAction _ _ a.offset <;> exact Verdict.noConfusion
  | cxx _ _ _ hverdict =>
    rw [hverdict]
    cases haction : ExceptionTable.cxxAction _ _ _ a.offset with
    | handler pad selector => exact absurd haction ExceptionTable.cxxAction_ne_handler
    | _ => exact Verdict.noConfusion

/-! ## Whole unwinds -/

/-- A stack of compiled frames that is to be unwound. -/
structure Retreat (w : Walk W) (as : List Activation) (state : State) : Prop where
  stacked : Stacked w.unwinder as (.new state)
  compiled : ∀ a ∈ as, Abandoned w a

/-- The passes of a forced unwind: the landing pads gone to before a pass, the stack the pass starts
on, what it does, how it ends and the host it leaves.

A pass that went to a landing pad is followed by the pass the landing pad resumes, from a place
where its own frame has nothing left to do and on older frames with the keys and verdicts they had,
with the header of the exception as it was. -/
inductive ForcedCourse (w : Walk W) (forced : Forced) (first : List Activation) :
    List (Key × LandingPad × Selector) → List Activation → List (Event W) → Exit → Host W → Prop
  | force {n : ℕ} {state : State} {host host' : Host W} {log : List (Event W)} {exit : Exit} :
      Live w host → Retreat w first state → first.length < n →
      Walk.forced n state host w.unwinder w.code w.exception forced = (log, some (exit, host')) →
      ForcedCourse w forced first [] first log exit host'
  | resume {n : ℕ} {state : State} {host host' host'' : Host W} {registers : Registers}
      {taken : List (Key × LandingPad × Selector)} {as older : List Activation} {a : Activation}
      {landing : Landing} {rest : List Landing} {log log' : List (Event W)} {exit : Exit} :
      ForcedCourse w forced first taken as log (.installed registers) host →
      landings as = landing :: rest → SameHeader w host host' → Retreat w (a :: older) state →
      a.verdict = .pass → older.map Activation.settled = landing.older.map Activation.settled →
      older.length + 1 < n →
      Walk.resume n state host' w.unwinder w.code w.exception = (log', some (exit, host'')) →
      ForcedCourse w forced first (taken ++ [landing.mark]) (a :: older) log' exit host''

/-- What is so at the end of every pass of a forced unwind. -/
structure ForcedCourse.Passed (w : Walk W) (forced : Forced) (first : List Activation)
    (taken : List (Key × LandingPad × Selector)) (as : List Activation) (log : List (Event W))
    (exit : Exit) (host : Host W) : Prop where
  asked : log.filterMap asks = questions as
  ended : ∃ reached, Unwound w as reached host ∧
    exit = if taken = [] then reached else reached.diverge
  marks : (landings first).map Landing.mark = taken ++ (landings as).map Landing.mark
  live : Live w host
  recorded : Resume.read host.memory w.exception = .forced forced
  unhandled : Unhandled as

theorem Retreat.unwinds (hstandard : PointerEncoding.Standard) (hp : w.exception ≠ 0)
    (hlenient : Lenient w forced) {state : State} (hretreat : Retreat w as state)
    (hlive : Live w host) (hn : as.length < n) :
    ∃ log exit host', w.force n state host forced = (log, some (exit, host')) ∧
      SameHeader w host host' ∧ log.filterMap asks = questions as ∧ Unwound w as exit host' :=
  force_unwinds hretreat.stacked hlenient
    (fun a ha => (hretreat.compiled a ha).yields hstandard hp)
    (fun a ha => (hretreat.compiled a ha).ne_handler) hlive hn

theorem ForcedCourse.passed (hstandard : PointerEncoding.Standard) (hp : w.exception ≠ 0)
    (hlenient : Lenient w forced) (hstop : forced.stop ≠ 0) {first : List Activation}
    {taken : List (Key × LandingPad × Selector)} {log : List (Event W)} {exit : Exit}
    (h : ForcedCourse w forced first taken as log exit host) :
    Passed w forced first taken as log exit host := by
  have hunhandled {as : List Activation} {state : State} (hretreat : Retreat w as state) :
      Unhandled as := fun a ha => (hretreat.compiled a ha).ne_handler
  induction h with
  | @force n state host host' log exit hlive hretreat hn hforce =>
    let marked : Host W := ⟨(Resume.forced forced).write w.exception host.memory, host.world⟩
    have hmarked : Live w marked := hlive.write (.forced forced) rfl
    obtain ⟨log', exit', last, hrun, hsame, hasked, hunwound⟩ :=
      hretreat.unwinds hstandard hp hlenient hmarked hn
    simp only [Walk.forced, if_neg hp, hlive.new_eq] at hforce
    obtain ⟨rfl, hresult⟩ := Prod.mk.inj (hrun.symm.trans hforce)
    obtain ⟨rfl, rfl⟩ := Prod.mk.inj (Option.some.inj hresult)
    refine ⟨hasked, ⟨_, hunwound, (if_pos rfl).symm⟩, rfl, hsame.live hmarked, ?_,
      hunhandled hretreat⟩
    rw [Resume.read, hsame]
    exact Resume.read_write (fun f h => by cases h; exact hstop) _ _
  | @resume n state host host' host'' registers taken as older a landing rest log log' exit _ hstack
      hheader hretreat hpass hsettled hn hresume ih =>
    have hlive : Live w host' := hheader.live ih.live
    have hread : Resume.read host'.memory w.exception = .forced forced := by
      rw [Resume.read, hheader]
      exact ih.recorded
    obtain ⟨log'', exit', last, hrun, hsame, hasked, hunwound⟩ :=
      hretreat.unwinds hstandard hp hlenient hlive hn
    simp only [Walk.resume, if_neg hp, hlive.new_eq, hread, Walk.continue_, hrun,
      Option.map_some] at hresume
    obtain ⟨rfl, hresult⟩ := Prod.mk.inj hresume
    obtain ⟨rfl, rfl⟩ := Prod.mk.inj (Option.some.inj hresult)
    refine ⟨hasked, ⟨_, hunwound, (if_neg (by simp)).symm⟩, ?_, hsame.live hlive, ?_,
      hunhandled hretreat⟩
    · obtain ⟨hrest, -⟩ := landings_older hstack (ih.unhandled.cleanup hstack)
      rw [landings_pass hpass, (settled_congr hsettled).2, ← hrest, ih.marks, hstack,
        List.append_assoc]
      rfl
    · rw [Resume.read, hsame]
      exact hread

/-- **Forced course.** The passes of a forced unwind over Rust and C++ frames with written tables
take the landing pads of the stack it began on, each one once and in order, and ask the stop
function about every frame on their way. When all have been taken the last pass comes to the end of
the stack or to the frame that must not be left, and returns if it is the first, else traps. -/
theorem forced_course_lands (hstandard : PointerEncoding.Standard) (hp : w.exception ≠ 0)
    (hlenient : Lenient w forced) (hstop : forced.stop ≠ 0) {first : List Activation}
    {taken : List (Key × LandingPad × Selector)} {log : List (Event W)} {exit : Exit}
    (h : ForcedCourse w forced first taken as log exit host) :
    log.filterMap asks = questions as ∧
      ((∃ landing rest, landings as = landing :: rest ∧
          landing.Taken ⟨w.exception, host.memory⟩ exit ∧
          (landings first).map Landing.mark = taken ++ landing.mark :: rest.map Landing.mark) ∨
        (landings first).map Landing.mark = taken ∧
          ∃ reason, exit = (if taken = [] then .returned reason else .trapped) ∧
            (sought as = .error .END ∧ reason = .END ∨
              sought as = .error .FATAL1 ∧ reason = .FATAL2)) := by
  obtain ⟨hasked, ⟨reached, hunwound, hexit⟩, hmarks, -, -, -⟩ :=
    h.passed hstandard hp hlenient hstop
  refine ⟨hasked, ?_⟩
  cases hunwound with
  | @lands landing rest hstack htaken =>
    refine .inl ⟨landing, rest, hstack, ?_, by rw [hmarks, hstack]; rfl⟩
    rw [hexit]
    split
    · exact htaken
    · exact htaken.diverge
  | ends hstack hend hreached =>
    subst hreached
    exact .inr ⟨by rw [hmarks, hstack]; exact List.append_nil taken, .END, hexit,
      .inl ⟨hend, rfl⟩⟩
  | fatal hstack hend hreached =>
    subst hreached
    exact .inr ⟨by rw [hmarks, hstack]; exact List.append_nil taken, .FATAL2, hexit,
      .inr ⟨hend, rfl⟩⟩

end

end

namespace Recursion

attribute [local instance] Gimli.decoded PointerEncoding.bits

theorem abandoned {a : Activation} (hlsda : a.frame.lsda unwinder = some ⟨0x1000, by decide⟩)
    (hroutine : walk.routine a.info = .ok (some 500)) (hstart : a.frame.start = 0x2000)
    (hinside : 0x2000 ≤ a.frame.ip.site)
    (hverdict : a.verdict =
      (ExceptionTable.nested.rustAction 0x2000 (a.frame.ip.site - 0x2000)).forced) :
    Abandoned walk a := by
  refine .rust hroutine rfl (carries hlsda hstart hinside) ?_
  rw [Activation.offset, hstart, landingBase_eq hstart, hverdict]

theorem forced : Retreat walk [inner 0x2003 (.cleanup cleanupPad), outer 0x2003 .pass]
    (state 0x2003) where
  stacked := .frame rfl (Cursor.key_new rfl (by decide)) rfl (.frame rfl rfl rfl (.bottom rfl))
  compiled := List.forall_mem_cons.2 ⟨abandoned rfl rfl rfl (by decide) rfl,
    List.forall_mem_singleton.2 (abandoned rfl rfl rfl (by decide) rfl)⟩

theorem continued : Retreat walk [inner 0x2016 .pass, outer 0x2016 .pass] (state 0x2016) where
  stacked := .frame rfl (Cursor.key_new rfl (by decide)) rfl (.frame rfl rfl rfl (.bottom rfl))
  compiled := List.forall_mem_cons.2 ⟨abandoned rfl rfl rfl (by decide) rfl,
    List.forall_mem_singleton.2 (abandoned rfl rfl rfl (by decide) rfl)⟩

end Recursion

/-- The inner call cleans up, and what it resumes comes to the end of the stack. -/
theorem forced_course_lands_recursion :
    let _ := Gimli.decoded
    let _ := PointerEncoding.bits
    ∃ taken log host', ForcedCourse Recursion.walk ⟨600, 0⟩
        [Recursion.inner 0x2003 (.cleanup Recursion.cleanupPad), Recursion.outer 0x2003 .pass]
        taken [Recursion.inner 0x2016 .pass, Recursion.outer 0x2016 .pass] log .trapped host' ∧
      taken = [(⟨1000⟩, Recursion.cleanupPad, ⟨0⟩)] ∧
      log.filterMap asks = [(.FORCE ||| .CLEANUP, some ⟨1000⟩), (.FORCE ||| .CLEANUP, some ⟨1008⟩),
        (.FORCE ||| .CLEANUP ||| .END, none)] := by
  intro _ _
  have hp : Recursion.walk.exception ≠ 0 := by decide
  have hlenient : Lenient Recursion.walk ⟨600, 0⟩ :=
    ⟨fun _ _ => rfl, fun _ _ => rfl, fun _ _ => rfl⟩
  have hstart : Live Recursion.walk Recursion.host := rfl
  have hmarked : Live Recursion.walk ⟨(Resume.forced ⟨600, 0⟩).write 4096 fun _ => 7, ()⟩ :=
    hstart.write (.forced ⟨600, 0⟩) rfl
  obtain ⟨log, exit, host, hrun, hsame, -, hunwound⟩ := Recursion.forced.unwinds (n := 3)
    PointerEncoding.standard_bits hp hlenient hmarked (by decide)
  obtain ⟨landing, rest, hstack, htaken⟩ : ∃ landing rest,
      landings [Recursion.inner 0x2003 (.cleanup Recursion.cleanupPad),
        Recursion.outer 0x2003 .pass] = landing :: rest ∧
      landing.Taken ⟨Recursion.walk.exception, host.memory⟩ exit := by
    cases hunwound with
    | lands hstack htaken => exact ⟨_, _, hstack, htaken⟩
    | ends hstack _ _ | fatal hstack _ _ => cases hstack
  obtain ⟨rfl, -⟩ := List.cons.inj hstack
  obtain rfl := (htaken _).2 ⟨by decide, rfl⟩
  have hfirst : ForcedCourse Recursion.walk ⟨600, 0⟩ _ [] _ _ _ host :=
    .force (n := 3) hstart Recursion.forced (by decide) ((if_neg hp).trans hrun)
  have hread : Resume.read host.memory Recursion.walk.exception = .forced ⟨600, 0⟩ := by
    rw [Resume.read, hsame]
    exact Resume.read_write (fun f h => by cases h; decide) _ _
  have hlive : Live Recursion.walk host := hsame.live hmarked
  obtain ⟨log', exit', host', hrun', -, -, -⟩ := Recursion.continued.unwinds (n := 3)
    PointerEncoding.standard_bits hp hlenient hlive (by decide)
  have hresume : Walk.resume 3 (Recursion.state 0x2016) host Recursion.walk.unwinder
      Recursion.walk.code Recursion.walk.exception = (log', some (exit'.diverge, host')) := by
    simp only [Walk.resume, if_neg hp, hlive.new_eq, hread, Walk.continue_, hrun', Option.map_some]
  have hcourse := ForcedCourse.resume hfirst rfl rfl Recursion.continued rfl rfl (by decide) hresume
  obtain ⟨hasked, ⟨landing, rest, hstack, -⟩ | ⟨htaken, reason, hexit, -⟩⟩ :=
    forced_course_lands PointerEncoding.standard_bits hp hlenient (by decide) hcourse
  · cases hstack
  · rw [hexit] at hcourse
    exact ⟨_, log', host', hcourse, rfl, hasked⟩

end Personality

end Desenredo
