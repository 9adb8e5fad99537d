import Desenredo.Personality.InstallTheorems
import Desenredo.Personality.ProtocolTheorems

/-!
# Where an exception lands

Each frame of a stack has a verdict on the exception. Phase one finds the first frame that decides,
phase two goes to the first landing pad in front of it, and a landing pad that resumes sends the
exception on to the next: the landing pads it goes to are those of the cleanups down to the handler,
in order, and then the handler's.
-/

namespace Desenredo.Personality

open Unwind

/-! ## Verdicts -/

/-- What a frame does about an exception. -/
inductive Verdict where
  /-- Nothing. -/
  | pass
  /-- Its landing pad cleans up and resumes. -/
  | cleanup (pad : LandingPad)
  /-- Its landing pad takes the exception. -/
  | handler (pad : LandingPad) (selector : Selector)
  /-- The exception must not leave it. -/
  | terminate
deriving DecidableEq

namespace Verdict

/-- What the search is told. -/
def search : Verdict → SearchDecision
  | pass | cleanup _ => .continue_
  | handler _ _ => .handlerFound
  | terminate => .fatal

/-- What phase two is told of an exception. -/
def settle (exception : ℕ) : Verdict → CleanupDecision
  | pass => .continue_
  | cleanup pad => .install ⟨pad, exception, ⟨0⟩⟩
  | handler pad selector => .install ⟨pad, exception, selector⟩
  | terminate => .fatal

/-- The actions phase two asks for. -/
def actions : Verdict → Actions
  | handler _ _ => .CLEANUP ||| .HANDLER
  | _ => .CLEANUP

end Verdict

section

variable [Gimli]

/-- A frame of a stack with its verdict. -/
structure Activation where
  cursor : Cursor
  info : Info
  key : Key
  verdict : Verdict

/-- What a personality sees of a frame. -/
def Activation.frame (a : Activation) : Frame := ⟨⟨a.cursor, some a.info⟩⟩

/-- What a personality is to prepare of a frame. -/
def Activation.cleanupFrame (a : Activation) : CleanupFrame := ⟨⟨a.cursor, some a.info⟩⟩

@[simp] theorem Activation.frame_cleanupFrame (a : Activation) : a.cleanupFrame.frame = a.frame :=
  rfl

/-- The offset in its function at which a personality looks a frame up. -/
def Activation.offset (a : Activation) : ℕ := a.frame.ip.site - a.frame.start

/-- The frames of a stack from a cursor down to the oldest. -/
inductive Stacked (U : Unwinder) : List Activation → Cursor → Prop
  | bottom {c : Cursor} : c.current U = .ok none → Stacked U [] c
  | frame {a : Activation} {as : List Activation} {caller : Cursor} :
      a.cursor.current U = .ok (some a.info) → a.cursor.key = .ok a.key →
      a.cursor.advance U a.info = (.ok (), caller) → Stacked U as caller →
      Stacked U (a :: as) a.cursor

/-- What the search of a stack comes to: the first frame that decides. -/
def sought : List Activation → Except ReasonCode Key
  | [] => .error .END
  | a :: as =>
    match a.verdict with
    | .pass | .cleanup _ => sought as
    | .handler _ _ => .ok a.key
    | .terminate => .error .FATAL1

/-- A landing pad of a frame, and the frames below. -/
structure Landing where
  activation : Activation
  pad : LandingPad
  selector : Selector
  older : List Activation

/-- What a landing pad is known by in every traversal. -/
def Landing.mark (landing : Landing) : Key × LandingPad × Selector :=
  (landing.activation.key, landing.pad, landing.selector)

/-- What a frame is known by in every traversal. -/
def Activation.settled (a : Activation) : Key × Verdict := (a.key, a.verdict)

/-- The landing pads down to the handler. -/
def landings : List Activation → List Landing
  | [] => []
  | a :: as =>
    match a.verdict with
    | .pass => landings as
    | .cleanup pad => ⟨a, pad, ⟨0⟩, as⟩ :: landings as
    | .handler pad selector => [⟨a, pad, selector, as⟩]
    | .terminate => []

/-- Control goes to a landing pad when its registers are available, and with these. -/
def Landing.Taken (landing : Landing) (exception : ExceptionRef) (exit : Exit) : Prop :=
  ∀ registers, exit = .installed registers ↔
    (∀ slot ∈ restored, landing.activation.cursor.state.value slot ≠ none) ∧
      registers = ⟨transferred landing.activation.cursor.state landing.activation.info.args
        landing.pad exception landing.selector⟩

variable {as : List Activation} {a : Activation} {key : Key}

theorem landings_pass (h : a.verdict = .pass) (as : List Activation) :
    landings (a :: as) = landings as := by
  rw [landings, h]

theorem landings_cleanup {pad : LandingPad} (h : a.verdict = .cleanup pad)
    (as : List Activation) : landings (a :: as) = ⟨a, pad, ⟨0⟩, as⟩ :: landings as := by
  rw [landings, h]

theorem landings_handler {pad : LandingPad} {selector : Selector}
    (h : a.verdict = .handler pad selector) (as : List Activation) :
    landings (a :: as) = [⟨a, pad, selector, as⟩] := by
  rw [landings, h]

/-- Transferring control takes a landing pad. -/
theorem taken_of_transfers (landing : Landing) {exception : ExceptionRef} {exit : Exit}
    (h : Transfers landing.activation.cursor.state landing.activation.info.args landing.pad
      exception landing.selector exit) : landing.Taken exception exit := by
  intro registers
  constructor
  · rintro rfl
    refine ⟨fun slot hslot hnone => ?_, Exit.installed.inj (h.2 Exit.noConfusion)⟩
    cases h.1.2 ⟨slot, hslot, hnone⟩
  · rintro ⟨havailable, rfl⟩
    refine h.2 fun hfatal => ?_
    obtain ⟨slot, hslot, hnone⟩ := h.1.1 hfatal
    exact havailable slot hslot hnone

/-- Diverging changes nothing for a landing pad. -/
theorem Landing.Taken.diverge {landing : Landing} {exception : ExceptionRef} {exit : Exit}
    (h : landing.Taken exception exit) : landing.Taken exception exit.diverge := by
  intro registers
  rw [← h registers]
  cases exit <;> simp [Exit.diverge]

theorem sought_of_passes (h : a.verdict.search = .continue_) (as : List Activation) :
    sought (a :: as) = sought as := by
  rw [sought]
  cases hverdict : a.verdict <;> first | rfl | (rw [hverdict] at h; cases h)

/-- The landing pads behind one of a cleanup are those of the older frames. -/
theorem landings_older {landing : Landing} {rest : List Landing}
    (h : landings as = landing :: rest)
    (hcleanup : landing.activation.verdict = .cleanup landing.pad) :
    rest = landings landing.older ∧ sought as = sought landing.older := by
  induction as with
  | nil => cases h
  | cons a as ih =>
    cases hverdict : a.verdict with
    | pass =>
      rw [landings_pass hverdict] at h
      rw [sought_of_passes (by rw [hverdict]; rfl)]
      exact ih h
    | cleanup pad =>
      rw [landings_cleanup hverdict, List.cons.injEq] at h
      obtain ⟨rfl, rfl⟩ := h
      exact ⟨rfl, sought_of_passes (by rw [hverdict]; rfl) as⟩
    | handler pad selector =>
      rw [landings_handler hverdict, List.cons.injEq] at h
      obtain ⟨rfl, -⟩ := h
      rw [hcleanup] at hverdict
      cases hverdict
    | terminate =>
      rw [landings, hverdict] at h
      cases h

/-- Frames with the same keys and verdicts have the same handler and landing pads. -/
theorem settled_congr {bs : List Activation}
    (h : as.map Activation.settled = bs.map Activation.settled) :
    sought as = sought bs ∧ (landings as).map Landing.mark = (landings bs).map Landing.mark := by
  induction as generalizing bs with
  | nil =>
    obtain rfl := List.map_eq_nil_iff.1 h.symm
    exact ⟨rfl, rfl⟩
  | cons a as ih =>
    obtain ⟨b, bs, rfl, hsettled, htail⟩ := List.map_eq_cons_iff.1 h.symm
    obtain ⟨hkey, hverdict⟩ := Prod.mk.inj hsettled
    obtain ⟨hsought, hlandings⟩ := ih htail.symm
    simp only [sought, landings, hverdict]
    cases a.verdict <;> simp_all [Landing.mark]

theorem mem_of_sought (h : sought as = .ok key) : key ∈ as.map Activation.key := by
  induction as with
  | nil => cases h
  | cons a as ih =>
    rw [sought] at h
    rw [List.map_cons, List.mem_cons]
    split at h
    · exact .inr (ih h)
    · exact .inr (ih h)
    · exact .inl (Except.ok.inj h).symm
    · cases h

/-! ## Frames that keep to their verdict -/

variable {W : Type} {w : Walk W}

/-- A frame answers with a reason and leaves a cursor, or has no personality and passes; it does
not touch memory. -/
structure Gives (host : Host W) (a : Activation) (answer : Answer W) (reason : ReasonCode)
    (left : Cursor) : Prop where
  result : answer.result = .ok (some reason) ∨ answer.result = .ok none ∧ a.verdict = .pass
  cursor : answer.position.cursor = left
  memory : answer.position.host.memory = host.memory

/-- The personality of a frame answers both phases by the verdict of the frame, for every live
exception. -/
structure Obeys (w : Walk W) (a : Activation) : Prop where
  search : ∀ host, Live w host → Gives host a (w.personality ⟨a.cursor, host⟩ a.info .SEARCH)
    a.verdict.search.reason a.cursor
  settle : ∀ host, Live w host →
    Gives host a (w.personality ⟨a.cursor, host⟩ a.info a.verdict.actions)
      (a.verdict.settle w.exception).reason (preparedCursor ⟨a.cursor, host⟩ a.info
        (prepared (a.verdict.settle w.exception).context))

/-- A frame without a personality lets every exception pass. -/
theorem obeys_of_absent (hroutine : w.routine a.info = .ok none) (h : a.verdict = .pass) :
    Obeys w a where
  search host _ := by
    rw [Walk.personality, hroutine]
    exact ⟨.inr ⟨rfl, h⟩, rfl, rfl⟩
  settle host _ := by
    rw [Walk.personality, hroutine, h]
    exact ⟨.inr ⟨rfl, h⟩, rfl, rfl⟩

/-- A frame gives what its routine replies. -/
theorem gives_reply {host : Host W} {actions : Actions} {address : ℕ} {f : PersonalityFn W}
    {reply : Reply W} (hroutine : w.routine a.info = .ok (some address))
    (hcode : w.code.personality address = f)
    (hreply : (w.call ⟨a.cursor, host⟩ (some a.info) actions f).reply = reply)
    (hmemory : reply.host.memory = host.memory) :
    Gives host a (w.personality ⟨a.cursor, host⟩ a.info actions) reply.reason
      (preparedCursor ⟨a.cursor, host⟩ a.info reply.writes) := by
  subst hcode hreply
  rw [Walk.personality, hroutine]
  exact ⟨.inl rfl, rfl, hmemory⟩

/-- A typed personality decides by the verdict of a frame. -/
structure Decides (P : Personality W) (p : ℕ) (class_ : ExceptionClass) (a : Activation) :
    Prop where
  search : ∀ memory world, (P.search ⟨a.frame, ⟨p, memory⟩, class_⟩ world).1 =
    a.verdict.search
  cleanup : (∀ pad selector, a.verdict ≠ .handler pad selector) → ∀ memory world,
    let outcome := P.cleanup ⟨a.cleanupFrame, ⟨p, memory⟩, class_, false⟩ world
    outcome.decision = a.verdict.settle p ∧ outcome.dropped = none
  handler : ∀ pad selector, a.verdict = .handler pad selector → ∀ memory world,
    let outcome := P.handler ⟨a.cleanupFrame, ⟨p, memory⟩, class_⟩ world
    outcome.decision = .install ⟨pad, p, selector⟩ ∧ outcome.dropped = none

theorem obeys_of_decides {P : Personality W} {address : ℕ} (hp : w.exception ≠ 0)
    (hroutine : w.routine a.info = .ok (some address))
    (hcode : w.code.personality address = dispatch P)
    (h : Decides P w.exception w.class_ a) : Obeys w a where
  search host hlive := by
    have hcall : (w.call ⟨a.cursor, host⟩ (some a.info) .SEARCH (dispatch P)).reply = _ :=
      call_search hp hlive
    rw [← h.search host.memory host.world]
    exact gives_reply hroutine hcode hcall rfl
  settle host hlive := by
    by_cases hhandler : ∃ pad selector, a.verdict = .handler pad selector
    · obtain ⟨pad, selector, hverdict⟩ := hhandler
      have hcall : (w.call ⟨a.cursor, host⟩ (some a.info) (.CLEANUP ||| .HANDLER)
          (dispatch P)).reply = _ :=
        call_handler hp hlive
      obtain ⟨hdecision, hdropped⟩ := h.handler pad selector hverdict host.memory host.world
      have harguments : handlerCall w ⟨a.cursor, host⟩ a.info =
        ⟨a.cleanupFrame, ⟨w.exception, host.memory⟩, w.class_⟩ := rfl
      simp only [harguments, Outcome.reply, hdecision, hdropped] at hcall
      rw [hverdict]
      exact gives_reply hroutine hcode hcall rfl
    · have hnone : ∀ pad selector, a.verdict ≠ .handler pad selector :=
        fun pad selector hverdict => hhandler ⟨pad, selector, hverdict⟩
      have hactions : a.verdict.actions = .CLEANUP := by
        cases hverdict : a.verdict with
        | handler pad selector => exact absurd hverdict (hnone pad selector)
        | _ => rfl
      have hcall : (w.call ⟨a.cursor, host⟩ (some a.info) .CLEANUP (dispatch P)).reply = _ :=
        call_cleanup hp hlive
      obtain ⟨hdecision, hdropped⟩ := h.cleanup hnone host.memory host.world
      have harguments : cleanupCall w ⟨a.cursor, host⟩ a.info false =
        ⟨a.cleanupFrame, ⟨w.exception, host.memory⟩, w.class_, false⟩ := rfl
      simp only [harguments, Outcome.reply, hdecision, hdropped] at hcall
      rw [hactions]
      exact gives_reply hroutine hcode hcall rfl

/-! ## The phases -/

variable {U : Unwinder} {c : Cursor} {host : Host W} {n : ℕ}

theorem Live.of_memory {host' : Host W} (h : Live w host) (hmemory : host'.memory = host.memory) :
    Live w host' := by
  rwa [Live, hmemory]

/-- A frame that passes or cleans up lets the search go on. -/
theorem searchTurn_passes {caller : Cursor}
    (hinfo : a.cursor.current w.unwinder = .ok (some a.info))
    (hadvance : a.cursor.advance w.unwinder a.info = (.ok (), caller)) (ha : Obeys w a)
    (hlive : Live w host) (hpasses : a.verdict.search = .continue_) :
    ∃ log host', w.searchTurn ⟨a.cursor, host⟩ = .again log ⟨caller, host'⟩ ∧
      host'.memory = host.memory := by
  obtain ⟨hresult, hcursor, hmemory⟩ := ha.search host hlive
  generalize hanswer : w.personality ⟨a.cursor, host⟩ a.info .SEARCH = answer at *
  obtain ⟨called, result, position⟩ := answer
  obtain ⟨cursor, host'⟩ := position
  dsimp only at hresult hcursor hmemory
  subst hcursor
  refine ⟨.frame a.cursor a.info :: called, host', ?_, hmemory⟩
  rw [hpasses] at hresult
  rcases hresult with rfl | ⟨rfl, -⟩ <;>
    simp only [Walk.searchTurn, hinfo, hanswer, SearchDecision.reason, Walk.advance, hadvance]

/-- A frame that decides ends the search. -/
theorem searchTurn_decides (hinfo : a.cursor.current w.unwinder = .ok (some a.info))
    (hkey : a.cursor.key = .ok a.key) (ha : Obeys w a) (hlive : Live w host)
    (hdecides : a.verdict.search ≠ .continue_) (as : List Activation) :
    ∃ log host', w.searchTurn ⟨a.cursor, host⟩ = .done log (sought (a :: as), host') ∧
      host'.memory = host.memory := by
  obtain ⟨hresult, hcursor, hmemory⟩ := ha.search host hlive
  generalize hanswer : w.personality ⟨a.cursor, host⟩ a.info .SEARCH = answer at *
  obtain ⟨called, result, position⟩ := answer
  obtain ⟨cursor, host'⟩ := position
  dsimp only at hresult hcursor hmemory
  subst hcursor
  refine ⟨.frame a.cursor a.info :: called, host', ?_, hmemory⟩
  obtain rfl := hresult.resolve_right fun h => hdecides (by rw [h.2]; rfl)
  cases hverdict : a.verdict with
  | pass | cleanup pad => exact absurd (by rw [hverdict]; rfl) hdecides
  | handler pad selector =>
    simp only [Walk.searchTurn, hinfo, hanswer, hverdict, Verdict.search, SearchDecision.reason,
      hkey, sought]
    rfl
  | terminate =>
    simp only [Walk.searchTurn, hinfo, hanswer, hverdict, Verdict.search, SearchDecision.reason,
      sought]

/-- The search of a stack comes to the first frame that decides. -/
theorem search_sought (hstacked : Stacked w.unwinder as c) (hobeys : ∀ a ∈ as, Obeys w a)
    (hlive : Live w host) (hn : as.length < n) :
    ∃ log host', Loop.run w.searchTurn n ⟨c, host⟩ = (log, some (sought as, host')) ∧
      host'.memory = host.memory := by
  induction hstacked generalizing host n with
  | @bottom c hend =>
    obtain ⟨n, rfl⟩ := Nat.exists_eq_succ_of_ne_zero (Nat.ne_zero_of_lt hn)
    have hbody : w.searchTurn ⟨c, host⟩ = .done [] (.error .END, host) := by
      simp only [Walk.searchTurn, hend]
    exact ⟨_, host, Loop.run_succ_done hbody n, rfl⟩
  | @frame a as caller hinfo hkey hadvance _ ih =>
    obtain ⟨n, rfl⟩ := Nat.exists_eq_succ_of_ne_zero (Nat.ne_zero_of_lt hn)
    obtain ⟨ha, has⟩ := List.forall_mem_cons.1 hobeys
    by_cases hpasses : a.verdict.search = .continue_
    · obtain ⟨log, host', hbody, hmemory⟩ := searchTurn_passes hinfo hadvance ha hlive hpasses
      obtain ⟨rest, last, hrun, hlast⟩ :=
        ih has (hlive.of_memory hmemory) (Nat.lt_of_succ_lt_succ hn)
      have hsame : sought (a :: as) = sought as := sought_of_passes hpasses as
      rw [Loop.run_succ_again hbody, hrun, hsame]
      exact ⟨_, last, rfl, hlast.trans hmemory⟩
    · obtain ⟨log, host', hbody, hmemory⟩ := searchTurn_decides hinfo hkey ha hlive hpasses as
      exact ⟨log, host', Loop.run_succ_done hbody n, hmemory⟩

/-- A frame that passes lets phase two go on. -/
theorem normalTurn_passes {handler : Key} {caller : Cursor}
    (hinfo : a.cursor.current w.unwinder = .ok (some a.info)) (hkey : a.cursor.key = .ok a.key)
    (hadvance : a.cursor.advance w.unwinder a.info = (.ok (), caller)) (ha : Obeys w a)
    (hlive : Live w host) (hverdict : a.verdict = .pass) (hne : a.key ≠ handler) :
    ∃ log host', w.normalTurn handler ⟨a.cursor, host⟩ = .again log ⟨caller, host'⟩ ∧
      host'.memory = host.memory := by
  obtain ⟨hresult, hcursor, hmemory⟩ := ha.settle host hlive
  rw [hverdict] at hresult hcursor hmemory
  have hmask : Walk.mask handler a.key = Verdict.pass.actions := if_neg hne
  generalize hanswer : w.personality ⟨a.cursor, host⟩ a.info Verdict.pass.actions = answer at *
  obtain ⟨called, result, position⟩ := answer
  obtain ⟨cursor, host'⟩ := position
  dsimp only at hresult hcursor hmemory
  obtain rfl : cursor = a.cursor := hcursor
  refine ⟨.frame a.cursor a.info :: called, host', ?_, hmemory⟩
  rcases hresult with rfl | ⟨rfl, -⟩ <;>
    simp only [Walk.normalTurn, hinfo, hkey, hmask, hanswer, hne, decide_false, Verdict.settle,
      CleanupDecision.reason, Walk.advance, hadvance]

/-- A frame that cleans up or takes the exception ends phase two with its landing pad. -/
theorem normalTurn_lands {handler : Key} {pad : LandingPad} {selector : Selector}
    (hinfo : a.cursor.current w.unwinder = .ok (some a.info)) (hkey : a.cursor.key = .ok a.key)
    (ha : Obeys w a) (hlive : Live w host) (hmask : Walk.mask handler a.key = a.verdict.actions)
    (hsettle : a.verdict.settle w.exception = .install ⟨pad, w.exception, selector⟩)
    (as : List Activation) :
    ∃ log exit host', w.normalTurn handler ⟨a.cursor, host⟩ = .done log (exit, host') ∧
      host'.memory = host.memory ∧ Landing.Taken ⟨a, pad, selector, as⟩
        ⟨w.exception, host'.memory⟩ exit := by
  obtain ⟨hresult, hcursor, hmemory⟩ := ha.settle host hlive
  rw [hsettle] at hresult hcursor
  generalize hanswer : w.personality ⟨a.cursor, host⟩ a.info a.verdict.actions = answer at *
  obtain ⟨called, result, position⟩ := answer
  obtain ⟨cursor, host'⟩ := position
  dsimp only at hresult hcursor hmemory
  obtain rfl := hresult.resolve_right fun h => by
    rw [h.2] at hsettle
    cases hsettle
  refine ⟨.frame a.cursor a.info :: called, Walk.transfer cursor a.info, host', ?_, hmemory, ?_⟩
  · simp only [Walk.normalTurn, hinfo, hkey, hmask, hanswer]
    cases decide (a.key = handler) <;> rfl
  · subst hcursor
    exact taken_of_transfers ⟨a, pad, selector, as⟩ (transfer_prepared a.cursor (some a.info) a.info
      ⟨⟨a.cursor, some a.info⟩⟩ pad ⟨w.exception, host'.memory⟩ selector)

/-- Phase two on a stack goes to its first landing pad. -/
theorem normal_lands (hstacked : Stacked w.unwinder as c) (hobeys : ∀ a ∈ as, Obeys w a)
    (hnodup : (as.map Activation.key).Nodup) (hsought : sought as = .ok key) (hlive : Live w host)
    (hn : as.length ≤ n) :
    ∃ log exit host' landing rest,
      Loop.run (w.normalTurn key) n ⟨c, host⟩ = (log, some (exit, host')) ∧
      host'.memory = host.memory ∧ landings as = landing :: rest ∧
      landing.Taken ⟨w.exception, host'.memory⟩ exit := by
  induction hstacked generalizing host n with
  | bottom _ => cases hsought
  | @frame a as caller hinfo hkey hadvance _ ih =>
    obtain ⟨n, rfl⟩ := Nat.exists_eq_succ_of_ne_zero (Nat.ne_zero_of_lt hn)
    obtain ⟨ha, has⟩ := List.forall_mem_cons.1 hobeys
    rw [List.map_cons, List.nodup_cons] at hnodup
    -- the key of a frame in front of the handler is not the handler's
    have hne (hpasses : a.verdict.search = .continue_) : a.key ≠ key := by
      rw [sought_of_passes hpasses] at hsought
      exact fun h => hnodup.1 (h ▸ mem_of_sought hsought)
    cases hverdict : a.verdict with
    | pass =>
      have hpasses : a.verdict.search = .continue_ := by rw [hverdict]; rfl
      obtain ⟨log, host', hbody, hmemory⟩ :=
        normalTurn_passes hinfo hkey hadvance ha hlive hverdict (hne hpasses)
      rw [sought_of_passes hpasses] at hsought
      obtain ⟨rest, exit, last, landing, others, hrun, hlast, hlandings, htaken⟩ :=
        ih has hnodup.2 hsought (hlive.of_memory hmemory) (Nat.le_of_succ_le_succ hn)
      rw [Loop.run_succ_again hbody, hrun, landings_pass hverdict]
      exact ⟨_, exit, last, landing, others, rfl, hlast.trans hmemory, hlandings, htaken⟩
    | cleanup pad =>
      have hpasses : a.verdict.search = .continue_ := by rw [hverdict]; rfl
      have hmask : Walk.mask key a.key = a.verdict.actions := by
        rw [hverdict]
        exact if_neg (hne hpasses)
      obtain ⟨log, exit, host', hbody, hmemory, htaken⟩ :=
        normalTurn_lands hinfo hkey ha hlive hmask (by rw [hverdict]; rfl) as
      exact ⟨log, exit, host', _, _, Loop.run_succ_done hbody n, hmemory,
        landings_cleanup hverdict as, htaken⟩
    | handler pad selector =>
      have hmask : Walk.mask key a.key = a.verdict.actions := by
        rw [sought, hverdict] at hsought
        rw [hverdict]
        exact if_pos (Except.ok.inj hsought)
      obtain ⟨log, exit, host', hbody, hmemory, htaken⟩ :=
        normalTurn_lands hinfo hkey ha hlive hmask (by rw [hverdict]; rfl) as
      exact ⟨log, exit, host', _, _, Loop.run_succ_done hbody n, hmemory,
        landings_handler hverdict as, htaken⟩
    | terminate =>
      rw [sought, hverdict] at hsought
      cases hsought

end

end Desenredo.Personality
