import Desenredo.Personality.ProtocolTheorems
import Desenredo.Unwind.DeliveryTheorems

/-!
# Two phases

What a personality has to keep for the phases of a propagation to agree: on a frame it went on
from in the search it does not fail on cleanup, and where it found a handler it installs one. The
contract is stated over the typed protocol; phase two after a search is sound for any mix of
personalities that keep it.
-/

namespace Desenredo.Personality

open Unwind

section

variable [Gimli] {W : Type}

/-- The two-phase contract of a personality, for runtimes in a state `I` that every callback
keeps, an exception at `p` and memory that does not change at the addresses `R`. A selected frame
is left at one of its landing pads. -/
structure TwoPhase (P : Personality W) (I : W → Prop) (R : Set ℕ) (p : ℕ)
    (lands : Frame → ℕ → Prop) : Prop where
  search_keeps : ∀ call world, I world → I (P.search call world).2
  cleanup_keeps : ∀ call world, I world → I (P.cleanup call world).world
  cleanup_prepares : ∀ call world, (P.cleanup call world).dropped = none
  handler_prepares : ∀ call world, (P.handler call world).dropped = none
  cleanup_of_continue : ∀ context class_ m m' world world', R.EqOn m' m → I world → I world' →
    (P.search ⟨⟨context⟩, ⟨p, m⟩, class_⟩ world).1 = .continue_ →
      (P.cleanup ⟨⟨context⟩, ⟨p, m'⟩, class_, false⟩ world').decision ≠ .fatal
  handler_of_found : ∀ context class_ m m' world world', R.EqOn m' m → I world → I world' →
    (P.search ⟨⟨context⟩, ⟨p, m⟩, class_⟩ world).1 = .handlerFound →
      ∃ installed, (P.handler ⟨⟨context⟩, ⟨p, m'⟩, class_⟩ world').decision = .install installed ∧
        lands ⟨context⟩ installed.landingPad.address

/-- The contract holds for more landing pads too. -/
theorem TwoPhase.mono {P : Personality W} {I : W → Prop} {R : Set ℕ} {p : ℕ}
    {lands lands' : Frame → ℕ → Prop} (h : TwoPhase P I R p lands)
    (hlands : ∀ frame pad, lands frame pad → lands' frame pad) : TwoPhase P I R p lands' :=
  { h with
    handler_of_found := fun context class_ m m' world world' hm hI hI' hfound => by
      obtain ⟨installed, hdecision, hland⟩ :=
        h.handler_of_found context class_ m m' world world' hm hI hI' hfound
      exact ⟨installed, hdecision, hlands _ _ hland⟩ }

/-- Positions of the two phases on one frame: the same cursor, and hosts that differ in nothing
the contract depends on. -/
structure Twin (I : W → Prop) (R : Set ℕ) (s t : Position W) : Prop where
  cursor : t.cursor = s.cursor
  memory : R.EqOn t.host.memory s.host.memory
  world : I s.host.world
  world' : I t.host.world

variable {w : Walk W} {P : Personality W} {I : W → Prop} {R : Set ℕ} {lands : Frame → ℕ → Prop}
  {s t : Position W} {info : Info}

/-! ## Calls -/

/-- A search call that does not fail is one for a live exception. -/
theorem live_of_search
    (h : (w.call s (some info) .SEARCH (dispatch P)).reply.reason ≠ .FATAL1) :
    w.exception ≠ 0 ∧ Live w s.host := by
  have hmask : Actions.SEARCH.has .CLEANUP = false := by decide
  by_contra hdead
  refine h ?_
  have herror : ∃ error, decode (w.args s.cursor (some info) .SEARCH) s.host.memory =
      .error error := by
    by_cases hp : w.exception = 0
    · exact ⟨.nullException, by simp [decode, Walk.args, VERSION, hp]⟩
    · have hclass : (ExceptionRef.mk w.exception s.host.memory).class_ ≠ w.class_ :=
        fun hlive => hdead ⟨hp, hlive⟩
      exact ⟨.classMismatch, by simp [decode, Walk.args, VERSION, hp, hclass]⟩
  obtain ⟨error, herror⟩ := herror
  simp only [Walk.call, dispatch, herror]
  simp [Walk.args, hmask]

theorem Twin.live (htwin : Twin I R s t) (hp : w.exception ∈ R) (h : Live w s.host) :
    Live w t.host := by
  have hclass : t.host.memory w.exception = s.host.memory w.exception := htwin.memory hp
  simpa only [Live, Exception.load, hclass] using h

omit [Gimli] in
theorem SearchDecision.reason_eq_continue {decision : SearchDecision}
    (h : decision.reason = .CONTINUE) : decision = .continue_ := by
  cases decision <;> first | rfl | simp [SearchDecision.reason] at h

omit [Gimli] in
theorem SearchDecision.reason_eq_handler {decision : SearchDecision}
    (h : decision.reason = .HANDLER) : decision = .handlerFound := by
  cases decision <;> first | rfl | simp [SearchDecision.reason] at h

/-- A search call writes no register and keeps what phase two depends on. -/
theorem search_call (hP : TwoPhase P I R w.exception lands) (hI : I s.host.world)
    (h : (w.call s (some info) .SEARCH (dispatch P)).reply.reason ≠ .FATAL1) :
    let reply := (w.call s (some info) .SEARCH (dispatch P)).reply
    reply.writes = [] ∧ reply.host.memory = s.host.memory ∧ I reply.host.world := by
  obtain ⟨hnull, hlive⟩ := live_of_search h
  rw [call_search hnull hlive]
  exact ⟨rfl, rfl, hP.search_keeps _ _ hI⟩

/-- On a frame that let the search go on the personality lets phase two go on, writing no
register, or installs. -/
theorem cleanup_call (hP : TwoPhase P I R w.exception lands) (hp : w.exception ∈ R)
    (htwin : Twin I R s t)
    (hsearch : (w.call s (some info) .SEARCH (dispatch P)).reply.reason = .CONTINUE) :
    let reply := (w.call t (some info) .CLEANUP (dispatch P)).reply
    (reply.reason = .CONTINUE ∧ reply.writes = [] ∨ reply.reason = .INSTALL) ∧
      reply.host.memory = t.host.memory ∧ I reply.host.world := by
  obtain ⟨hnull, hlive⟩ := live_of_search (hsearch.trans_ne (by decide))
  rw [call_search hnull hlive] at hsearch
  rw [call_cleanup hnull (htwin.live hp hlive)]
  refine ⟨?_, rfl, hP.cleanup_keeps _ _ htwin.world'⟩
  have hdecision := hP.cleanup_of_continue ⟨s.cursor, some info⟩ w.class_ _ _ _ _ htwin.memory
    htwin.world htwin.world' (SearchDecision.reason_eq_continue hsearch)
  have hdropped := hP.cleanup_prepares (cleanupCall w t info false) t.host.world
  have hcall : cleanupCall w t info false =
      ⟨⟨⟨s.cursor, some info⟩⟩, ⟨w.exception, t.host.memory⟩, w.class_, false⟩ := by
    rw [cleanupCall, htwin.cursor]
  rw [hcall] at hdropped ⊢
  simp only [Outcome.reply, hdropped]
  cases hcase : (P.cleanup _ t.host.world).decision with
  | continue_ => exact .inl ⟨rfl, rfl⟩
  | install context => exact .inr rfl
  | fatal => exact absurd hcase hdecision

/-- On the frame that found a handler the personality installs one of its landing pads. -/
theorem handler_call (hP : TwoPhase P I R w.exception lands) (hp : w.exception ∈ R)
    (htwin : Twin I R s t)
    (hsearch : (w.call s (some info) .SEARCH (dispatch P)).reply.reason = .HANDLER) :
    let reply := (w.call t (some info) (.CLEANUP ||| .HANDLER) (dispatch P)).reply
    reply.reason = .INSTALL ∧ ∃ installed : InstalledContext,
      reply.writes = installed.writes ∧
        lands ⟨⟨s.cursor, some info⟩⟩ installed.landingPad.address := by
  obtain ⟨hnull, hlive⟩ := live_of_search (hsearch.trans_ne (by decide))
  rw [call_search hnull hlive] at hsearch
  rw [call_handler hnull (htwin.live hp hlive)]
  obtain ⟨installed, hdecision, hlands⟩ := hP.handler_of_found ⟨s.cursor, some info⟩ w.class_ _ _
    _ _ htwin.memory htwin.world htwin.world' (SearchDecision.reason_eq_handler hsearch)
  have hdropped := hP.handler_prepares (handlerCall w t info) t.host.world
  have hcall : handlerCall w t info =
      ⟨⟨⟨s.cursor, some info⟩⟩, ⟨w.exception, t.host.memory⟩, w.class_⟩ := by
    rw [handlerCall, htwin.cursor]
  rw [hcall] at hdropped ⊢
  simp only [Outcome.reply, hdropped, hdecision]
  exact ⟨rfl, installed, rfl, hlands⟩

/-! ## Turns -/

section

variable {lands : ℕ → Frame → ℕ → Prop} {answer answer' : Answer W} {key : Key}

/-- The routine of a frame, if it has one, dispatches to a personality that keeps the two-phase
contract. -/
def Kept (w : Walk W) (I : W → Prop) (R : Set ℕ) (lands : ℕ → Frame → ℕ → Prop)
    (info : Info) : Prop :=
  ∀ address, w.routine info = .ok (some address) →
    ∃ P, w.code.personality address = dispatch P ∧ TwoPhase P I R w.exception (lands address)

/-- The frames a pass resolved have such routines. -/
def Keeps (w : Walk W) (I : W → Prop) (R : Set ℕ) (lands : ℕ → Frame → ℕ → Prop)
    (found : List (Event W)) : Prop :=
  ∀ c info, .frame c info ∈ found → Kept w I R lands info

theorem Keeps.append {found rest : List (Event W)} (h : Keeps w I R lands (found ++ rest)) :
    Keeps w I R lands found ∧ Keeps w I R lands rest :=
  ⟨fun c info hmem => h c info (List.mem_append_left _ hmem),
    fun c info hmem => h c info (List.mem_append_right _ hmem)⟩

/-- A call of phase two on a frame, with what it may answer. -/
def Asks (callback : Callback) (answers : Call W → Prop) (log : List (Event W)) : Prop :=
  ∀ call, .personality call ∈ log → call.args.context = some callback ∧ answers call

/-- A call installs a landing pad of the frame a search found a handler on. -/
def Honoured (w : Walk W) (lands : ℕ → Frame → ℕ → Prop) (found : List (Event W))
    (callback : Callback) (call : Call W) : Prop :=
  call.reply.reason = .INSTALL ∧
    ∃ (earlier : Call W) (info : Info) (address : ℕ) (installed : InstalledContext),
      .personality earlier ∈ found ∧ earlier.args.context = some callback ∧
      earlier.reply.reason = .HANDLER ∧ callback.frame = some info ∧
      w.routine info = .ok (some address) ∧ call.reply.writes = installed.writes ∧
      lands address ⟨callback⟩ installed.landingPad.address

theorem Honoured.mono {found found' : List (Event W)} {callback : Callback} {call : Call W}
    (h : Honoured w lands found callback call) (hfound : found ⊆ found') :
    Honoured w lands found' callback call := by
  obtain ⟨hinstall, earlier, info, address, installed, hmem, h⟩ := h
  exact ⟨hinstall, earlier, info, address, installed, hfound hmem, h⟩

/-- Where the search went on, phase two goes on in step or installs. -/
theorem answered_continue (hkept : Kept w I R lands info) (hp : w.exception ∈ R)
    (htwin : Twin I R s t)
    (h : w.Answered s info .SEARCH answer) (hcontinues : answer.Continues)
    (h' : w.Answered t info .CLEANUP answer') :
    (answer'.Continues ∧ Twin I R answer.position answer'.position ∨
        answer'.result = .ok (some .INSTALL)) ∧
      Asks ⟨s.cursor, some info⟩
        (fun call => call.reply.reason = .CONTINUE ∨ call.reply.reason = .INSTALL)
        answer'.log := by
  cases h with
  | failed h => simp [Answer.Continues] at hcontinues
  | absent h =>
    cases h' with
    | failed h' => simp [h] at h'
    | called h' => simp [h] at h'
    | absent => exact ⟨.inl ⟨.inl rfl, htwin⟩, by simp [Asks]⟩
  | @called address call h hcall =>
    obtain ⟨P, hcode, hP⟩ := hkept address h
    have hreason : call.reply.reason = .CONTINUE := by
      simpa [Answer.Continues] using hcontinues
    rw [hcode] at hcall
    subst hcall
    cases h' with
    | failed h' => simp [h] at h'
    | absent h' => simp [h] at h'
    | @called address' call' h' hcall' =>
      obtain rfl : address' = address :=
        Option.some.inj (Except.ok.inj (h'.symm.trans h))
      rw [hcode] at hcall'
      subst hcall'
      obtain ⟨hwrites, hmemory, hI⟩ := search_call hP htwin.world
        (hreason.trans_ne (by decide))
      obtain ⟨hanswer, hmemory', hI'⟩ := cleanup_call hP hp htwin hreason
      constructor
      -- neither call wrote to the context when phase two goes on, so the cursors still agree
      · rcases hanswer with ⟨hgo, hnone⟩ | hinstall
        · refine .inl ⟨.inr (by rw [hgo]), ?_, ?_, hI, hI'⟩
          · simp only [Walk.after, hwrites, hnone, Callback.replay_nil, htwin.cursor]
          · simp only [Walk.after, hmemory, hmemory', htwin.memory]
        · exact .inr (by rw [hinstall])
      · intro call hcall
        obtain rfl := Event.personality.inj (List.mem_singleton.1 hcall)
        refine ⟨by simp only [Walk.call, Walk.args, htwin.cursor], ?_⟩
        exact hanswer.imp And.left id

/-- A personality that finds a handler leaves the cursor as it was. -/
theorem answered_cursor (hkept : Kept w I R lands info) (hI : I s.host.world)
    (h : w.Answered s info .SEARCH answer) (hfound : answer.result = .ok (some .HANDLER)) :
    answer.position.cursor = s.cursor := by
  cases h with
  | failed h => cases hfound
  | absent h => cases hfound
  | @called address call h hcall =>
    obtain ⟨P, hcode, hP⟩ := hkept address h
    have hreason : call.reply.reason = .HANDLER := Option.some.inj (Except.ok.inj hfound)
    rw [hcode] at hcall
    subst hcall
    obtain ⟨hwrites, -, -⟩ := search_call hP hI (hreason.trans_ne (by decide))
    simp only [Walk.after, hwrites, Callback.replay_nil]

/-- A personality that lets the search go on keeps the runtime in its state. -/
theorem answered_keeps (hkept : Kept w I R lands info) (hI : I s.host.world)
    (h : w.Answered s info .SEARCH answer) (hcontinues : answer.Continues) :
    I answer.position.host.world := by
  cases h with
  | failed h => simp [Answer.Continues] at hcontinues
  | absent h => exact hI
  | @called address call h hcall =>
    obtain ⟨P, hcode, hP⟩ := hkept address h
    have hreason : call.reply.reason = .CONTINUE := by
      simpa [Answer.Continues] using hcontinues
    rw [hcode] at hcall
    subst hcall
    exact (search_call hP hI (hreason.trans_ne (by decide))).2.2

/-- Where the search found a handler, phase two installs one of its landing pads. -/
theorem answered_handler (hkept : Kept w I R lands info) (hp : w.exception ∈ R)
    (htwin : Twin I R s t)
    (h : w.Answered s info .SEARCH answer) (hfound : answer.result = .ok (some .HANDLER))
    (h' : w.Answered t info (.CLEANUP ||| .HANDLER) answer') :
    answer'.result = .ok (some .INSTALL) ∧
      Asks ⟨s.cursor, some info⟩
        (Honoured w lands answer.log ⟨s.cursor, some info⟩) answer'.log := by
  cases h with
  | failed h => cases hfound
  | absent h => cases hfound
  | @called address call h hcall =>
    obtain ⟨P, hcode, hP⟩ := hkept address h
    have hreason : call.reply.reason = .HANDLER := Option.some.inj (Except.ok.inj hfound)
    rw [hcode] at hcall
    subst hcall
    cases h' with
    | failed h' => simp [h] at h'
    | absent h' => simp [h] at h'
    | @called address' call' h' hcall' =>
      obtain rfl : address' = address :=
        Option.some.inj (Except.ok.inj (h'.symm.trans h))
      rw [hcode] at hcall'
      subst hcall'
      obtain ⟨hinstall, installed, hinstalled, hlands⟩ := handler_call hP hp htwin hreason
      refine ⟨by rw [hinstall], ?_⟩
      intro call hcall
      obtain rfl := Event.personality.inj (List.mem_singleton.1 hcall)
      refine ⟨by simp only [Walk.call, Walk.args, htwin.cursor], hinstall, ?_⟩
      exact ⟨_, info, address', installed, List.mem_singleton_self _, rfl, hreason, rfl, h',
        hinstalled, hlands⟩

theorem ne_install_of_continues (h : answer.Continues) :
    answer.result ≠ .ok (some .INSTALL) := by
  rcases h with h | h <;> simp [h]

/-- Calls of phase two on frames younger than the handler, which let it go on or install. -/
def Passing (key : Key) (log : List (Event W)) : Prop :=
  ∀ call, .personality call ∈ log → ∃ callback k, call.args.context = some callback ∧
    callback.cursor.key = .ok k ∧ k ≠ key ∧
      (call.reply.reason = .CONTINUE ∨ call.reply.reason = .INSTALL)

/-- How phase two may end after a search: with what a personality asked to install, or at a frame
whose key cannot be read. -/
def Ended (log : List (Event W)) (exit : Exit) : Prop :=
  (∃ before c info call, log = before ++ [.frame c info, .personality call] ∧
    call.reply.reason = .INSTALL ∧
    exit = Walk.transfer (Walk.after ⟨c, call.host⟩ (some info) call.reply).cursor info) ∨
  ∃ before c info error, log = before ++ [.frame c info] ∧ c.key = .error error ∧
    exit = .returned .FATAL2

theorem Ended.append {log : List (Event W)} {exit : Exit} (h : Ended log exit)
    (before : List (Event W)) : Ended (before ++ log) exit := by
  rcases h with ⟨before', c, info, call, rfl, h⟩ | ⟨before', c, info, error, rfl, h⟩
  · exact .inl ⟨before ++ before', c, info, call, (List.append_assoc ..).symm, h⟩
  · exact .inr ⟨before ++ before', c, info, error, (List.append_assoc ..).symm, h⟩

/-- An answer that asks to install ends phase two. -/
theorem ended_install {actions : Actions} (h : w.Answered t info actions answer)
    (hinstall : answer.result = .ok (some .INSTALL)) :
    Ended (.frame t.cursor info :: answer.log) (Walk.transfer answer.position.cursor info) := by
  cases h with
  | failed h => cases hinstall
  | absent h => cases hinstall
  | @called address call h hcall =>
    have hhost : call.host = t.host := by rw [hcall]; rfl
    refine .inl ⟨[], t.cursor, info, call, rfl, Option.some.inj (Except.ok.inj hinstall), ?_⟩
    rw [hhost]

/-- On a frame the search passed, phase two keeps step with it or ends soundly. -/
theorem normalTurn_of_again {found : List (Event W)} {s' : Position W}
    (hkeeps : Keeps w I R lands found) (hp : w.exception ∈ R) (htwin : Twin I R s t)
    (hturn : w.searchTurn s = .again found s') (hne : ∀ k, s.cursor.key = .ok k → k ≠ key) :
    (∃ log t', w.normalTurn key t = .again log t' ∧ Twin I R s' t' ∧ Passing key log) ∨
      ∃ log exit host, w.normalTurn key t = .done log (exit, host) ∧ Ended log exit ∧
        Passing key log := by
  have hsearch := w.searchTurn_cases (s := s)
  rw [hturn] at hsearch
  cases hsearch with
  | @continues info answer next hinfo hanswer hcontinues hnext =>
    have hcursor := htwin.cursor
    have hkept := hkeeps s.cursor info List.mem_cons_self
    -- phase two calls the personality of the same frame, without `HANDLER`
    have hpair {info' : Info} {k : Key} {answer' : Answer W}
        (hinfo' : t.cursor.current w.unwinder = .ok (some info')) (hkey : t.cursor.key = .ok k)
        (hanswer' : w.Answered t info' (Walk.mask key k) answer') :
        info' = info ∧ k ≠ key ∧ (answer'.Continues ∧ Twin I R answer.position answer'.position ∨
          answer'.result = .ok (some .INSTALL)) ∧
          Passing key (.frame t.cursor info' :: answer'.log) := by
      rw [hcursor, hinfo] at hinfo'
      obtain rfl := Option.some.inj (Except.ok.inj hinfo')
      have hk : k ≠ key := hne k (by rw [← hcursor, hkey])
      rw [Walk.mask, if_neg hk] at hanswer'
      obtain ⟨hanswers, hasks⟩ := answered_continue hkept hp htwin hanswer hcontinues hanswer'
      refine ⟨rfl, hk, hanswers, fun call hcall => ?_⟩
      obtain ⟨hcontext, hreason⟩ := hasks call (by simpa using hcall)
      exact ⟨_, k, hcontext, by rw [← hcursor, hkey], hk, hreason⟩
    have hnormal := w.normalTurn_cases (s := t) key
    generalize w.normalTurn key t = turn at hnormal ⊢
    cases hnormal with
    | lost hlost => exact absurd (by rw [hcursor, hinfo]) (hlost info)
    | keyless hinfo' hkey =>
      exact .inr ⟨_, _, _, rfl, .inr ⟨[], _, _, _, rfl, hkey, rfl⟩, by simp [Passing]⟩
    | installs hinfo' hkey hanswer' hinstall =>
      obtain ⟨-, -, -, hpassing⟩ := hpair hinfo' hkey hanswer'
      exact .inr ⟨_, _, _, rfl, ended_install hanswer' hinstall, hpassing⟩
    | continues hinfo' hkey hanswer' _ hcontinues' hnext' =>
      obtain ⟨rfl, -, ⟨-, htwin'⟩ | hinstall, hpassing⟩ := hpair hinfo' hkey hanswer'
      · rw [htwin'.cursor, hnext] at hnext'
        refine .inl ⟨_, _, rfl, ?_, hpassing⟩
        exact ⟨(Prod.mk.inj hnext').2.symm, htwin'.memory, htwin'.world, htwin'.world'⟩
      · exact absurd hinstall (ne_install_of_continues hcontinues')
    | stuck hinfo' hkey hanswer' _ hcontinues' hcaller =>
      obtain ⟨rfl, -, ⟨-, htwin'⟩ | hinstall, -⟩ := hpair hinfo' hkey hanswer'
      -- the search has reconstructed the caller that is said to be lost
      · obtain ⟨caller, hok, -⟩ := Cursor.advance_eq_ok.1 hnext
        rw [htwin'.cursor, hok] at hcaller
        cases hcaller
      · exact absurd hinstall (ne_install_of_continues hcontinues')
    | refused hinfo' hkey hanswer' hinstall hrefused =>
      obtain ⟨-, hk, ⟨hcontinues', -⟩ | hinstall', -⟩ := hpair hinfo' hkey hanswer'
      · exact absurd hcontinues' (hrefused.resolve_left hk)
      · exact absurd hinstall' hinstall

/-- On the frame the search found a handler on, phase two ends with its installation. -/
theorem normalTurn_of_found {found : List (Event W)} {host : Host W}
    (hkeeps : Keeps w I R lands found) (hp : w.exception ∈ R) (htwin : Twin I R s t)
    (hturn : w.searchTurn s = .done found (.ok key, host)) :
    s.cursor.key = .ok key ∧ (∃ info, .frame s.cursor info ∈ found) ∧
      ∃ log exit host, w.normalTurn key t = .done log (exit, host) ∧ Ended log exit ∧
        ∀ call, .personality call ∈ log → ∃ callback, call.args.context = some callback ∧
          callback.cursor.key = .ok key ∧ Honoured w lands found callback call := by
  have hsearch := w.searchTurn_cases (s := s)
  rw [hturn] at hsearch
  generalize hresult : (Except.ok key : Except ReasonCode Key) = result at hsearch
  cases hsearch with
  | lost _ => cases hresult
  | fin _ => cases hresult
  | stuck _ _ _ _ => cases hresult
  | refused _ _ _ _ => cases hresult
  | @found info answer hinfo hanswer hfound =>
    have hcursor := htwin.cursor
    have hkept := hkeeps s.cursor info List.mem_cons_self
    rw [answered_cursor hkept htwin.world hanswer hfound] at hresult
    have hkey : s.cursor.key = .ok key := Except.mapError_eq_ok.1 hresult.symm
    refine ⟨hkey, ⟨info, List.mem_cons_self⟩, ?_⟩
    have hsame {info' : Info} (hinfo' : t.cursor.current w.unwinder = .ok (some info')) :
        info' = info := by
      rw [hcursor, hinfo] at hinfo'
      exact (Option.some.inj (Except.ok.inj hinfo')).symm
    -- both phases stand on the frame of the handler, so its personality is called with `HANDLER`
    have hmask {k : Key} (hk : t.cursor.key = .ok k) :
        k = key ∧ Walk.mask key k = .CLEANUP ||| .HANDLER := by
      rw [hcursor, hkey] at hk
      obtain rfl := Except.ok.inj hk
      exact ⟨rfl, if_pos rfl⟩
    have hnormal := w.normalTurn_cases (s := t) key
    generalize w.normalTurn key t = turn at hnormal ⊢
    cases hnormal with
    | lost hlost => exact absurd (by rw [hcursor, hinfo]) (hlost info)
    | keyless _ hkeyless => simp [hcursor, hkey] at hkeyless
    | continues _ hk _ hne _ _ => exact absurd (hmask hk).1 hne
    | stuck _ hk _ hne _ _ => exact absurd (hmask hk).1 hne
    | installs hinfo' hk hanswer' hinstall =>
      obtain rfl := hsame hinfo'
      rw [(hmask hk).2] at hanswer'
      obtain ⟨-, hasks⟩ := answered_handler hkept hp htwin hanswer hfound hanswer'
      refine ⟨_, _, _, rfl, ended_install hanswer' hinstall, fun call hcall => ?_⟩
      obtain ⟨hcontext, hhonoured⟩ := hasks call (by simpa using hcall)
      exact ⟨_, hcontext, hkey, hhonoured.mono (List.subset_cons_self _ _)⟩
    | refused hinfo' hk hanswer' hinstall _ =>
      obtain rfl := hsame hinfo'
      rw [(hmask hk).2] at hanswer'
      exact absurd (answered_handler hkept hp htwin hanswer hfound hanswer').1 hinstall

/-! ## Passes -/

/-- What phase two does after a search: on frames younger than the handler it goes on or
installs, on the handler's frame it installs what the search found, and it ends with nothing
else. -/
structure Sound (w : Walk W) (lands : ℕ → Frame → ℕ → Prop) (key : Key)
    (found log : List (Event W)) (exit : Option (Exit × Host W)) : Prop where
  calls : ∀ call, .personality call ∈ log → ∃ callback k, call.args.context = some callback ∧
    callback.cursor.key = .ok k ∧
    (k ≠ key → call.reply.reason = .CONTINUE ∨ call.reply.reason = .INSTALL) ∧
    (k = key → Honoured w lands found callback call)
  ends : ∀ result ∈ exit, Ended log result.1

theorem Sound.nil {found : List (Event W)} : Sound w lands key found [] none :=
  ⟨by simp, by simp⟩

/-- A turn on a frame younger than the handler keeps a pass sound. -/
theorem Sound.of_passing {found found' log rest : List (Event W)}
    {exit : Option (Exit × Host W)} (hpassing : Passing key log)
    (h : Sound w lands key found rest exit) (hfound : found ⊆ found') :
    Sound w lands key found' (log ++ rest) exit := by
  constructor
  · intro call hcall
    rcases List.mem_append.1 hcall with hcall | hcall
    · obtain ⟨callback, k, hcontext, hkey, hne, hreason⟩ := hpassing call hcall
      exact ⟨callback, k, hcontext, hkey, fun _ => hreason, fun heq => absurd heq hne⟩
    · obtain ⟨callback, k, hcontext, hkey, hyounger, hhandler⟩ := h.calls call hcall
      exact ⟨callback, k, hcontext, hkey, hyounger, fun heq => (hhandler heq).mono hfound⟩
  · intro result hresult
    exact (h.ends result hresult).append log

/-- A turn that ends on a frame younger than the handler is sound. -/
theorem Sound.of_ended {found log : List (Event W)} {exit : Exit} {host : Host W}
    (hpassing : Passing key log) (hended : Ended log exit) :
    Sound w lands key found log (some (exit, host)) := by
  constructor
  · intro call hcall
    obtain ⟨callback, k, hcontext, hkey, hk, hreason⟩ := hpassing call hcall
    exact ⟨callback, k, hcontext, hkey, fun _ => hreason, fun heq => absurd heq hk⟩
  · intro result hresult
    rw [← Option.mem_some.1 hresult]
    exact hended

/-- A search that goes on keeps the runtime in its state. -/
theorem searchTurn_keeps {found : List (Event W)} {s' : Position W}
    (hkeeps : Keeps w I R lands found)
    (hturn : w.searchTurn s = .again found s') (hI : I s.host.world) : I s'.host.world := by
  have hsearch := w.searchTurn_cases (s := s)
  rw [hturn] at hsearch
  cases hsearch with
  | continues hinfo hanswer hcontinues _ =>
    exact answered_keeps (hkeeps _ _ List.mem_cons_self) hI hanswer hcontinues

/-- The handler of a search that succeeds is a frame it visited. -/
theorem search_visits {found : List (Event W)} {result : Except ReasonCode Key × Host W}
    (hkeeps : Keeps w I R lands found) (hp : w.exception ∈ R)
    (h : Loop.Leaves w.searchTurn s found result) (hI : I s.host.world)
    (hresult : result.1 = .ok key) : key ∈ visited found := by
  refine Loop.Leaves.induction (motive := fun s found result => result.1 = .ok key →
    Keeps w I R lands found → I s.host.world → key ∈ visited found) ?_ ?_ h hresult hkeeps hI
  · rintro s found ⟨_, host⟩ hturn rfl hkeeps hI
    obtain ⟨hkey, ⟨info, hframe⟩, -⟩ :=
      normalTurn_of_found hkeeps hp ⟨rfl, Set.eqOn_refl _ R, hI, hI⟩ hturn
    exact List.mem_filterMap.2 ⟨_, hframe, by simp [Event.visited, hkey, Except.toOption]⟩
  · intro s found s' rest result hturn _ ih hresult hkeeps hI
    rw [visited, List.filterMap_append]
    obtain ⟨hkept, hkeeps⟩ := hkeeps.append
    exact List.mem_append_right _ (ih hresult hkeeps (searchTurn_keeps hkept hturn hI))

/-- A search that goes on has visited the frame it stood on. -/
theorem searchTurn_visited {found : List (Event W)} {s' : Position W}
    (hturn : w.searchTurn s = .again found s') {k : Key} (hkey : s.cursor.key = .ok k) :
    visited found = [k] := by
  have hsearch := w.searchTurn_cases (s := s)
  rw [hturn] at hsearch
  cases hsearch with
  | continues hinfo hanswer _ _ =>
    have hlog := hanswer.visited
    simp only [visited] at hlog ⊢
    simp only [List.filterMap_cons, Event.visited, hkey, Except.toOption, hlog]

/-- **Two phases.** After a search over frames with different keys phase two is sound. -/
theorem sound_of_search {found : List (Event W)} {result : Except ReasonCode Key × Host W}
    (hkeeps : Keeps w I R lands found) (hp : w.exception ∈ R)
    (h : Loop.Leaves w.searchTurn s found result) (hresult : result.1 = .ok key)
    (hnodup : (visited found).Nodup) (htwin : Twin I R s t) (n : ℕ) :
    Sound w lands key found (Loop.run (w.normalTurn key) n t).1
      (Loop.run (w.normalTurn key) n t).2 := by
  -- on the turns of the search, with phase two in step as its twin
  refine Loop.Leaves.induction (motive := fun s found result => result.1 = .ok key →
    (visited found).Nodup → Keeps w I R lands found → ∀ {t : Position W}, Twin I R s t → ∀ n,
      Sound w lands key found (Loop.run (w.normalTurn key) n t).1
        (Loop.run (w.normalTurn key) n t).2) ?_ ?_ h hresult hnodup
    hkeeps htwin n
  · rintro s found ⟨_, host⟩ hturn rfl - hkeeps t htwin n
    obtain ⟨-, -, log, exit, host', hnormal, hended, hcalls⟩ :=
      normalTurn_of_found hkeeps hp htwin hturn
    cases n with
    | zero => exact .nil
    | succ n =>
      rw [Loop.run_succ_done hnormal]
      constructor
      · intro call hcall
        obtain ⟨callback, hcontext, hkey, hhonoured⟩ := hcalls call hcall
        exact ⟨callback, key, hcontext, hkey, fun hne => absurd rfl hne, fun _ => hhonoured⟩
      · intro result hresult
        rw [← Option.mem_some.1 hresult]
        exact hended
  · intro s found s' rest result hturn hleaves ih hresult hnodup hkeeps t htwin n
    obtain ⟨hkept, hkeeps⟩ := hkeeps.append
    have hvisited : visited (found ++ rest) = visited found ++ visited rest := by
      rw [visited, List.filterMap_append]
      rfl
    rw [hvisited] at hnodup
    -- the key of the handler is visited later on, and no key twice
    have hne (k : Key) (hkey : s.cursor.key = .ok k) : k ≠ key := by
      rintro rfl
      have hrest := search_visits hkeeps hp hleaves
        (searchTurn_keeps hkept hturn htwin.world) hresult
      rw [searchTurn_visited hturn hkey] at hnodup
      exact List.disjoint_of_nodup_append hnodup (List.mem_singleton_self k) hrest
    cases n with
    | zero => exact .nil
    | succ n =>
      obtain ⟨log, t', hnormal, htwin', hpassing⟩ | ⟨log, exit, host, hnormal, hended, hpassing⟩ :=
        normalTurn_of_again hkept hp htwin hturn hne
      · rw [Loop.run_succ_again hnormal]
        exact (ih hresult hnodup.of_append_right hkeeps htwin' n).of_passing hpassing
          (List.subset_append_right _ _)
      · rw [Loop.run_succ_done hnormal]
        exact .of_ended hpassing hended

end

end

end Desenredo.Personality
