import Desenredo.Cxx.ScanTheorems
import Desenredo.Library.Consult
import Desenredo.Lsda.LookupTheorems
import Desenredo.Lsda.StoredTheorems

/-!
# Handler selection

What a scan asks the matcher and what it makes of the answers. A chain poses one question for
each catch and filter record up to the first malformed one; a scan consults the matcher about
them in order and returns what the consultation says. It does so of the records that are stored
unless it comes to one that is misread.
-/

namespace Desenredo.Cxx

open Consult (consult)

/-- One test the matcher is asked for. -/
structure Question where
  stage : Stage
  exception : ExceptionRef
  class_ : ExceptionClass
  lsda : Lsda
  clause : Clause
  selector : Selector

/-- What a matcher was asked and what it answered. -/
abbrev Transcript (E : Type) := List (Question × Except E Bool)

section

variable {W E : Type}

/-- What a matcher answers one question. -/
def Matcher.ask (M : Matcher W E) (q : Question) (w : W) : Except E Bool × W :=
  M.test q.stage q.exception q.class_ q.lsda q.clause q.selector w

/-- A matcher that keeps a transcript. -/
def Matcher.recorded (M : Matcher W E) : Matcher (W × Transcript E) E where
  test stage exception class_ lsda clause selector :=
    Consult.recorded M.ask ⟨stage, exception, class_, lsda, clause, selector⟩

/-- The answer that lets a scan go on. -/
def refuses : Except E Bool → Bool
  | .ok false => true
  | _ => false

theorem refuses_eq_true {answer : Except E Bool} : refuses answer = true ↔ answer = .ok false := by
  unfold refuses
  split <;> simp_all

end

/-! ## Questions -/

section

variable [PointerEncoding]

section

variable (stage : Stage) (exception : ExceptionRef) (class_ : ExceptionClass) (lsda : Lsda)

/-- The question of one clause, whose selector may not fit. -/
def Clause.pose (clause : Clause) : Except CxxError (Option Question) := do
  let selector ← clause.selector
  .ok (some ⟨stage, exception, class_, lsda, clause, selector⟩)

/-- The question of one record. -/
def pose : Kind → Except CxxError (Option Question)
  | .cleanup => .ok none
  | .catch index => do
    let clause ← Clause.ofCatch lsda index
    clause.pose stage exception class_ lsda
  | .filter index => (Clause.filter index).pose stage exception class_ lsda

/-- The questions of a chain up to its first malformed record, and why that one is malformed. -/
def posed : List (Except LsdaError Kind) → List Question × Option CxxError
  | [] => ([], none)
  | .error error :: _ => ([], some (.parse error))
  | .ok kind :: rest =>
    match pose stage exception class_ lsda kind with
    | .error error => ([], some error)
    | .ok q => (q.toList ++ (posed rest).1, (posed rest).2)

end

/-! ## Answers -/

section

variable {W E : Type}

/-- What a transcript comes to when the chain has no more questions for a reason. -/
def conclude (ended : Option CxxError) (log : Transcript E) :
    Except (Failure E) (Option Selector) :=
  match log.getLast? with
  | some (q, .ok true) => .ok (some q.selector)
  | some (_, .error error) => .error (.match_ error)
  | some (_, .ok false) | none =>
    match ended with
    | some error => .error (.metadata error)
    | none => .ok none

omit [PointerEncoding] in
theorem conclude_refused (ended : Option CxxError) (q : Question) (log : Transcript E) :
    conclude ended ((q, .ok false) :: log) = conclude ended log := by
  cases log with
  | nil => rfl
  | cons entry log =>
    unfold conclude
    rw [List.getLast?_cons_cons]

variable {M : Matcher W E} {stage : Stage} {exception : ExceptionRef} {class_ : ExceptionClass}
  {lsda : Lsda}

/-- What a record contributes to a scan is the answer to its question. -/
theorem outcome_eq (kind : Kind) (w : W) :
    outcome M stage exception class_ lsda (.ok kind) w =
      match pose stage exception class_ lsda kind with
      | .error error => (.error (.metadata error), w)
      | .ok none => (.ok none, w)
      | .ok (some q) =>
        match M.ask q w with
        | (.error error, w) => (.error (.match_ error), w)
        | (.ok matched, w) => (.ok (if matched then some q.selector else none), w) := by
  have htest (clause : Clause) : clause.test M stage exception class_ lsda w =
      match clause.pose stage exception class_ lsda with
      | .error error => (.error (.metadata error), w)
      | .ok none => (.ok none, w)
      | .ok (some q) =>
        match M.ask q w with
        | (.error error, w) => (.error (.match_ error), w)
        | (.ok matched, w) => (.ok (if matched then some q.selector else none), w) := by
    unfold Clause.test Clause.pose
    cases clause.selector <;> rfl
  cases kind with
  | cleanup => rfl
  | filter index => exact htest _
  | «catch» index =>
    simp only [outcome, pose]
    cases Clause.ofCatch lsda index with
    | error error => rfl
    | ok clause => exact htest clause

/-- The loop of a scan consults the matcher about the questions of its records. -/
theorem scanLoop_consults (items : List (Except LsdaError Kind)) (cleanup : Bool) (w : W) :
    let questions := posed stage exception class_ lsda items
    let asked := consult M.ask refuses questions.1 w
    let result := scanLoop M stage exception class_ lsda items cleanup w
    result.1.map Prod.fst = conclude questions.2 asked.1 ∧ result.2 = asked.2 := by
  -- record by record: only a refused question, or none at all, lets the loop go on
  induction items generalizing cleanup w with
  | nil => exact ⟨rfl, rfl⟩
  | cons kind items ih =>
    cases kind with
    | error error => exact ⟨rfl, rfl⟩
    | ok kind =>
      rw [scanLoop_cons, outcome_eq]
      simp only [posed]
      cases hpose : pose stage exception class_ lsda kind with
      | error error => exact ⟨rfl, rfl⟩
      | ok question =>
        cases question with
        | none => exact ih _ w
        | some q =>
          dsimp only [Option.toList_some, List.singleton_append]
          cases hask : M.ask q w with
          | mk answer w' =>
            cases answer with
            | error error =>
              rw [Consult.consult_answered hask rfl]
              exact ⟨rfl, rfl⟩
            | ok matched =>
              cases matched with
              | true =>
                rw [Consult.consult_answered hask rfl]
                exact ⟨rfl, rfl⟩
              | false =>
                rw [Consult.consult_refused hask rfl]
                simp only [Bool.false_eq_true, if_false, conclude_refused]
                exact ih _ w'

omit [PointerEncoding] in
theorem cleanLoop_eq_any {items : List (Except LsdaError Kind)} {cleanup found : Bool}
    (h : cleanLoop items cleanup = .ok found) : found = (cleanup || items.any isCleanup) := by
  obtain ⟨kinds, rfl | ⟨error, rest, rfl⟩⟩ := items_cases items
  · rw [cleanLoop_ok] at h
    have hany : (kinds.map Except.ok).any isCleanup = decide (Kind.cleanup ∈ kinds) := by
      induction kinds with
      | nil => rfl
      | cons kind kinds ih => cases kind <;> simp_all [isCleanup]
    rw [hany, ← Except.ok.inj h]
  · rw [cleanLoop_error] at h
    cases h

/-- A scan that reads a chain consults the matcher about its questions, and returns what the
consultation says of the landing pad. -/
theorem scan_consults {pc : ℕ} {pad : Pad} {items : List (Except LsdaError Kind)}
    (h : reach lsda pc = .ok (.inr (pad, items))) (w : W) :
    let questions := posed stage exception class_ lsda items
    let asked := consult M.ask refuses questions.1 w
    scan M stage exception class_ lsda pc w =
      ((conclude questions.2 asked.1).map fun selected =>
        Action.ofScan pad (selected, items.any isCleanup), asked.2) := by
  intro questions asked
  obtain ⟨hresult, hworld⟩ :
      (scanLoop M stage exception class_ lsda items false w).1.map Prod.fst =
        conclude questions.2 asked.1 ∧
      (scanLoop M stage exception class_ lsda items false w).2 = asked.2 :=
    scanLoop_consults items false w
  rw [scan_eq, h]
  cases hloop : scanLoop M stage exception class_ lsda items false w with
  | mk result w' =>
    rw [hloop] at hresult hworld
    rw [← hresult, ← hworld]
    simp only [hloop]
    cases result with
    | error error => rfl
    | ok found =>
      obtain ⟨selected, cleanup⟩ := found
      cases selected with
      | some selector => cases cleanup <;> rfl
      | none =>
        have hclean := cleanLoop_eq_any (cleanLoop_of_scanLoop (by rw [hloop]))
        rw [Bool.false_or] at hclean
        rw [hclean]
        rfl

/-! ## Verdicts -/

/-- What a scan of a chain asks, refused or not, and what it returns, told by its transcript. -/
structure Verdict (pad : Pad) (items : List (Except LsdaError Kind))
    (questions : List Question × Option CxxError) (log : Transcript E)
    (result : Except (Failure E) Action) : Prop where
  /-- The questions are put in chain order. -/
  order : log.map Prod.fst <+: questions.1
  /-- Only the last may not have been refused. -/
  refused : ∀ entry ∈ log.dropLast, entry.2 = .ok false
  /-- A scan that was refused throughout has put every question. -/
  complete : (∀ entry ∈ log, entry.2 = .ok false) → log.map Prod.fst = questions.1
  handler : ∀ pad' selector, result = .ok (.handler pad' selector) ↔
    pad' = pad ∧ ∃ q, (q, .ok true) ∈ log ∧ q.selector = selector
  cleanup : ∀ pad', result = .ok (.cleanup pad') ↔ pad' = pad ∧ questions.2 = none ∧
    (∀ entry ∈ log, entry.2 = .ok false) ∧ .ok .cleanup ∈ items
  none : result = .ok .none ↔ questions.2 = none ∧
    (∀ entry ∈ log, entry.2 = .ok false) ∧ .ok .cleanup ∉ items
  match_ : ∀ error, result = .error (.match_ error) ↔ ∃ q, (q, .error error) ∈ log
  metadata : ∀ error, result = .error (.metadata error) ↔
    questions.2 = some error ∧ ∀ entry ∈ log, entry.2 = .ok false

omit [PointerEncoding] in
theorem any_isCleanup {items : List (Except LsdaError Kind)} :
    items.any isCleanup = true ↔ .ok .cleanup ∈ items := by
  rw [List.any_eq_true]
  constructor
  · rintro ⟨kind, hmem, hkind⟩
    unfold isCleanup at hkind
    split at hkind
    · exact hmem
    · cases hkind
  · exact fun hmem => ⟨_, hmem, rfl⟩

omit [PointerEncoding] in
/-- A transcript of refusals comes to why the questions ended. -/
theorem conclude_of_refused {log : Transcript E} (ended : Option CxxError)
    (h : ∀ entry ∈ log, entry.2 = .ok false) : conclude ended log = conclude ended [] := by
  induction log with
  | nil => rfl
  | cons entry log ih =>
    obtain ⟨q, answer⟩ := entry
    obtain rfl : answer = .ok false := h (q, answer) List.mem_cons_self
    rw [conclude_refused, ih fun entry hentry => h entry (List.mem_cons_of_mem _ hentry)]

omit [PointerEncoding] in
theorem verdict_of_refused {pad : Pad} {items : List (Except LsdaError Kind)}
    {questions : List Question × Option CxxError} {log : Transcript E}
    (h : ∀ entry ∈ log, entry.2 = .ok false) (hcomplete : log.map Prod.fst = questions.1) :
    Verdict pad items questions log ((conclude questions.2 log).map fun selected =>
      .ofScan pad (selected, items.any isCleanup)) := by
  have hnever (q : Question) (answer : Except E Bool) (hne : answer ≠ .ok false) :
      (q, answer) ∉ log := fun hmem => hne (h _ hmem)
  have htrue (q : Question) : (q, .ok true) ∉ log := hnever q _ (by simp)
  have herror (q : Question) (error : E) : (q, .error error) ∉ log := hnever q _ (by simp)
  rw [conclude_of_refused _ h]
  have hall : (∀ entry ∈ log, entry.2 = .ok false) = True := eq_true h
  refine ⟨by rw [hcomplete], fun entry hentry => h entry (List.mem_of_mem_dropLast hentry),
    fun _ => hcomplete, ?_, ?_, ?_, ?_, ?_⟩
  all_goals
    simp only [hall, htrue, herror, ← any_isCleanup]
    obtain ⟨questions, ended⟩ := questions
    cases ended <;> cases items.any isCleanup <;>
      simp [conclude, Except.map, Action.ofScan, @eq_comm Pad]

omit [PointerEncoding] in
theorem verdict_of_answered {pad : Pad} {items : List (Except LsdaError Kind)}
    {questions : List Question × Option CxxError} {before : Transcript E} {q : Question}
    {answer : Except E Bool} (h : ∀ entry ∈ before, entry.2 = .ok false)
    (hanswer : answer ≠ .ok false)
    (horder : (before ++ [(q, answer)]).map Prod.fst <+: questions.1) :
    Verdict pad items questions (before ++ [(q, answer)])
      ((conclude questions.2 (before ++ [(q, answer)])).map fun selected =>
        .ofScan pad (selected, items.any isCleanup)) := by
  have hlast : (q, answer) ∈ before ++ [(q, answer)] :=
    List.mem_append_right _ (List.mem_singleton_self _)
  have hall : (∀ entry ∈ before ++ [(q, answer)], entry.2 = .ok false) = False :=
    eq_false fun hall => hanswer (hall _ hlast)
  -- an answer that is no refusal is the last one
  have hmem (q' : Question) (answer' : Except E Bool) (hne : answer' ≠ .ok false) :
      (q', answer') ∈ before ++ [(q, answer)] ↔ q' = q ∧ answer' = answer := by
    rw [List.mem_append, List.mem_singleton, Prod.mk.injEq]
    exact or_iff_right fun hmem => hne (h _ hmem)
  have htrue (q' : Question) := hmem q' (.ok true) (by simp)
  have herror (q' : Question) (error : E) := hmem q' (.error error) (by simp)
  refine ⟨horder, by rwa [List.dropLast_concat], ?_, ?_, ?_, ?_, ?_, ?_⟩
  · rw [hall]
    exact False.elim
  all_goals
    simp only [hall, htrue, herror, conclude, List.getLast?_concat]
    cases answer with
    | error error => simp [Except.map, @eq_comm E]
    | ok matched =>
      cases matched with
      | false => exact absurd rfl hanswer
      | true => simp [Except.map, Action.ofScan, @eq_comm Pad]

omit [PointerEncoding] in
/-- What a scan of a chain returns is the verdict of its transcript. -/
theorem consult_verdict (pad : Pad) (items : List (Except LsdaError Kind))
    (questions : List Question × Option CxxError) (w : W) :
    let log := (consult M.ask refuses questions.1 w).1
    Verdict pad items questions log ((conclude questions.2 log).map fun selected =>
      .ofScan pad (selected, items.any isCleanup)) := by
  intro log
  have horder : log.map Prod.fst <+: questions.1 := Consult.consult_initial questions.1 w
  obtain hrefused | ⟨before, q, answer, hlog, hanswer, hrefused⟩ :=
    @Consult.consult_ends _ _ _ M.ask refuses questions.1 w
  · have h : ∀ entry ∈ log, entry.2 = .ok false :=
      fun entry hentry => refuses_eq_true.1 (hrefused entry hentry)
    exact verdict_of_refused h (Consult.consult_complete hrefused)
  · have h : ∀ entry ∈ before, entry.2 = .ok false :=
      fun entry hentry => refuses_eq_true.1 (hrefused entry hentry)
    rw [show log = before ++ [(q, answer)] from hlog] at horder ⊢
    refine verdict_of_answered h (fun heq => ?_) horder
    rw [heq] at hanswer
    cases hanswer

/-! ## Records -/

/-- The kind of the record of a clause. -/
def Clause.kind : Clause → Kind
  | .catch c => .catch c.index
  | .filter index => .filter index

/-- The clause of a kind: of a catch with its entry of the reverse type table. -/
def Clause.StandsFor (clause : Clause) (lsda : Lsda) : Kind → Prop
  | .cleanup => False
  | .catch index => ∃ types target, lsda.types = some types ∧
      types.get lsda index = .ok target ∧ clause = .catch ⟨index, target⟩
  | .filter index => clause = .filter index

/-- A question is about record `k` of a chain: its selector is the signed discriminator the record
stores, and its clause the catch or filter the discriminator stands for. -/
def Question.About (q : Question) (lsda : Lsda) (action : Desenredo.Action) (k : ℕ) : Prop :=
  q.lsda = lsda ∧ ∃ offset r, lsda.path .stored action k = some offset ∧
    lsda.record .stored offset = some r ∧ q.selector.raw = r.index ∧
    q.clause.StandsFor lsda (.ofIndex r.index)

omit [PointerEncoding] in
theorem pose_eq_some {clause : Clause} {q : Question}
    (h : clause.pose stage exception class_ lsda = .ok (some q)) :
    q.lsda = lsda ∧ q.clause = clause ∧ clause.selector = .ok q.selector := by
  obtain ⟨selector, hselector, h⟩ := Except.bind_eq_ok_iff.1 h
  obtain rfl := Option.some.inj (Except.ok.inj h)
  exact ⟨rfl, rfl, hselector⟩

omit [PointerEncoding] in
/-- The selector of a clause is the number of its kind. -/
theorem selector_eq_ok {clause : Clause} {selector : Selector}
    (h : clause.selector = .ok selector) : selector.raw = clause.kind.index := by
  cases clause with
  | «catch» c =>
    rw [Clause.selector] at h
    split_ifs at h
    exact Except.ok.inj h ▸ rfl
  | filter index =>
    rw [Clause.selector] at h
    split_ifs at h
    exact Except.ok.inj h ▸ rfl

theorem pose_kind {kind : Kind} {q : Question}
    (h : pose stage exception class_ lsda kind = .ok (some q)) :
    q.lsda = lsda ∧ q.selector.raw = kind.index ∧ q.clause.StandsFor lsda kind := by
  cases kind with
  | cleanup => cases h
  | filter index =>
    obtain ⟨hlsda, hclause, hselector⟩ := pose_eq_some h
    exact ⟨hlsda, selector_eq_ok hselector, hclause⟩
  | «catch» index =>
    obtain ⟨clause, hcatch, h⟩ := Except.bind_eq_ok_iff.1 h
    obtain ⟨types, htypes, hcatch⟩ := Except.bind_eq_ok_iff.1 hcatch
    obtain ⟨target, htarget, hcatch⟩ := Except.bind_eq_ok_iff.1 hcatch
    obtain rfl := Except.ok.inj hcatch
    obtain ⟨hlsda, hclause, hselector⟩ := pose_eq_some h
    exact ⟨hlsda, selector_eq_ok hselector, types, target, Option.okOr_eq_ok.1 htypes,
      Except.mapError_eq_ok.1 htarget, hclause⟩

/-- The question of a stored record is about it. -/
theorem pose_about {action : Desenredo.Action} {k : ℕ} {kind : Kind} {q : Question}
    (hkind : (lsda.kinds .stored action)[k]? = some (some kind))
    (hpose : pose stage exception class_ lsda kind = .ok (some q)) : q.About lsda action k := by
  obtain ⟨offset, r, hoffset, hr, rfl⟩ := Lsda.record_of_kindsFrom hkind
  obtain ⟨hlsda, hselector, hclause⟩ := pose_kind hpose
  rw [Kind.index_ofIndex] at hselector
  exact ⟨hlsda, offset, r, hoffset, hr, hselector, hclause⟩

/-! ## Scans -/

/-- A recorded scan returns what the scan does, and its transcript is the consultation. -/
theorem scan_recorded {pc : ℕ} {pad : Pad} {items : List (Except LsdaError Kind)}
    (h : reach lsda pc = .ok (.inr (pad, items))) (w : W) :
    let questions := posed stage exception class_ lsda items
    scan M.recorded stage exception class_ lsda pc (w, []) =
      ((scan M stage exception class_ lsda pc w).1, (scan M stage exception class_ lsda pc w).2,
        (consult M.ask refuses questions.1 w).1) := by
  intro questions
  rw [scan_consults h, scan_consults h]
  dsimp only
  rw [show M.recorded.ask = Consult.recorded M.ask from rfl, Consult.consult_recorded,
    List.nil_append]

/-- What a scan returns of a landing pad when its questions have ended for a reason. -/
def returned (pad : Pad) (items : List (Except LsdaError Kind)) (ended : Option CxxError)
    (log : Transcript E) : Except (Failure E) Action :=
  (conclude ended log).map fun selected => .ofScan pad (selected, items.any isCleanup)

omit [PointerEncoding] in
/-- What cleanup there is does not matter to a scan that fails. -/
theorem returned_failed {pad : Pad} (items items' : List (Except LsdaError Kind)) (error : CxxError)
    (log : Transcript E) : returned pad items (some error) log =
      returned pad items' (some error) log := by
  unfold returned conclude
  split <;> rfl

omit [PointerEncoding] in
/-- What cleanup there is, and why the questions end, does not matter to a scan that is answered. -/
theorem returned_answered {pad : Pad} (items items' : List (Except LsdaError Kind))
    (ended ended' : Option CxxError) {questions : List Question} {w : W}
    (h : ¬∀ entry ∈ (consult M.ask refuses questions w).1, refuses entry.2 = true) :
    returned pad items ended (consult M.ask refuses questions w).1 =
      returned pad items' ended' (consult M.ask refuses questions w).1 := by
  obtain hall | ⟨before, q, answer, hlog, hanswer, -⟩ :=
    @Consult.consult_ends _ _ _ M.ask refuses questions w
  · exact absurd hall h
  · simp only [hlog, returned, conclude, List.getLast?_concat]
    cases answer with
    | error error => rfl
    | ok matched =>
      cases matched with
      | true => rfl
      | false => cases hanswer

theorem posed_append (items more : List (Except LsdaError Kind)) :
    posed stage exception class_ lsda (items ++ more) =
      match posed stage exception class_ lsda items with
      | (questions, some error) => (questions, some error)
      | (questions, none) => (questions ++ (posed stage exception class_ lsda more).1,
          (posed stage exception class_ lsda more).2) := by
  induction items with
  | nil => rfl
  | cons kind items ih =>
    cases kind with
    | error error => rfl
    | ok kind =>
      rw [List.cons_append, posed, posed, ih]
      cases pose stage exception class_ lsda kind with
      | error error => rfl
      | ok q =>
        dsimp only
        cases posed stage exception class_ lsda items with
        | mk questions ended =>
          cases ended with
          | some error => rfl
          | none => simp only [List.append_assoc]

/-- Which error a malformed record is reported as does not matter to the questions. -/
theorem posed_okOr {kinds : List (Option Kind)} {e e' error : LsdaError}
    {questions : List Question}
    (h : posed stage exception class_ lsda (kinds.map (·.okOr e)) =
      (questions, some (.parse error))) :
    ∃ error', posed stage exception class_ lsda (kinds.map (·.okOr e')) =
      (questions, some (.parse error')) := by
  induction kinds generalizing questions with
  | nil => cases h
  | cons kind kinds ih =>
    cases kind with
    | none =>
      obtain ⟨rfl, -⟩ := Prod.mk.inj h
      exact ⟨e', rfl⟩
    | some kind =>
      rw [List.map_cons, Option.okOr_some, posed] at h ⊢
      cases hpose : pose stage exception class_ lsda kind with
      | error error' =>
        rw [hpose] at h
        exact ⟨error, h⟩
      | ok q =>
        rw [hpose] at h
        obtain ⟨rfl, hended⟩ := Prod.mk.inj h
        obtain ⟨error', herror'⟩ := ih (Prod.ext rfl hended)
        exact ⟨error', by rw [herror']⟩

/-! ## Chains as they are stored -/

variable (M stage exception class_ lsda) in
/-- A scan does with the records stored along a chain what it is meant to: its verdict is that of
the kinds stored, some error standing for a malformed record, and its questions are about them. -/
structure Selects (pc addr : ℕ) (action : Desenredo.Action) (w : W) : Prop where
  /-- Keeping a transcript changes nothing. -/
  recorded :
    (scan M.recorded stage exception class_ lsda pc (w, [])).1 =
      (scan M stage exception class_ lsda pc w).1 ∧
    (scan M.recorded stage exception class_ lsda pc (w, [])).2.1 =
      (scan M stage exception class_ lsda pc w).2
  unread : ∀ error, lsda.chain action = .error error →
    (scan M.recorded stage exception class_ lsda pc (w, [])).2.2 = [] ∧
      (scan M stage exception class_ lsda pc w).1 = .error (.metadata (.parse error))
  verdict : ∀ chain, lsda.chain action = .ok chain → ∃ (pad : Pad) (e : LsdaError),
    pad.addr.val = addr ∧
    Verdict pad ((lsda.kinds .stored action).map (·.okOr e))
      (posed stage exception class_ lsda ((lsda.kinds .stored action).map (·.okOr e)))
      (scan M.recorded stage exception class_ lsda pc (w, [])).2.2
      (scan M stage exception class_ lsda pc w).1
  about : ∀ k kind q, (lsda.kinds .stored action)[k]? = some (some kind) →
    pose stage exception class_ lsda kind = .ok (some q) → q.About lsda action k

variable (M stage exception class_ lsda) in
/-- The questions of the records in front of record `k` can be put and are refused. -/
def Reaches (action : Desenredo.Action) (w : W) (k : ℕ) : Prop :=
  let before := posed stage exception class_ lsda
    (((lsda.kinds .stored action).take k).map (·.okOr .table))
  before.2 = none ∧ ∀ entry ∈ (consult M.ask refuses before.1 w).1, entry.2 = .ok false

variable (stage exception class_ lsda) in
/-- With numbers modulo two to the 64, the chain from record `k` on poses no question and comes to
a record, or to an entry of the type table, that cannot be decoded. -/
def FailsFrom (action : Desenredo.Action) (k : ℕ) : Prop :=
  ∃ e error, posed stage exception class_ lsda
    (((lsda.kinds .wrapped action).drop k).map (·.okOr e)) = ([], some (.parse error))

omit [PointerEncoding] in
theorem refused_iff {log : Transcript E} :
    (∀ entry ∈ log, refuses entry.2 = true) ↔ ∀ entry ∈ log, entry.2 = .ok false :=
  forall₂_congr fun _ _ => refuses_eq_true

section

variable {pad : Pad} {before : List Kind} {more : List (Except LsdaError Kind)}
  {asked : List Question}

/-- An error behind records whose questions can all be put ends the questions. -/
theorem posed_error (e : LsdaError)
    (h : posed stage exception class_ lsda (before.map .ok) = (asked, none)) :
    posed stage exception class_ lsda (before.map .ok ++ [.error e]) =
      (asked, some (.parse e)) := by
  rw [posed_append, h]
  exact Prod.ext (List.append_nil _) rfl

/-- When everything in front has been refused, an error there is the verdict if and only if nothing
more is asked and what is left cannot be decoded either. -/
theorem verdict_reached_iff {w : W}
    (hfront : posed stage exception class_ lsda (before.map .ok) = (asked, none))
    (hall : ∀ entry ∈ (consult M.ask refuses asked w).1, refuses entry.2 = true) :
    let questions := posed stage exception class_ lsda (before.map .ok ++ more)
    let log := (consult M.ask refuses questions.1 w).1
    (∃ e, Verdict pad (before.map .ok ++ [.error e])
      (posed stage exception class_ lsda (before.map .ok ++ [.error e])) log
      (returned pad (before.map .ok ++ more) questions.2 log)) ↔
      ∃ error, posed stage exception class_ lsda more = ([], some (.parse error)) := by
  intro questions log
  have hrefused := refused_iff.1 hall
  have hquestions : questions = (asked ++ (posed stage exception class_ lsda more).1,
      (posed stage exception class_ lsda more).2) := by
    rw [show questions = _ from posed_append _ _, hfront]
  have hlog : log = (consult M.ask refuses asked w).1 ++
      (consult M.ask refuses (posed stage exception class_ lsda more).1
        (consult M.ask refuses asked w).2).1 := by
    rw [show log = (consult M.ask refuses questions.1 w).1 from rfl, hquestions]
    exact Consult.consult_append hall _
  constructor
  · rintro ⟨e, hverdict⟩
    rw [posed_error e hfront] at hverdict
    -- every question in front has been put, so there is none behind
    have hnone : (posed stage exception class_ lsda more).1 = [] := by
      have hlength := hverdict.order.length_le
      rw [hlog, List.map_append, List.length_append, Consult.consult_complete hall,
        List.length_map] at hlength
      have hnil : (consult M.ask refuses (posed stage exception class_ lsda more).1
          (consult M.ask refuses asked w).2).1 = [] :=
        List.length_eq_zero_iff.1 (Nat.le_zero.1 (Nat.le_of_add_le_add_left hlength))
      exact Consult.consult_eq_nil.1 hnil
    rw [hnone, consult, List.append_nil] at hlog
    rw [hlog] at hverdict
    have hresult := (hverdict.metadata (.parse e)).2 ⟨rfl, hrefused⟩
    rw [returned, conclude_of_refused _ hrefused, hquestions] at hresult
    refine ⟨e, Prod.ext hnone ?_⟩
    cases hmore : (posed stage exception class_ lsda more).2 with
    | none =>
      rw [hmore] at hresult
      cases hresult
    | some error =>
      rw [hmore] at hresult
      cases hresult
      rfl
  · rintro ⟨error, hmore⟩
    rw [hmore, consult, List.append_nil] at hlog
    refine ⟨error, ?_⟩
    rw [posed_error error hfront, hlog, hquestions, hmore, returned_failed _
      (before.map .ok ++ [.error error])]
    exact consult_verdict pad _ (asked, some (.parse error)) w

/-- An error behind some records is the verdict if and only if the scan does not get there, or fails
to decode what is left without another question. -/
theorem verdict_front_iff (w : W) :
    let front := posed stage exception class_ lsda (before.map .ok)
    let questions := posed stage exception class_ lsda (before.map .ok ++ more)
    let log := (consult M.ask refuses questions.1 w).1
    (∃ e, Verdict pad (before.map .ok ++ [.error e])
      (posed stage exception class_ lsda (before.map .ok ++ [.error e])) log
      (returned pad (before.map .ok ++ more) questions.2 log)) ↔
      (front.2 = none → (∀ entry ∈ (consult M.ask refuses front.1 w).1, entry.2 = .ok false) →
        ∃ error, posed stage exception class_ lsda more = ([], some (.parse error))) := by
  intro front questions log
  cases hfront : front with
  | mk asked ended =>
    cases ended with
    | some error =>
      -- a record in front cannot be asked about, so that nothing behind it matters
      have hposed (more : List (Except LsdaError Kind)) :
          posed stage exception class_ lsda (before.map .ok ++ more) = (asked, some error) := by
        rw [posed_append, show posed stage exception class_ lsda _ = _ from hfront]
      refine iff_of_true ⟨.table, ?_⟩ (fun hnone => by cases hnone)
      rw [show log = (consult M.ask refuses questions.1 w).1 from rfl,
        show questions = _ from hposed more, hposed,
        returned_failed _ (before.map .ok ++ [.error .table])]
      exact consult_verdict pad _ (asked, some error) w
    | none =>
      by_cases hall : ∀ entry ∈ (consult M.ask refuses asked w).1, refuses entry.2 = true
      · exact (verdict_reached_iff hfront hall).trans
          ⟨fun h _ _ => h, fun h => h rfl (refused_iff.1 hall)⟩
      · -- an answer in front is the last
        refine iff_of_true ⟨.table, ?_⟩ fun _ hrefused => absurd (refused_iff.2 hrefused) hall
        have hlog : log = (consult M.ask refuses asked w).1 := by
          rw [show log = (consult M.ask refuses questions.1 w).1 from rfl,
            show questions = _ from posed_append _ _,
            show posed stage exception class_ lsda _ = _ from hfront]
          exact congrArg Prod.fst (Consult.consult_append_answered hall _)
        rw [hlog, posed_error .table hfront, returned_answered _
          (before.map .ok ++ [.error .table]) _ (some (.parse .table)) hall]
        exact consult_verdict pad _ (asked, some (.parse .table)) w

end

/-- A scan that reads a chain selects among what is stored if its verdict is that of the kinds
stored. -/
theorem selects_iff {pc addr : ℕ} {site : Site} {action : Desenredo.Action} {chain : Chain}
    (hsite : lsda.site pc = .ok (some site)) (hland : site.land = some addr)
    (haction : site.action = some action) (hchain : lsda.chain action = .ok chain) (w : W) :
    let questions := posed stage exception class_ lsda chain.items
    let log := (consult M.ask refuses questions.1 w).1
    Selects M stage exception class_ lsda pc addr action w ↔
      ∃ e : LsdaError, let stored := (lsda.kinds .stored action).map (·.okOr e)
        Verdict ⟨addr, Lsda.site_land hsite hland⟩ stored
          (posed stage exception class_ lsda stored) log
          (returned ⟨addr, Lsda.site_land hsite hland⟩ chain.items questions.2 log) := by
  intro questions log
  have hreach : reach lsda pc = .ok (.inr (⟨addr, Lsda.site_land hsite hland⟩, chain.items)) :=
    reach_chain.2 ⟨site, action, chain, hsite, hland, haction, hchain, rfl⟩
  have hrecorded : scan M.recorded stage exception class_ lsda pc (w, []) = _ :=
    scan_recorded hreach w
  have hscan : scan M stage exception class_ lsda pc w = _ := scan_consults hreach w
  constructor
  · intro h
    obtain ⟨pad, e, rfl, hverdict⟩ := h.verdict chain hchain
    rw [hrecorded, hscan] at hverdict
    exact ⟨e, hverdict⟩
  · rintro ⟨e, hverdict⟩
    refine ⟨by rw [hrecorded]; exact ⟨rfl, rfl⟩, fun error herror => ?_, fun chain' hchain' => ?_,
      fun k kind q hkind hpose => pose_about hkind hpose⟩
    · rw [hchain] at herror
      cases herror
    · refine ⟨⟨addr, Lsda.site_land hsite hland⟩, e, rfl, ?_⟩
      rw [hrecorded, hscan]
      exact hverdict

/-- A chain that does not begin fails a scan before any question. -/
theorem selects_of_error {pc addr : ℕ} {site : Site} {action : Desenredo.Action}
    {error : LsdaError} (hsite : lsda.site pc = .ok (some site)) (hland : site.land = some addr)
    (haction : site.action = some action) (hchain : lsda.chain action = .error error) (w : W) :
    Selects M stage exception class_ lsda pc addr action w := by
  have hpad : Pad.new addr = .ok ⟨addr, Lsda.site_land hsite hland⟩ := pad_new_eq_ok.2 rfl
  have hfails {W' : Type} (M' : Matcher W' E) (w' : W') :
      scan M' stage exception class_ lsda pc w' = (.error (.metadata (.parse error)), w') := by
    simp only [scan, hsite, hland, hpad, haction, hchain]
  refine ⟨by rw [hfails, hfails]; exact ⟨rfl, rfl⟩, fun error' herror' => ?_,
    fun chain hchain' => ?_, fun k kind q hkind hpose => pose_about hkind hpose⟩
  · rw [hchain] at herror'
    obtain rfl := Except.error.inj herror'
    rw [hfails, hfails]
    exact ⟨rfl, rfl⟩
  · rw [hchain] at hchain'
    cases hchain'

/-- A chain with a misread record has the verdict of what is stored if and only if the scan does not
reach that record, or fails from there on. -/
theorem verdict_misread_iff (hslice : lsda.bytes.length ≤ Usize.maxSlice) {pad : Pad}
    {action : Desenredo.Action} {chain : Chain} (hchain : lsda.chain action = .ok chain)
    {k offset : ℕ} (hoffset : lsda.path .stored action k = some offset)
    (hmisread : lsda.Misread offset) (w : W) :
    let questions := posed stage exception class_ lsda chain.items
    let log := (consult M.ask refuses questions.1 w).1
    (∃ e : LsdaError, let stored := (lsda.kinds .stored action).map (·.okOr e)
      Verdict pad stored (posed stage exception class_ lsda stored) log
        (returned pad chain.items questions.2 log)) ↔
      (Reaches M stage exception class_ lsda action w k →
        FailsFrom stage exception class_ lsda action k) := by
  obtain ⟨e, hitems⟩ := Lsda.items_eq_kinds hslice hchain
  obtain ⟨hfirst, -⟩ := Chain.chain_eq_ok hslice hchain
  -- the kinds that are read in front of the misread record are all there is stored
  have hend : lsda.link .stored offset = none := by
    refine Lsda.link_of_not_sound ?_
    rintro ⟨r, hr, -⟩
    rw [(Lsda.misread_iff.1 hmisread).1] at hr
    cases hr
  obtain ⟨hk, -⟩ := Chain.le_of_link_eq_none hfirst hoffset hend
  obtain ⟨before, more, hlength, hstored, hread⟩ :=
    Lsda.kindsFrom_misread hoffset hmisread (Nat.lt_succ_of_le hk)
  have hbefore (e : LsdaError) : (before.map some).map (·.okOr e) = before.map .ok := by
    rw [List.map_map]
    rfl
  have hkinds (e : LsdaError) : (lsda.kinds .stored action).map (·.okOr e) =
      before.map .ok ++ [.error e] := by
    rw [show lsda.kinds .stored action = _ from hstored, List.map_append, hbefore]
    rfl
  have hfront : ((lsda.kinds .stored action).take k).map (·.okOr .table) =
      before.map (.ok : Kind → Except LsdaError Kind) := by
    rw [show lsda.kinds .stored action = _ from hstored, List.take_left' (by simpa using hlength),
      hbefore]
  have hmore : (lsda.kinds .wrapped action).drop k = more := by
    rw [Field.wrapped_eq_read, show lsda.kinds .read action = _ from hread,
      List.drop_left' (by simpa using hlength)]
  have hfails : FailsFrom stage exception class_ lsda action k ↔ ∃ error,
      posed stage exception class_ lsda (more.map (·.okOr e)) = ([], some (.parse error)) := by
    rw [FailsFrom, hmore]
    exact ⟨fun ⟨_, _, h⟩ => posed_okOr h, fun ⟨error, h⟩ => ⟨e, error, h⟩⟩
  rw [hitems, show lsda.kinds .read action = _ from hread, List.map_append, hbefore, hfails,
    Reaches, hfront]
  simp only [hkinds]
  exact (verdict_front_iff w).trans and_imp.symm

/-- **Selection.** A scan of a chain puts the questions of its catch and filter records to the
matcher, in order and with the record's own selector and target, until one is accepted or
something fails; it returns the landing pad with the selector of the accepted one, else the
failure, else what cleanup there is. This is so of the records that are stored if and only if the
scan reaches none that is misread, or fails to decode the chain from there on. -/
theorem scan_selects_first_iff (M : Matcher W E) (stage : Stage) (exception : ExceptionRef)
    (class_ : ExceptionClass) {lsda : Lsda} (hslice : lsda.bytes.length ≤ Usize.maxSlice)
    {pc addr : ℕ} {site : Site} {action : Desenredo.Action} (hsite : lsda.site pc = .ok (some site))
    (hland : site.land = some addr) (haction : site.action = some action) (w : W) :
    Selects M stage exception class_ lsda pc addr action w ↔
      ∀ chain, lsda.chain action = .ok chain → ∀ k offset,
        lsda.path .stored action k = some offset → lsda.Misread offset →
          Reaches M stage exception class_ lsda action w k →
            FailsFrom stage exception class_ lsda action k := by
  cases hchain : lsda.chain action with
  | error error => exact iff_of_true (selects_of_error hsite hland haction hchain w) nofun
  | ok chain =>
    refine (selects_iff hsite hland haction hchain w).trans ?_
    by_cases hkept : lsda.Kept action
    · -- nothing is misread: the kinds read are those stored
      obtain ⟨e, hitems⟩ := Lsda.items_eq_kinds hslice hchain
      refine iff_of_true ⟨e, ?_⟩ fun _ _ k offset hoffset hmisread =>
        absurd hmisread (hkept k offset hoffset)
      have hkinds : lsda.kinds .stored action = lsda.kinds .read action :=
        Lsda.kindsFrom_kept hkept
      rw [hkinds, ← hitems]
      exact consult_verdict _ _ _ w
    · constructor
      · rintro h _ - k offset hoffset hmisread
        exact (verdict_misread_iff hslice hchain hoffset hmisread w).1 h
      · intro h
        simp only [Lsda.Kept, not_forall, not_not] at hkept
        obtain ⟨k, offset, hoffset, hmisread⟩ := hkept
        exact (verdict_misread_iff hslice hchain hoffset hmisread w).2
          (h chain rfl k offset hoffset hmisread)

end

end

attribute [local instance] PointerEncoding.bits in
/-- A chain of a cleanup, a filter that the matcher refuses and a catch that it accepts. -/
theorem scan_selects_first_catch :
    let lsda : Lsda := ⟨[0xff, 0x02, 0x0e, 0x01, 0x04, 0x00, 0x05, 0x0a, 0x01, 0x00, 0x01, 0x7f,
      0x01, 0x01, 0x00, 0x00, 0x50, 0x00], .new 0x1000 0x2000, .little, 0x2000, some ⟨17, U2⟩, ULEB,
      [0x00, 0x05, 0x0a, 0x01], 9⟩
    let M : Matcher ℕ Unit := ⟨fun _ _ _ _ clause _ w => (.ok (clause matches .catch _), w + 1)⟩
    Lsda.new lsda.bytes (.new 0x1000 0x2000) .little = .ok lsda ∧
      (scan M .search ⟨4096, fun _ => 7⟩ ⟨7⟩ lsda 0x2003 0).1 =
        .ok (.handler ⟨⟨0x200a, by decide⟩⟩ ⟨1⟩) := by
  intro lsda M
  have hsite : lsda.site 0x2003 = .ok (some ⟨0, 5, some 0x200a, some ⟨⟨1, by decide⟩⟩⟩) := by
    decide
  have hkept : lsda.Kept ⟨⟨1, by decide⟩⟩ := Lsda.kept_of_record (by decide) (by decide)
  have hselects := (scan_selects_first_iff M .search ⟨4096, fun _ => 7⟩ ⟨7⟩ (by decide) hsite rfl
    rfl 0).2 fun _ _ k offset hoffset hmisread => absurd hmisread (hkept k offset hoffset)
  obtain ⟨⟨value, hvalue⟩, e, hpad, hverdict⟩ := hselects.verdict _ rfl
  obtain rfl : value = 0x200a := hpad
  let question (clause : Clause) (selector : ℤ) : Question :=
    ⟨.search, ⟨4096, fun _ => 7⟩, ⟨7⟩, lsda, clause, ⟨selector⟩⟩
  have hlog : (scan M.recorded .search ⟨4096, fun _ => 7⟩ ⟨7⟩ lsda 0x2003 (0, [])).2.2 =
      [(question (.filter ⟨⟨1, by decide⟩⟩) (-1), .ok false),
        (question (.catch ⟨⟨⟨1, by decide⟩⟩, ⟨0x5000, false⟩⟩) 1, .ok true)] := by
    unfold question M lsda
    rfl
  rw [hlog] at hverdict
  exact ⟨by decide, (hverdict.handler _ _).2
    ⟨rfl, _, List.mem_cons_of_mem _ (List.mem_singleton_self _), rfl⟩⟩

attribute [local instance] PointerEncoding.bits in
/-- A record whose discriminator is `2 ^ 64 - 1` is taken for a filter, and the matcher asked with
the selector -1. -/
theorem scan_misreads_discriminator :
    let lsda : Lsda := ⟨[0xff, 0xff, 0x01, 0x04, 0x00, 0x05, 0x0a, 0x01] ++
      List.replicate 9 0xff ++ [0x01, 0x00], .new 0x1000 0x2000, .little, 0x2000, none, ULEB,
      [0x00, 0x05, 0x0a, 0x01], 8⟩
    let M : Matcher Unit Unit := ⟨fun _ _ _ _ _ _ w => (.ok true, w)⟩
    Lsda.new lsda.bytes (.new 0x1000 0x2000) .little = .ok lsda ∧
      lsda.site 0x2003 = .ok (some ⟨0, 5, some 0x200a, some ⟨⟨1, by decide⟩⟩⟩) ∧
      (scan M .search ⟨4096, fun _ => 7⟩ ⟨7⟩ lsda 0x2003 ()).1 =
        .ok (.handler ⟨⟨0x200a, by decide⟩⟩ ⟨-1⟩) ∧
      ¬Selects M .search ⟨4096, fun _ => 7⟩ ⟨7⟩ lsda 0x2003 0x200a ⟨⟨1, by decide⟩⟩ () := by
  intro lsda M
  refine ⟨by decide, by decide, by unfold M lsda; rfl, fun h => ?_⟩
  obtain ⟨pad, e, -, hverdict⟩ := h.verdict _ rfl
  -- the one record stored is malformed, so there is nothing to ask
  have hkinds : lsda.kinds .stored ⟨⟨1, by decide⟩⟩ = [none] := by decide
  have horder := hverdict.order
  rw [hkinds] at horder
  have hlog := List.eq_nil_of_prefix_nil horder
  unfold M lsda at hlog
  cases hlog

end Desenredo.Cxx
