import Desenredo.Cxx.Scan
import Desenredo.Lsda.ChainTheorems
import Mathlib.Data.Set.Function

/-!
# The scans of a C++ call site

`clean` and `scan` find the landing pad and the chain of a call site in the same way and differ
in what they make of the records. The matcher sees the clauses of a chain in order until it
accepts one or something fails, and what a scan returns can be read off its answers.
-/

namespace Desenredo.Cxx

variable [PointerEncoding]

/-! ## Call sites -/

/-- Where both scans get to before they read a record: an action that needs no chain, or a
landing pad and the items of a chain. -/
def reach (lsda : Lsda) (pc : ℕ) :
    Except CxxError (Action ⊕ Pad × List (Except LsdaError Kind)) := do
  match ← (lsda.site pc).mapError .parse with
  | .none => .ok (.inl .terminate)
  | some site =>
    match site.land with
    | .none => .ok (.inl .none)
    | some addr =>
      let pad ← Pad.new addr
      match site.action with
      | .none => .ok (.inl (.cleanup pad))
      | some action =>
        let chain ← (lsda.chain action).mapError .parse
        .ok (.inr (pad, chain.items))

omit [PointerEncoding] in
theorem pad_new_eq_ok {addr : ℕ} {pad : Pad} : Pad.new addr = .ok pad ↔ addr = pad.addr.val := by
  obtain ⟨value⟩ := pad
  simp only [Pad.new, Option.okOr_eq_ok, Option.map_eq_some_iff, Pad.mk.injEq, exists_eq_right,
    NonZeroUsize.new_eq_some]

/-- A chain is read from the action of the covering call site. -/
theorem reach_chain {lsda : Lsda} {pc : ℕ} {pad : Pad} {items : List (Except LsdaError Kind)} :
    reach lsda pc = .ok (.inr (pad, items)) ↔
      ∃ site action chain, lsda.site pc = .ok (some site) ∧ site.land = some pad.addr.val ∧
        site.action = some action ∧ lsda.chain action = .ok chain ∧ items = chain.items := by
  constructor
  · intro h
    obtain ⟨found, hsite, h⟩ := Except.bind_eq_ok_iff.1 h
    rw [Except.mapError_eq_ok] at hsite
    cases found with
    | none => cases h
    | some site =>
      dsimp only at h
      split at h
      · cases h
      · rename_i addr hland
        obtain ⟨pad', hpad, h⟩ := Except.bind_eq_ok_iff.1 h
        split at h
        · cases h
        · rename_i action haction
          obtain ⟨chain, hchain, h⟩ := Except.bind_eq_ok_iff.1 h
          rw [Except.mapError_eq_ok] at hchain
          obtain ⟨rfl, rfl⟩ := Prod.mk.inj (Sum.inr.inj (Except.ok.inj h))
          rw [pad_new_eq_ok.1 hpad] at hland
          exact ⟨site, action, chain, hsite, hland, haction, hchain, rfl⟩
  · rintro ⟨site, action, chain, hsite, hland, haction, hchain, rfl⟩
    have hpad : Pad.new pad.addr.val = .ok pad := pad_new_eq_ok.2 rfl
    simp only [reach, hsite, hland, haction, hchain, hpad, Except.mapError, Except.bind_ok]

/-- A call site that needs no chain terminates, does nothing or has cleanup work only. -/
theorem reach_inl {lsda : Lsda} {pc : ℕ} {action : Action}
    (h : reach lsda pc = .ok (.inl action)) :
    action = .terminate ∧ lsda.site pc = .ok none ∨
      action = .none ∨ ∃ pad, action = .cleanup pad := by
  obtain ⟨found, hsite, h⟩ := Except.bind_eq_ok_iff.1 h
  rw [Except.mapError_eq_ok] at hsite
  cases found with
  | none =>
    cases h
    exact .inl ⟨rfl, hsite⟩
  | some site =>
    dsimp only at h
    split at h
    · cases h
      exact .inr (.inl rfl)
    · obtain ⟨pad, -, h⟩ := Except.bind_eq_ok_iff.1 h
      split at h
      · cases h
        exact .inr (.inr ⟨pad, rfl⟩)
      · obtain ⟨chain, -, h⟩ := Except.bind_eq_ok_iff.1 h
        cases h

theorem clean_eq (lsda : Lsda) (pc : ℕ) :
    clean lsda pc =
      match reach lsda pc with
      | .error error => .error error
      | .ok (.inl action) => .ok action
      | .ok (.inr (pad, items)) =>
        (cleanLoop items false).map fun cleanup => if cleanup then .cleanup pad else .none := by
  unfold clean reach
  cases lsda.site pc with
  | error error => rfl
  | ok site =>
    cases site with
    | none => rfl
    | some site =>
      obtain ⟨_, _, land, action⟩ := site
      cases land with
      | none => rfl
      | some addr =>
        simp only [Except.mapError, Except.bind_ok]
        cases Pad.new addr with
        | error error => rfl
        | ok pad =>
          cases action with
          | none => rfl
          | some action =>
            simp only [Except.bind_ok]
            cases lsda.chain action with
            | error error => rfl
            | ok chain => cases cleanLoop chain.items false <;> rfl

section

variable {W E : Type} (M : Matcher W E) (stage : Stage) (exception : ExceptionRef)
  (class_ : ExceptionClass)

theorem scan_eq (lsda : Lsda) (pc : ℕ) (w : W) :
    scan M stage exception class_ lsda pc w =
      match reach lsda pc with
      | .error error => (.error (.metadata error), w)
      | .ok (.inl action) => (.ok action, w)
      | .ok (.inr (pad, items)) =>
        match scanLoop M stage exception class_ lsda items false w with
        | (.error error, w) => (.error error, w)
        | (.ok found, w) => (.ok (.ofScan pad found), w) := by
  unfold scan reach
  cases lsda.site pc with
  | error error => rfl
  | ok site =>
    cases site with
    | none => rfl
    | some site =>
      obtain ⟨_, _, land, action⟩ := site
      cases land with
      | none => rfl
      | some addr =>
        simp only [Except.mapError, Except.bind_ok]
        cases Pad.new addr with
        | error error => rfl
        | ok pad =>
          cases action with
          | none => rfl
          | some action =>
            simp only [Except.bind_ok]
            cases lsda.chain action <;> rfl

end

/-! ## Loops -/

section

omit [PointerEncoding]

variable {items rest : List (Except LsdaError Kind)} {cleanup found : Bool}

theorem cleanLoop_append (kinds : List Kind) :
    cleanLoop (kinds.map .ok ++ rest) cleanup =
      cleanLoop rest (cleanup || decide (Kind.cleanup ∈ kinds)) := by
  induction kinds generalizing cleanup with
  | nil => simp
  | cons kind kinds ih =>
    simp only [List.map_cons, List.cons_append, cleanLoop]
    cases kind <;> simp [ih, Except.mapError]

/-- The items of a list before its first error, and that error. -/
theorem items_cases (items : List (Except LsdaError Kind)) :
    ∃ kinds : List Kind, items = kinds.map .ok ∨
      ∃ error rest, items = kinds.map .ok ++ .error error :: rest := by
  induction items with
  | nil => exact ⟨[], .inl rfl⟩
  | cons kind items ih =>
    cases kind with
    | error error => exact ⟨[], .inr ⟨error, items, rfl⟩⟩
    | ok kind =>
      obtain ⟨kinds, rfl | ⟨error, rest, rfl⟩⟩ := ih
      · exact ⟨kind :: kinds, .inl rfl⟩
      · exact ⟨kind :: kinds, .inr ⟨error, rest, rfl⟩⟩

theorem cleanLoop_ok (kinds : List Kind) :
    cleanLoop (kinds.map .ok) cleanup = .ok (cleanup || decide (Kind.cleanup ∈ kinds)) := by
  have happend := @cleanLoop_append [] cleanup kinds
  rwa [List.append_nil, cleanLoop] at happend

theorem cleanLoop_error (kinds : List Kind) (error : LsdaError) :
    cleanLoop (kinds.map .ok ++ .error error :: rest) cleanup = .error (.parse error) := by
  rw [cleanLoop_append, cleanLoop]
  rfl

end

/-- Whether an item is a cleanup record. -/
def isCleanup : Except LsdaError Kind → Bool
  | .ok .cleanup => true
  | _ => false

section

variable {W E : Type} {M : Matcher W E} {stage : Stage} {exception : ExceptionRef}
  {class_ : ExceptionClass} {lsda : Lsda}

/-- Reading one record of a chain. -/
theorem scanLoop_cons (kind : Except LsdaError Kind) (items : List (Except LsdaError Kind))
    (cleanup : Bool) (w : W) :
    scanLoop M stage exception class_ lsda (kind :: items) cleanup w =
      match outcome M stage exception class_ lsda kind w with
      | (.ok (some selector), w) => (.ok (some selector, cleanup || isCleanup kind), w)
      | (.ok .none, w) =>
        scanLoop M stage exception class_ lsda items (cleanup || isCleanup kind) w
      | (.error error, w) => (.error error, w) := by
  -- the loop sets its flag by a match of its own
  have hflag : (if kind matches .ok .cleanup then true else cleanup) =
      (cleanup || isCleanup kind) := by
    cases kind with
    | error error => simp [isCleanup]
    | ok kind => cases kind <;> simp [isCleanup]
  rw [← hflag]
  rfl

/-- A scan that selects nothing has read every record as `clean` does. -/
theorem cleanLoop_of_scanLoop {items : List (Except LsdaError Kind)} {cleanup found : Bool} {w : W}
    (h : (scanLoop M stage exception class_ lsda items cleanup w).1 = .ok (none, found)) :
    cleanLoop items cleanup = .ok found := by
  induction items generalizing cleanup w with
  | nil => simpa [scanLoop, cleanLoop] using h
  | cons kind items ih =>
    rw [scanLoop_cons] at h
    split at h
    · cases h
    · rename_i hread
      cases kind with
      | error error => cases hread
      | ok kind =>
        have hitems := ih h
        cases kind <;> simpa [cleanLoop, isCleanup, Except.mapError] using hitems
    · cases h

/-- A scan that selects a clause has read records that select nothing before the one with the
clause. -/
theorem scanLoop_selects {items : List (Except LsdaError Kind)} {cleanup found : Bool} {w : W}
    {selector : Selector}
    (h : (scanLoop M stage exception class_ lsda items cleanup w).1 =
      .ok (some selector, found)) :
    ∃ (before : List Kind) (kind : Kind) (after : List (Except LsdaError Kind)) (found' : Bool)
      (w' w'' : W), items = before.map .ok ++ .ok kind :: after ∧
      scanLoop M stage exception class_ lsda (before.map .ok) cleanup w =
        (.ok (none, found'), w') ∧
      outcome M stage exception class_ lsda (.ok kind) w' = (.ok (some selector), w'') := by
  induction items generalizing cleanup w with
  | nil => cases h
  | cons kind items ih =>
    rw [scanLoop_cons] at h
    split at h
    · rename_i hread
      cases kind with
      | error error => cases hread
      | ok kind =>
        rw [(Prod.mk.inj (Except.ok.inj h)).1] at hread
        exact ⟨[], kind, items, cleanup, w, _, rfl, rfl, hread⟩
    · rename_i hread
      cases kind with
      | error error => cases hread
      | ok kind =>
        -- the record in front selected nothing, so it is read on the way
        obtain ⟨before, kind', after, found', w₁, w₂, rfl, hbefore, hselect⟩ := ih h
        refine ⟨kind :: before, kind', after, found', w₁, w₂, rfl, ?_, hselect⟩
        rw [List.map_cons, scanLoop_cons, hread]
        exact hbefore
    · cases h

/-- A scan succeeds with what the call site says or with what the records of its chain do. -/
theorem scan_eq_ok {pc : ℕ} {w : W} {action : Action} :
    (scan M stage exception class_ lsda pc w).1 = .ok action ↔
      reach lsda pc = .ok (.inl action) ∨
        ∃ pad items found, reach lsda pc = .ok (.inr (pad, items)) ∧
          (scanLoop M stage exception class_ lsda items false w).1 = .ok found ∧
          action = .ofScan pad found := by
  rw [scan_eq]
  constructor
  · intro h
    split at h
    · cases h
    · rename_i hreach
      exact .inl (by rw [hreach, Except.ok.inj h])
    · rename_i pad items hreach
      split at h
      · cases h
      · rename_i hloop
        exact .inr ⟨pad, items, _, hreach, by rw [hloop], (Except.ok.inj h).symm⟩
  · rintro (hreach | ⟨pad, items, found, hreach, hloop, rfl⟩)
    · rw [hreach]
    · rw [hreach]
      dsimp only
      split
      · rename_i herror
        rw [herror] at hloop
        cases hloop
      · rename_i hfound
        rw [hfound] at hloop
        obtain rfl := Except.ok.inj hloop
        rfl

/-- `clean` succeeds with what the call site says or with whether its chain has a cleanup. -/
theorem clean_eq_ok {pc : ℕ} {action : Action} :
    clean lsda pc = .ok action ↔
      reach lsda pc = .ok (.inl action) ∨
        ∃ pad items cleanup, reach lsda pc = .ok (.inr (pad, items)) ∧
          cleanLoop items false = .ok cleanup ∧
          action = if cleanup then .cleanup pad else .none := by
  rw [clean_eq]
  constructor
  · intro h
    split at h
    · cases h
    · rename_i hreach
      exact .inl (by rw [hreach, Except.ok.inj h])
    · rename_i pad items hreach
      obtain ⟨cleanup, hloop, rfl⟩ := Except.map_eq_ok.1 h
      exact .inr ⟨pad, items, cleanup, hreach, hloop, rfl⟩
  · rintro (hreach | ⟨pad, items, cleanup, hreach, hloop, rfl⟩)
    · rw [hreach]
    · simp only [hreach, hloop, Except.map]

/-- Where a scan finds no handler `clean` finds the same. -/
theorem clean_of_scan {pc : ℕ} {w : W} {action : Action}
    (h : (scan M stage exception class_ lsda pc w).1 = .ok action)
    (hnone : ∀ pad selector, action ≠ .handler pad selector) : clean lsda pc = .ok action := by
  refine clean_eq_ok.2 ?_
  obtain hreach | ⟨pad, items, ⟨selected, found⟩, hreach, hloop, rfl⟩ := scan_eq_ok.1 h
  · exact .inl hreach
  · cases selected with
    | some selector => exact absurd rfl (hnone pad selector)
    | none =>
      refine .inr ⟨pad, items, found, hreach, cleanLoop_of_scanLoop hloop, ?_⟩
      cases found <;> rfl

end

/-! ## Handlers -/

omit [PointerEncoding] in
theorem ofScan_eq_handler {pad pad' : Pad} {found : Option Selector × Bool} {selector : Selector} :
    Action.ofScan pad found = .handler pad' selector ↔ pad = pad' ∧ found.1 = some selector := by
  obtain ⟨selected, found⟩ := found
  cases selected <;> cases found <;> simp [Action.ofScan]

section

variable {W E : Type} {M : Matcher W E} {stage : Stage}
  {exception : ExceptionRef} {class_ : ExceptionClass} {lsda : Lsda} {pc : ℕ} {w : W} {pad : Pad}
  {selector : Selector}

/-- A handler comes from the chain of a call site with its landing pad. -/
theorem scan_eq_handler
    (h : (scan M stage exception class_ lsda pc w).1 = .ok (.handler pad selector)) :
    ∃ items found, reach lsda pc = .ok (.inr (pad, items)) ∧
      (scanLoop M stage exception class_ lsda items false w).1 = .ok (some selector, found) := by
  obtain hreach | ⟨pad', items, ⟨selected, found⟩, hreach, hloop, haction⟩ := scan_eq_ok.1 h
  · obtain ⟨haction, -⟩ | haction | ⟨_, haction⟩ := reach_inl hreach <;> cases haction
  · obtain ⟨rfl, rfl⟩ := ofScan_eq_handler.1 haction.symm
    exact ⟨items, found, hreach, hloop⟩

/-- A handler has the landing pad of the covering call site. -/
theorem scan_lands
    (h : (scan M stage exception class_ lsda pc w).1 = .ok (.handler pad selector)) :
    ∃ site, lsda.site pc = .ok (some site) ∧ site.land = some pad.addr.val := by
  obtain ⟨items, found, hreach, -⟩ := scan_eq_handler h
  obtain ⟨site, -, -, hsite, hland, -⟩ := reach_chain.1 hreach
  exact ⟨site, hsite, hland⟩

end

/-! ## Stages -/

section

variable {W E : Type} {M : Matcher W E}

/-- A matcher answers in the handler stage what it answers in the search stage, for runtimes in a
state `I` that it keeps, an exception at `p` and memory that does not change at the addresses
`R`. -/
structure Matcher.Steady (M : Matcher W E) (I : W → Prop) (R : Set ℕ) (p : ℕ) : Prop where
  keeps : ∀ stage exception class_ lsda clause selector world, I world →
    I (M.test stage exception class_ lsda clause selector world).2
  agrees : ∀ class_ lsda clause selector m m' world world', R.EqOn m' m → I world → I world' →
    (M.test .handler ⟨p, m'⟩ class_ lsda clause selector world').1 =
      (M.test .search ⟨p, m⟩ class_ lsda clause selector world).1

variable {I : W → Prop} {R : Set ℕ} {p : ℕ} {m m' : Memory} {world world' : W}
  (class_ : ExceptionClass) (lsda : Lsda)

/-! What one record does, what a chain of them does, and what a call site does. -/

omit [PointerEncoding] in
theorem test_keeps (hM : M.Steady I R p) (hI : I world) (stage : Stage) (e : ExceptionRef)
    (clause : Clause) : I (clause.test M stage e class_ lsda world).2 := by
  unfold Clause.test
  cases clause.selector with
  | error error => exact hI
  | ok selector =>
    have hkeeps := hM.keeps stage e class_ lsda clause selector world hI
    cases htest : M.test stage e class_ lsda clause selector world with
    | mk answer world' =>
      rw [htest] at hkeeps
      cases answer <;> simpa only [htest] using hkeeps

theorem outcome_keeps (hM : M.Steady I R p) (hI : I world) (stage : Stage) (e : ExceptionRef)
    (kind : Except LsdaError Kind) : I (outcome M stage e class_ lsda kind world).2 := by
  unfold outcome
  split
  · exact hI
  · exact hI
  · split
    · exact hI
    · exact test_keeps class_ lsda hM hI stage e _
  · exact test_keeps class_ lsda hM hI stage e _

theorem scanLoop_keeps (hM : M.Steady I R p) (hI : I world) (stage : Stage) (e : ExceptionRef)
    (items : List (Except LsdaError Kind)) (cleanup : Bool) :
    I (scanLoop M stage e class_ lsda items cleanup world).2 := by
  induction items generalizing cleanup world with
  | nil => exact hI
  | cons kind items ih =>
    have hkeeps := outcome_keeps class_ lsda hM hI stage e kind
    rw [scanLoop_cons]
    split <;> rename_i hread <;> rw [hread] at hkeeps
    · exact hkeeps
    · exact ih hkeeps _
    · exact hkeeps

theorem scan_keeps (hM : M.Steady I R p) (hI : I world) (stage : Stage) (e : ExceptionRef)
    (pc : ℕ) : I (scan M stage e class_ lsda pc world).2 := by
  rw [scan_eq]
  split
  · exact hI
  · exact hI
  · rename_i pad items _
    have hkeeps := scanLoop_keeps class_ lsda hM hI stage e items false
    split <;> rename_i hloop <;> rw [hloop] at hkeeps <;> exact hkeeps

omit [PointerEncoding] in
theorem test_agrees (hM : M.Steady I R p) (hm : R.EqOn m' m) (hI : I world) (hI' : I world')
    (clause : Clause) :
    (clause.test M .handler ⟨p, m'⟩ class_ lsda world').1 =
      (clause.test M .search ⟨p, m⟩ class_ lsda world).1 := by
  unfold Clause.test
  cases clause.selector with
  | error error => rfl
  | ok selector =>
    have hagrees := hM.agrees class_ lsda clause selector m m' world world' hm hI hI'
    dsimp only
    cases hsearch : M.test .search ⟨p, m⟩ class_ lsda clause selector world with
    | mk answer w =>
      cases hhandler : M.test .handler ⟨p, m'⟩ class_ lsda clause selector world' with
      | mk answer' w' =>
        rw [hsearch, hhandler] at hagrees
        obtain rfl : answer' = answer := hagrees
        cases answer' <;> rfl

theorem outcome_agrees (hM : M.Steady I R p) (hm : R.EqOn m' m) (hI : I world) (hI' : I world')
    (kind : Except LsdaError Kind) :
    (outcome M .handler ⟨p, m'⟩ class_ lsda kind world').1 =
      (outcome M .search ⟨p, m⟩ class_ lsda kind world).1 := by
  unfold outcome
  split
  · rfl
  · rfl
  · split
    · rfl
    · exact test_agrees class_ lsda hM hm hI hI' _
  · exact test_agrees class_ lsda hM hm hI hI' _

theorem scanLoop_agrees (hM : M.Steady I R p) (hm : R.EqOn m' m) (hI : I world)
    (hI' : I world') (items : List (Except LsdaError Kind)) (cleanup : Bool) :
    (scanLoop M .handler ⟨p, m'⟩ class_ lsda items cleanup world').1 =
      (scanLoop M .search ⟨p, m⟩ class_ lsda items cleanup world).1 := by
  induction items generalizing cleanup world world' with
  | nil => rfl
  | cons kind items ih =>
    have hagrees := outcome_agrees class_ lsda hM hm hI hI' kind
    -- each stage moves the matcher on, but to states in which it still answers alike
    have hkeeps := outcome_keeps class_ lsda hM hI .search ⟨p, m⟩ kind
    have hkeeps' := outcome_keeps class_ lsda hM hI' .handler ⟨p, m'⟩ kind
    rw [scanLoop_cons, scanLoop_cons]
    cases hsearch : outcome M .search ⟨p, m⟩ class_ lsda kind world with
    | mk result w =>
      cases hhandler : outcome M .handler ⟨p, m'⟩ class_ lsda kind world' with
      | mk result' w' =>
        rw [hsearch] at hagrees hkeeps
        rw [hhandler] at hagrees hkeeps'
        obtain rfl : result' = result := hagrees
        cases result' with
        | error error => rfl
        | ok selected =>
          cases selected with
          | some selector => rfl
          | none => exact ih hkeeps hkeeps' _

theorem handler_eq_search (hM : M.Steady I R p) (hm : R.EqOn m' m) (hI : I world)
    (hI' : I world') (pc : ℕ) :
    (handler M lsda pc ⟨p, m'⟩ class_ world').1 = (search M lsda pc ⟨p, m⟩ class_ world).1 := by
  rw [handler, search, scan_eq, scan_eq]
  cases reach lsda pc with
  | error error => rfl
  | ok reached =>
    cases reached with
    | inl action => rfl
    | inr reached =>
      obtain ⟨pad, items⟩ := reached
      have hagrees :=
        scanLoop_agrees class_ lsda hM hm hI hI' items false
      dsimp only
      cases hsearch : scanLoop M .search ⟨p, m⟩ class_ lsda items false world with
      | mk result w =>
        cases hhandler : scanLoop M .handler ⟨p, m'⟩ class_ lsda items false world' with
        | mk result' w' =>
          rw [hsearch, hhandler] at hagrees
          obtain rfl : result' = result := hagrees
          cases result' <;> rfl

end

end Desenredo.Cxx
