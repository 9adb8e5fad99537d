import Desenredo.Cxx.ScanTheorems

/-!
# The phases of a C++ frame

Phase one scans a frame with `search` and phase two with `clean`. They answer alike wherever no
handler is involved, and `clean` can only fail behind a record that phase one stopped at.
-/

namespace Desenredo.Cxx

variable [PointerEncoding] {W E : Type} {M : Matcher W E} {stage : Stage}
  {exception : ExceptionRef} {class_ : ExceptionClass} {lsda : Lsda} {pc : ℕ} {w : W}

/-- A scan stops at a record of a chain: the records before it select nothing and it does. -/
def Stops (M : Matcher W E) (stage : Stage) (exception : ExceptionRef) (class_ : ExceptionClass)
    (lsda : Lsda) (before : List Kind) (kind : Kind) (selector : Selector) (w : W) : Prop :=
  ∃ (cleanup : Bool) (w' w'' : W),
    scanLoop M stage exception class_ lsda (before.map .ok) false w = (.ok (none, cleanup), w') ∧
    outcome M stage exception class_ lsda (.ok kind) w' = (.ok (some selector), w'')

/-- Where both scans succeed they answer alike unless a handler was found. -/
theorem scan_of_clean {action action' : Action}
    (h : (scan M stage exception class_ lsda pc w).1 = .ok action)
    (hclean : clean lsda pc = .ok action') :
    action = action' ∨ ∃ items pad selector, ∃ cleanup : Bool, action = .handler pad selector ∧
      reach lsda pc = .ok (.inr (pad, items)) ∧
      action' = if cleanup then .cleanup pad else .none := by
  by_cases hhandler : ∃ pad selector, action = .handler pad selector
  · obtain ⟨pad, selector, rfl⟩ := hhandler
    obtain ⟨items, -, hreach, -⟩ := scan_eq_handler h
    -- a handler comes from a chain, so `clean` has read the records of the same chain
    obtain hreach' | ⟨pad', items', cleanup, hreach', -, rfl⟩ := clean_eq_ok.1 hclean
    · rw [hreach] at hreach'
      cases hreach'
    · rw [hreach] at hreach'
      cases hreach'
      exact .inr ⟨items, pad, selector, cleanup, rfl, hreach, rfl⟩
  · have hsame := clean_of_scan h fun pad selector heq => hhandler ⟨pad, selector, heq⟩
    rw [hclean] at hsame
    exact .inl (Except.ok.inj hsame).symm

/-- Only a call site that no entry covers terminates, in either phase. -/
theorem scan_eq_terminate :
    (scan M stage exception class_ lsda pc w).1 = .ok .terminate ↔
      clean lsda pc = .ok .terminate := by
  constructor
  · intro h
    exact clean_of_scan h nofun
  · intro h
    obtain hreach | ⟨pad, items, cleanup, -, -, haction⟩ := clean_eq_ok.1 h
    · exact scan_eq_ok.2 (.inl hreach)
    · cases cleanup <;> cases haction

omit [PointerEncoding] in
/-- `clean` fails on a chain at its first malformed record. -/
theorem cleanLoop_eq_error {items : List (Except LsdaError Kind)} {cleanup : Bool}
    {error : CxxError} (h : cleanLoop items cleanup = .error error) :
    ∃ (kinds : List Kind) (error' : LsdaError) (rest : List (Except LsdaError Kind)),
      items = kinds.map .ok ++ .error error' :: rest ∧ error = .parse error' := by
  obtain ⟨kinds, rfl | ⟨error', rest, rfl⟩⟩ := items_cases items
  · rw [cleanLoop_ok] at h
    cases h
  · rw [cleanLoop_error] at h
    exact ⟨kinds, error', rest, rfl, (Except.error.inj h).symm⟩

omit [PointerEncoding] in
/-- The first error of a chain is behind every record that is in front of one. -/
theorem error_behind {before kinds : List Kind} {kind : Kind} {error : LsdaError}
    {after rest : List (Except LsdaError Kind)}
    (h : before.map .ok ++ .ok kind :: after = kinds.map .ok ++ .error error :: rest) :
    ∃ middle : List Kind, after = middle.map .ok ++ .error error :: rest := by
  induction before generalizing kinds with
  | nil =>
    cases kinds with
    | nil => cases h
    | cons kind' kinds => exact ⟨kinds, (List.cons.inj h).2⟩
  | cons kind' before ih =>
    cases kinds with
    | nil => cases h
    | cons kind'' kinds => exact ih (List.cons.inj h).2

/-- Where phase one succeeds `clean` fails only behind the record phase one stopped at. -/
theorem clean_error_of_scan {action : Action} {error : CxxError}
    (h : (scan M stage exception class_ lsda pc w).1 = .ok action)
    (hclean : clean lsda pc = .error error) :
    ∃ (pad : Pad) (selector : Selector) (site : Site) (index : Desenredo.Action) (chain : Chain)
      (before middle : List Kind) (kind : Kind) (error' : LsdaError)
      (after : List (Except LsdaError Kind)),
      action = .handler pad selector ∧ lsda.site pc = .ok (some site) ∧
      site.action = some index ∧ lsda.chain index = .ok chain ∧
      chain.items = before.map .ok ++ .ok kind :: (middle.map .ok ++ .error error' :: after) ∧
      error = .parse error' ∧ Stops M stage exception class_ lsda before kind selector w := by
  by_cases hhandler : ∃ pad selector, action = .handler pad selector
  · obtain ⟨pad, selector, rfl⟩ := hhandler
    obtain ⟨items, found, hreach, hloop⟩ := scan_eq_handler h
    obtain ⟨site, index, chain, hsite, -, hindex, hchain, rfl⟩ := reach_chain.1 hreach
    obtain ⟨before, kind, after, found', w', w'', hitems, hbefore, hselect⟩ :=
      scanLoop_selects hloop
    have hfails : cleanLoop chain.items false = .error error := by
      rw [clean_eq, hreach] at hclean
      cases hclean' : cleanLoop chain.items false with
      | ok cleanup => simp [hclean', Except.map] at hclean
      | error error' => simpa [hclean', Except.map] using hclean
    obtain ⟨kinds, error', rest, hkinds, rfl⟩ := cleanLoop_eq_error hfails
    -- both splits are of one chain, and the record the search stopped at is sound
    obtain ⟨middle, rfl⟩ := error_behind (hitems.symm.trans hkinds)
    exact ⟨pad, selector, site, index, chain, before, middle, kind, error', rest, rfl, hsite,
      hindex, hchain, hitems, rfl, found', w', w'', hbefore, hselect⟩
  · have hsame := clean_of_scan h fun pad selector heq => hhandler ⟨pad, selector, heq⟩
    rw [hclean] at hsame
    cases hsame

/-- **The phases read a frame alike.** Where the search finds no handler `clean` answers the
same; where it finds one `clean` has its landing pad or nothing to do, or fails behind the record
the search stopped at. -/
theorem phases_read_alike (M : Matcher W E) (exception : ExceptionRef) (class_ : ExceptionClass)
    (lsda : Lsda) (pc : ℕ) (w : W) :
    let found := (search M lsda pc exception class_ w).1
    (found = .ok .none → clean lsda pc = .ok .none) ∧
    (∀ pad, found = .ok (.cleanup pad) → clean lsda pc = .ok (.cleanup pad)) ∧
    (found = .ok .terminate ↔ clean lsda pc = .ok .terminate) ∧
    (∀ action pad, found = .ok action → clean lsda pc = .ok (.cleanup pad) →
      action = .cleanup pad ∨ ∃ selector, action = .handler pad selector) ∧
    (∀ action, found = .ok action → clean lsda pc = .ok .none →
      action = .none ∨ ∃ pad selector, action = .handler pad selector) ∧
    (∀ action error, found = .ok action → clean lsda pc = .error error →
      ∃ (pad : Pad) (selector : Selector) (site : Site) (index : Desenredo.Action) (chain : Chain)
        (before middle : List Kind) (kind : Kind) (error' : LsdaError)
        (after : List (Except LsdaError Kind)),
        action = .handler pad selector ∧ lsda.site pc = .ok (some site) ∧
        site.action = some index ∧ lsda.chain index = .ok chain ∧
        chain.items = before.map .ok ++ .ok kind :: (middle.map .ok ++ .error error' :: after) ∧
        error = .parse error' ∧ Stops M .search exception class_ lsda before kind selector w) := by
  refine ⟨fun h => clean_of_scan h nofun, fun pad h => clean_of_scan h nofun, scan_eq_terminate,
    ?_, ?_, fun action error h hclean => clean_error_of_scan h hclean⟩
  · intro action pad h hclean
    obtain rfl | ⟨items, pad', selector, cleanup, rfl, -, haction⟩ := scan_of_clean h hclean
    · exact .inl rfl
    · cases cleanup <;> cases haction
      exact .inr ⟨selector, rfl⟩
  · intro action h hclean
    obtain rfl | ⟨items, pad, selector, cleanup, rfl, -, -⟩ := scan_of_clean h hclean
    · exact .inl rfl
    · exact .inr ⟨pad, selector, rfl⟩

end Desenredo.Cxx
