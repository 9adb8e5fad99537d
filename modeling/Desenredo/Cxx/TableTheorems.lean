import Desenredo.Cxx.ScanTheorems
import Desenredo.Lsda.RoundTripTheorems

/-!
# C++ tables mean what they say

A scan of a written table selects the first purpose of the covering range that takes the exception,
for every matcher that decides clauses by the types of the exception.
-/

namespace Desenredo

namespace ExceptionTable

variable (T : ExceptionTable)

/-- A purpose takes an exception of the types `is`. -/
def takes (indirect : Bool) (is : Target → Bool) : Purpose → Bool
  | .cleanup => false
  | .catch type => is (T.target indirect type)
  | .filter specification =>
    ((T.specifications.getD specification []).map (T.target indirect)).all fun type => !is type

/-- What C++ does in a range, for an exception that some purposes take: the first of them has the
landing pad, else the cleanups have it. -/
def cxxRange (landingBase : ℕ) (takes : Purpose → Bool) (region : Region) : Cxx.Action :=
  if h : region.landing = 0 then .none
  else
    let pad : Cxx.Pad := ⟨Region.pad landingBase h⟩
    match region.action with
    | none => .cleanup pad
    | some i =>
      match (T.purposes i).find? takes with
      | some purpose => .handler pad ⟨T.discriminator purpose⟩
      | none => if .cleanup ∈ T.purposes i then .cleanup pad else .none

/-- What C++ does at an offset of the function. -/
def cxxAction (landingBase : ℕ) (takes : Purpose → Bool) (offset : ℕ) : Cxx.Action :=
  match T.region offset with
  | none => .terminate
  | some region => T.cxxRange landingBase takes region

variable {T} {landingBase offset : ℕ}

/-- Where nothing takes an exception, the clauses make no difference. -/
theorem cxxAction_of_not_handler (takes : Purpose → Bool)
    (h : ∀ pad selector, T.cxxAction landingBase takes offset ≠ .handler pad selector) :
    T.cxxAction landingBase (fun _ => false) offset = T.cxxAction landingBase takes offset := by
  rw [cxxAction, cxxAction] at *
  cases hregion : T.region offset with
  | none => rfl
  | some region =>
    rw [hregion] at h
    dsimp only at h ⊢
    rw [cxxRange, cxxRange] at *
    by_cases hland : region.landing = 0
    · rw [dif_pos hland, dif_pos hland]
    · rw [dif_neg hland] at h ⊢
      rw [dif_neg hland]
      cases haction : region.action with
      | none => rfl
      | some i =>
        rw [haction] at h
        have hnone : (T.purposes i).find? (fun _ => false) = none :=
          List.find?_eq_none.2 fun _ _ => Bool.false_ne_true
        cases hfind : (T.purposes i).find? takes with
        | none => simp only [hnone, hfind]
        | some purpose => exact absurd (by simp only [hfind]; rfl) (h _ _)

/-- What nothing takes is not handled. -/
theorem cxxAction_ne_handler {pad : Cxx.Pad} {selector : Selector} :
    T.cxxAction landingBase (fun _ => false) offset ≠ .handler pad selector := by
  rw [cxxAction]
  cases T.region offset with
  | none => exact Cxx.Action.noConfusion
  | some region =>
    dsimp only
    rw [cxxRange]
    split
    · exact Cxx.Action.noConfusion
    · cases region.action with
      | none => exact Cxx.Action.noConfusion
      | some i =>
        have hnone : (T.purposes i).find? (fun _ => false) = none :=
          List.find?_eq_none.2 fun _ _ => Bool.false_ne_true
        simp only [hnone]
        split <;> exact Cxx.Action.noConfusion

end ExceptionTable

namespace Cxx

section

variable [PointerEncoding] {W E : Type}

/-- A matcher accepts a catch clause for the types of an exception, and a specification none of
whose types is one of them. -/
structure Matcher.Decides (M : Matcher W E) (exception : ExceptionRef) (class_ : ExceptionClass)
    (lsda : Lsda) (is : Target → Bool) : Prop where
  catch_ : ∀ stage c selector w,
    (M.test stage exception class_ lsda (.catch c) selector w).1 = .ok (is c.target)
  filter : ∀ stage index allowed selector w,
    lsda.provision (.filter index) = .ok (.filter allowed) →
    (M.test stage exception class_ lsda (.filter index) selector w).1 =
      .ok (allowed.all fun type => !is type)

variable {M : Matcher W E} {stage : Stage} {exception : ExceptionRef} {class_ : ExceptionClass}
  {lsda : Lsda} {T : ExceptionTable} {landingBase pc : ℕ} {indirect : Bool} {is : Target → Bool}

omit [PointerEncoding] in
/-- A clause whose number fits is tested. -/
theorem test_eq {clause : Clause} {selector : Selector} {matched : Bool} {w : W}
    (hselector : clause.selector = .ok selector)
    (htest : (M.test stage exception class_ lsda clause selector w).1 = .ok matched) :
    (clause.test M stage exception class_ lsda w).1 =
      .ok (if matched then some selector else none) := by
  rw [Clause.test, hselector]
  dsimp only
  cases hanswer : M.test stage exception class_ lsda clause selector w with
  | mk answer w' =>
    rw [hanswer] at htest
    obtain rfl : answer = .ok matched := htest
    rfl

/-- A record contributes its number if its purpose takes the exception. -/
theorem outcome_obeys (stage : Stage) (h : lsda.Says T landingBase indirect)
    (hM : M.Decides exception class_ lsda is) {purpose : Purpose}
    (hwithin : purpose.Within T.types.length T.specifications.length) (w : W) :
    (outcome M stage exception class_ lsda (.ok (T.kind purpose)) w).1 =
      .ok (if T.takes indirect is purpose then some ⟨T.discriminator purpose⟩ else none) := by
  have hnumber := h.numbers purpose hwithin
  have hprovision := h.provision hwithin
  cases purpose with
  | cleanup => rfl
  | «catch» type =>
    obtain ⟨types, htypes, hget⟩ := Except.bind_eq_ok_iff.1 (h.types type hwithin)
    have hsome : lsda.types = some types := Option.okOr_eq_ok.1 htypes
    have hclause : Clause.ofCatch lsda (.ofPlace type) =
        .ok (.catch ⟨.ofPlace type, T.target indirect type⟩) := by
      simp only [Clause.ofCatch, hsome, Option.okOr_some, Except.bind_ok, hget, Except.mapError]
    have hselector : (Clause.catch ⟨.ofPlace type, T.target indirect type⟩).selector =
        .ok ⟨T.discriminator (.catch type)⟩ := by
      rw [ExceptionTable.discriminator, Usize.maxSlice] at hnumber
      rw [ExceptionTable.discriminator]
      exact if_pos (show type + 1 ≤ Isize.max by rw [Isize.max]; omega)
    simp only [outcome, ExceptionTable.kind, hclause]
    exact test_eq hselector (hM.catch_ stage _ _ w)
  | filter specification =>
    have hselector : (Clause.filter (T.filter specification)).selector =
        .ok ⟨T.discriminator (.filter specification)⟩ := by
      rw [ExceptionTable.discriminator, Usize.maxSlice] at hnumber
      rw [ExceptionTable.discriminator]
      exact if_pos (show T.specificationIndex specification ≤ Isize.max by rw [Isize.max]; omega)
    exact test_eq hselector (hM.filter stage _ _ _ w hprovision)

omit [PointerEncoding] in
theorem isCleanup_kind (T : ExceptionTable) (purpose : Purpose) :
    isCleanup (.ok (T.kind purpose)) = decide (purpose = .cleanup) := by
  cases purpose <;> rfl

/-- The loop of a scan selects the first purpose that takes the exception, and has met every
cleanup if there is none. -/
theorem scanLoop_obeys (stage : Stage) (h : lsda.Says T landingBase indirect)
    (hM : M.Decides exception class_ lsda is) {purposes : List Purpose}
    (hwithin : ∀ purpose ∈ purposes, purpose.Within T.types.length T.specifications.length)
    (cleanup : Bool) (w : W) :
    ∃ found, (scanLoop M stage exception class_ lsda
        (purposes.map fun purpose => .ok (T.kind purpose)) cleanup w).1 =
      .ok ((purposes.find? (T.takes indirect is)).map fun purpose => ⟨T.discriminator purpose⟩,
        found) ∧
      (purposes.find? (T.takes indirect is) = none →
        found = (cleanup || decide (Purpose.cleanup ∈ purposes))) := by
  induction purposes generalizing cleanup w with
  | nil => exact ⟨cleanup, rfl, fun _ => by simp⟩
  | cons purpose purposes ih =>
    obtain ⟨hpurpose, hrest⟩ := List.forall_mem_cons.1 hwithin
    have houtcome := outcome_obeys stage h hM hpurpose w
    rw [List.map_cons, scanLoop_cons, isCleanup_kind]
    cases hread : outcome M stage exception class_ lsda (.ok (T.kind purpose)) w with
    | mk result w' =>
      rw [hread] at houtcome
      obtain rfl := houtcome
      cases htakes : T.takes indirect is purpose with
      | true =>
        rw [List.find?_cons_of_pos htakes]
        exact ⟨_, rfl, nofun⟩
      | false =>
        rw [List.find?_cons_of_neg (by rw [htakes]; exact Bool.false_ne_true)]
        obtain ⟨found, hloop, hfound⟩ := ih hrest (cleanup || decide (purpose = .cleanup)) w'
        refine ⟨found, hloop, fun hnone => ?_⟩
        rw [hfound hnone, Bool.or_assoc]
        congr 1
        rw [← Bool.decide_or, decide_eq_decide, List.mem_cons]
        exact or_congr_left eq_comm

/-- Where a scan of a table gets to before it reads a record. -/
theorem reach_obeys (h : lsda.Says T landingBase indirect) (hordered : T.Ordered)
    (hpc : lsda.bases.function ≤ pc) :
    (∃ action, reach lsda pc = .ok (.inl action) ∧
      ∀ takes, T.cxxAction landingBase takes (pc - lsda.bases.function) = action) ∨
      ∃ region i pad, T.region (pc - lsda.bases.function) = some region ∧
        region.action = some i ∧ i < T.nodes.length ∧
        reach lsda pc =
          .ok (.inr (pad, (T.purposes i).map fun purpose => .ok (T.kind purpose))) ∧
        ∀ takes, T.cxxAction landingBase takes (pc - lsda.bases.function) =
          match (T.purposes i).find? takes with
          | some purpose => .handler pad ⟨T.discriminator purpose⟩
          | none => if .cleanup ∈ T.purposes i then .cleanup pad else .none := by
  simp only [reach, h.site hordered hpc, ExceptionTable.cxxAction]
  cases hregion : T.region (pc - lsda.bases.function) with
  | none => exact .inl ⟨_, rfl, fun _ => rfl⟩
  | some region =>
    have hmem : region ∈ T.regions := List.mem_of_find?_eq_some hregion
    simp only [Option.map_some, Except.mapError, Except.bind_ok, ExceptionTable.site,
      ExceptionTable.cxxRange]
    by_cases hland : region.landing = 0
    · simp only [hland, if_true, dif_pos]
      exact .inl ⟨_, rfl, fun _ => rfl⟩
    · have hpad : Pad.new (landingBase + region.landing) = .ok ⟨Region.pad landingBase hland⟩ :=
        pad_new_eq_ok.2 rfl
      simp only [hland, if_false, dif_neg, not_false_eq_true, hpad, Except.bind_ok]
      cases haction : region.action with
      | none => exact .inl ⟨_, rfl, fun _ => rfl⟩
      | some i =>
        have hi := T.acted region hmem i haction
        obtain ⟨chain, hchain, hyields⟩ := h.chains i hi
        have hitems := (Chain.yields_items chain).unique hyields
        refine .inr ⟨region, i, ⟨Region.pad landingBase hland⟩, rfl, haction, hi, ?_, ?_⟩
        · simp only [Option.map_some, hchain, Except.bind_ok, hitems]
        · intro takes
          rfl

/-- A scan of a table finds what the table says. -/
theorem scan_obeys (stage : Stage) (h : lsda.Says T landingBase indirect) (hordered : T.Ordered)
    (hM : M.Decides exception class_ lsda is) (hpc : lsda.bases.function ≤ pc) (w : W) :
    (scan M stage exception class_ lsda pc w).1 =
      .ok (T.cxxAction landingBase (T.takes indirect is) (pc - lsda.bases.function)) := by
  rw [scan_eq]
  obtain ⟨action, hreach, haction⟩ | ⟨region, i, pad, -, -, hi, hreach, haction⟩ :=
    reach_obeys h hordered hpc
  · rw [hreach, haction]
  · obtain ⟨found, hloop, hfound⟩ := scanLoop_obeys stage h hM
      (ExceptionTable.purposes_within hi) false w
    rw [hreach, haction]
    dsimp only
    cases hresult : scanLoop M stage exception class_ lsda
        ((T.purposes i).map fun purpose => .ok (T.kind purpose)) false w with
    | mk result w' =>
      rw [hresult] at hloop
      obtain rfl := hloop
      cases hfind : (T.purposes i).find? (T.takes indirect is) with
      | some purpose => rfl
      | none =>
        rw [hfound hfind, Bool.false_or]
        by_cases hcleanup : Purpose.cleanup ∈ T.purposes i <;>
          simp [hcleanup, Action.ofScan]

/-- Looking for cleanup work passes over the clauses. -/
theorem clean_obeys (h : lsda.Says T landingBase indirect) (hordered : T.Ordered)
    (hpc : lsda.bases.function ≤ pc) :
    clean lsda pc =
      .ok (T.cxxAction landingBase (fun _ => false) (pc - lsda.bases.function)) := by
  rw [clean_eq]
  obtain ⟨action, hreach, haction⟩ | ⟨region, i, pad, -, -, -, hreach, haction⟩ :=
    reach_obeys h hordered hpc
  · rw [hreach, haction]
  · have hmap : ((T.purposes i).map fun purpose => .ok (T.kind purpose)) =
        ((T.purposes i).map T.kind).map (.ok : Kind → Except LsdaError Kind) := by
      rw [List.map_map]
      rfl
    have hcleanup : Kind.cleanup ∈ (T.purposes i).map T.kind ↔ Purpose.cleanup ∈ T.purposes i := by
      rw [List.mem_map]
      constructor
      · rintro ⟨purpose, hpurpose, hkind⟩
        cases purpose with
        | cleanup => exact hpurpose
        | «catch» type => cases hkind
        | filter specification => cases hkind
      · exact fun hmem => ⟨_, hmem, rfl⟩
    have hnone : (T.purposes i).find? (fun _ => false) = none :=
      List.find?_eq_none.2 fun _ _ => Bool.false_ne_true
    rw [hreach, haction, hnone]
    dsimp only
    rw [hmap, cleanLoop_ok, Bool.false_or]
    by_cases hmem : Purpose.cleanup ∈ T.purposes i <;> simp [hcleanup, hmem, Except.map]

/-- Scans fail below the function. -/
theorem reach_below (hpc : pc < lsda.bases.function) : reach lsda pc = .error (.parse .table) := by
  rw [reach, Lsda.site_eq_table.2 hpc]
  rfl

/-- **C++ tables.** For every exception whose types a matcher decides by, both scans of a written
table whose ranges are in order and end inside the address space find the first purpose of the
covering range that takes the exception, with its landing pad and number; where none takes it they
find what looking for cleanup work finds. Below the function they fail. -/
theorem scans_obey_table (hstandard : PointerEncoding.Standard) {F : TableEncoding} {bases : Bases}
    {gap tail : List UInt8} (hfits : F.Fits T bases gap tail) (hordered : T.Ordered) :
    ∃ lsda, Lsda.new (F.write T bases gap tail) bases F.endian = .ok lsda ∧
      (∀ pc, pc < bases.function → clean lsda pc = .error (.parse .table) ∧
        ∀ (M : Matcher W E) (stage : Stage) (exception : ExceptionRef) (class_ : ExceptionClass)
          (w : W), scan M stage exception class_ lsda pc w =
            (.error (.metadata (.parse .table)), w)) ∧
      ∀ pc, bases.function ≤ pc →
        clean lsda pc = .ok (T.cxxAction (F.landingBase bases) (fun _ => false)
          (pc - bases.function)) ∧
        ∀ (M : Matcher W E) (exception : ExceptionRef) (class_ : ExceptionClass)
          (is : Target → Bool), M.Decides exception class_ lsda is → ∀ w,
          let action := T.cxxAction (F.landingBase bases)
            (T.takes F.types.encoding.isIndirect is) (pc - bases.function)
          (search M lsda pc exception class_ w).1 = .ok action ∧
            (handler M lsda pc exception class_ w).1 = .ok action := by
  have hsays := TableEncoding.says_write hstandard hfits
  refine ⟨_, TableEncoding.new_write hstandard hfits, fun pc hpc => ⟨?_, ?_⟩,
    fun pc hpc => ⟨?_, ?_⟩⟩
  · rw [clean_eq, reach_below hpc]
  · intro M stage exception class_ w
    rw [scan_eq, reach_below hpc]
  · exact clean_obeys hsays hordered hpc
  · intro M exception class_ is hM w
    exact ⟨scan_obeys .search hsays hordered hM hpc w, scan_obeys .handler hsays hordered hM hpc w⟩

/-- The matcher of exceptions of some types. -/
def Matcher.ofTypes (is : Target → Bool) : Matcher W E where
  test _ _ _ lsda clause _ w :=
    match clause with
    | .catch c => (.ok (is c.target), w)
    | .filter index =>
      match lsda.provision (.filter index) with
      | .ok (.filter allowed) => (.ok (allowed.all fun type => !is type), w)
      | _ => (.ok false, w)

theorem Matcher.ofTypes_decides (is : Target → Bool) (exception : ExceptionRef)
    (class_ : ExceptionClass) (lsda : Lsda) :
    (Matcher.ofTypes is : Matcher W E).Decides exception class_ lsda is where
  catch_ _ _ _ _ := rfl
  filter _ index allowed _ _ h := by simp only [ofTypes, h]

end

/-- A handler behind a specification that allows its type. -/
theorem scans_obey_table_nested :
    let _ : PointerEncoding := .bits
    ∃ lsda, Lsda.new (TableEncoding.relative.write .nested (.new 0x1000 0x2000) [0x00] [0x07])
        (.new 0x1000 0x2000) .little = .ok lsda ∧
      clean lsda 0x2006 = .ok (.cleanup ⟨0x2048, by decide⟩) ∧
      (search (.ofTypes (fun type => type.addr = 0x6000) : Matcher Unit Unit) lsda 0x2006
        ⟨4096, fun _ => 7⟩ ⟨7⟩ ()).1 = .ok (.handler ⟨0x2048, by decide⟩ ⟨2⟩) := by
  let _ : PointerEncoding := .bits
  obtain ⟨lsda, hnew, -, hscan⟩ := scans_obey_table (W := Unit) (E := Unit)
    PointerEncoding.standard_bits TableEncoding.relative_fits_nested ⟨by decide, by decide⟩
  obtain ⟨hclean, hsearch⟩ := hscan 0x2006 (by decide)
  have hdecides := Matcher.ofTypes_decides (W := Unit) (E := Unit)
    (fun type => type.addr = 0x6000) ⟨4096, fun _ => 7⟩ ⟨7⟩ lsda
  exact ⟨lsda, hnew, hclean.trans rfl, (hsearch _ _ _ _ hdecides ()).1.trans rfl⟩

end Cxx

end Desenredo
