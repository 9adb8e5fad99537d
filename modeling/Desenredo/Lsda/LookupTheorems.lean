import Desenredo.Lsda.TableTheorems

/-!
# Call-site lookup

The entry `Lsda.site` finds covers the program counter, and an entry in front of it that cannot
be decoded or whose range overflows is an error. On entries in the order compilers emit, nothing
is missed by stopping at the first entry past the program counter.
-/

namespace Desenredo

open Usize

variable [PointerEncoding] {lsda : Lsda} {pc : ℕ}

/-- The range of an entry contains a function-relative program counter. -/
def Site.Covers (site : Site) (pc : ℕ) : Prop := site.start ≤ pc ∧ pc < site.start + site.size

instance (site : Site) (pc : ℕ) : Decidable (site.Covers pc) := by
  unfold Site.Covers
  infer_instance

/-- A lookup goes on behind an entry: its range does not overflow and ends at or before the
program counter. -/
def Site.Passed (pc : ℕ) (site : Site) : Prop :=
  site.start + site.size < Usize.size ∧ site.start ≤ pc ∧ ¬site.Covers pc

/-- A lookup fails at an item with an error. -/
def FailsAt (item : Except LsdaError Site) (error : LsdaError) : Prop :=
  item = .error error ∨
    ∃ site, item = .ok site ∧ size ≤ site.start + site.size ∧ error = .overflow

namespace Lsda

variable {site : Site} {rest : List (Except LsdaError Site)}

/-! ## One entry -/

omit [PointerEncoding] in
theorem siteLoop_covers (hfits : site.start + site.size < size) (hcovers : site.Covers pc) :
    siteLoop pc (.ok site :: rest) = .ok (some site) := by
  have hend : checkedAdd site.start site.size = some (site.start + site.size) := if_pos hfits
  simp only [siteLoop, Except.bind_ok, hend, Option.okOr_some]
  exact if_pos hcovers

omit [PointerEncoding] in
theorem siteLoop_before (hfits : site.start + site.size < size) (hbefore : pc < site.start) :
    siteLoop pc (.ok site :: rest) = .ok none := by
  have hend : checkedAdd site.start site.size = some (site.start + site.size) := if_pos hfits
  simp only [siteLoop, Except.bind_ok, hend, Option.okOr_some]
  rw [if_neg (fun h => absurd h.1 (by omega)), if_pos hbefore]

omit [PointerEncoding] in
theorem siteLoop_passed (hpassed : site.Passed pc) :
    siteLoop pc (.ok site :: rest) = siteLoop pc rest := by
  obtain ⟨hfits, hle, hcovers⟩ := hpassed
  have hend : checkedAdd site.start site.size = some (site.start + site.size) := if_pos hfits
  simp only [siteLoop, Except.bind_ok, hend, Option.okOr_some]
  rw [if_neg (show ¬(site.start ≤ pc ∧ pc < site.start + site.size) from hcovers),
    if_neg (by omega)]

omit [PointerEncoding] in
theorem siteLoop_fails {item : Except LsdaError Site} {error : LsdaError}
    (h : FailsAt item error) : siteLoop pc (item :: rest) = .error error := by
  rcases h with rfl | ⟨site, rfl, hlarge, rfl⟩
  · rfl
  · have hend : checkedAdd site.start site.size = none := if_neg (by omega)
    simp only [siteLoop, Except.bind_ok, hend, Option.okOr_none]
    rfl

omit [PointerEncoding] in
/-- What a lookup does at one item. -/
theorem item_cases (pc : ℕ) (item : Except LsdaError Site) :
    (∃ error, FailsAt item error) ∨
      ∃ site, item = .ok site ∧ (site.start + site.size < size ∧ site.Covers pc ∨
        site.start + site.size < size ∧ pc < site.start ∨ site.Passed pc) := by
  cases item with
  | error error => exact .inl ⟨error, .inl rfl⟩
  | ok site =>
    by_cases hfits : site.start + site.size < size
    · refine .inr ⟨site, rfl, ?_⟩
      by_cases hcovers : site.Covers pc
      · exact .inl ⟨hfits, hcovers⟩
      · by_cases hbefore : pc < site.start
        · exact .inr (.inl ⟨hfits, hbefore⟩)
        · exact .inr (.inr ⟨hfits, by omega, hcovers⟩)
    · exact .inl ⟨.overflow, .inr ⟨site, rfl, by omega, rfl⟩⟩

/-! ## All entries -/

omit [PointerEncoding] in
/-- The entry a lookup finds covers the program counter. -/
theorem siteLoop_eq_some {items : List (Except LsdaError Site)}
    (h : siteLoop pc items = .ok (some site)) : .ok site ∈ items ∧ site.Covers pc := by
  induction items with
  | nil => cases h
  | cons item rest ih =>
    obtain ⟨error, hfails⟩ | ⟨found, rfl, ⟨hfits, hcovers⟩ | ⟨hfits, hbefore⟩ | hpassed⟩ :=
      item_cases pc item
    · rw [siteLoop_fails hfails] at h
      cases h
    · rw [siteLoop_covers hfits hcovers] at h
      cases h
      exact ⟨List.mem_cons_self, hcovers⟩
    · rw [siteLoop_before hfits hbefore] at h
      cases h
    · rw [siteLoop_passed hpassed] at h
      exact ⟨List.mem_cons_of_mem _ (ih h).1, (ih h).2⟩

omit [PointerEncoding] in
/-- A lookup fails at the first item it cannot go past. -/
theorem siteLoop_eq_error {items : List (Except LsdaError Site)} {error : LsdaError} :
    siteLoop pc items = .error error ↔
      ∃ (before : List Site) (item : Except LsdaError Site) (rest : List (Except LsdaError Site)),
        items = before.map .ok ++ item :: rest ∧ (∀ site ∈ before, site.Passed pc) ∧
        FailsAt item error := by
  constructor
  · intro h
    induction items with
    | nil => cases h
    | cons item rest ih =>
      obtain ⟨error', hfails⟩ | ⟨found, rfl, ⟨hfits, hcovers⟩ | ⟨hfits, hbefore⟩ | hpassed⟩ :=
        item_cases pc item
      · rw [siteLoop_fails hfails] at h
        cases h
        exact ⟨[], item, rest, rfl, by simp, hfails⟩
      · rw [siteLoop_covers hfits hcovers] at h
        cases h
      · rw [siteLoop_before hfits hbefore] at h
        cases h
      · rw [siteLoop_passed hpassed] at h
        obtain ⟨before, item', rest', rfl, hbefore, hfails⟩ := ih h
        exact ⟨found :: before, item', rest', rfl, List.forall_mem_cons.2 ⟨hpassed, hbefore⟩,
          hfails⟩
  · rintro ⟨before, item, rest, rfl, hbefore, hfails⟩
    induction before with
    | nil => exact siteLoop_fails hfails
    | cons found before ih =>
      obtain ⟨hpassed, hbefore⟩ := List.forall_mem_cons.1 hbefore
      rw [List.map_cons, List.cons_append, siteLoop_passed hpassed]
      exact ih hbefore

omit [PointerEncoding] in
/-- On sorted entries a lookup finds the first that covers the program counter. -/
theorem siteLoop_sorted {sites : List Site}
    (hsorted : sites.Pairwise fun s t => s.start ≤ t.start)
    (hfits : ∀ site ∈ sites, site.start + site.size < size) :
    siteLoop pc (sites.map .ok) = .ok (sites.find? (·.Covers pc)) := by
  induction sites with
  | nil => rfl
  | cons found sites ih =>
    obtain ⟨hle, hsorted⟩ := List.pairwise_cons.1 hsorted
    obtain ⟨hfound, hfits⟩ := List.forall_mem_cons.1 hfits
    rw [List.map_cons]
    by_cases hcovers : found.Covers pc
    · rw [siteLoop_covers hfound hcovers, List.find?_cons_of_pos (by simpa using hcovers)]
    · rw [List.find?_cons_of_neg (by simpa using hcovers)]
      by_cases hbefore : pc < found.start
      · -- every later entry starts past the program counter too
        have hnone : sites.find? (·.Covers pc) = none := by
          rw [List.find?_eq_none]
          intro later hlater
          have hstart := hle later hlater
          simp only [decide_eq_true_eq]
          intro hcovers'
          have hcovers' : later.start ≤ pc := hcovers'.1
          omega
        rw [siteLoop_before hfound hbefore, hnone]
      · rw [siteLoop_passed ⟨hfound, by omega, hcovers⟩]
        exact ih hsorted hfits

/-! ## Tables -/

theorem site_eq_ok {found : Option Site} :
    lsda.site pc = .ok found ↔ lsda.bases.function ≤ pc ∧
      siteLoop (pc - lsda.bases.function) lsda.sites.items = .ok found := by
  simp only [Lsda.site, Except.bind_eq_ok_iff, Option.okOr_eq_ok, checkedSub_eq_some]
  constructor
  · rintro ⟨_, ⟨hle, rfl⟩, h⟩
    exact ⟨hle, h⟩
  · rintro ⟨hle, h⟩
    exact ⟨_, ⟨hle, rfl⟩, h⟩

theorem site_eq_error {error : LsdaError} :
    lsda.site pc = .error error ↔ pc < lsda.bases.function ∧ error = .table ∨
      lsda.bases.function ≤ pc ∧
        siteLoop (pc - lsda.bases.function) lsda.sites.items = .error error := by
  by_cases hle : lsda.bases.function ≤ pc
  · have hsub : checkedSub pc lsda.bases.function = some (pc - lsda.bases.function) := if_pos hle
    simp only [Lsda.site, hsub, Option.okOr_some, Except.bind_ok, hle, true_and]
    exact (or_iff_right fun h => absurd h.1 (by omega)).symm
  · have hsub : checkedSub pc lsda.bases.function = none := if_neg hle
    simp only [Lsda.site, hsub, Option.okOr_none, Except.bind_error, Except.error.injEq]
    constructor
    · rintro rfl
      exact .inl ⟨by omega, rfl⟩
    · rintro (⟨-, rfl⟩ | ⟨hle', -⟩)
      · rfl
      · exact absurd hle' hle

/-- An iterator never yields the error of a malformed table. -/
theorem items_ne_table {s : Sites} : .error .table ∉ s.items := by
  intro h
  obtain ⟨k, hk⟩ := List.mem_iff_getElem?.1 h
  rw [← Sites.yields_items s k, Iter.call_eq] at hk
  unfold Sites.next at hk
  split at hk
  · cases hk
  · split at hk
    · cases hk
    · rename_i error hread
      cases hk
      exact callSite_raises _ _ _ hread rfl

/-- The error of a malformed table means that the program counter lies in front of the
function. -/
theorem site_eq_table : lsda.site pc = .error .table ↔ pc < lsda.bases.function := by
  rw [site_eq_error]
  constructor
  · rintro (⟨hlt, -⟩ | ⟨-, hloop⟩)
    · exact hlt
    · obtain ⟨before, item, rest, hitems, -, hfails⟩ := siteLoop_eq_error.1 hloop
      obtain rfl | ⟨_, -, -, hoverflow⟩ := hfails
      · refine absurd ?_ (@items_ne_table _ lsda.sites)
        rw [hitems]
        exact List.mem_append_right _ List.mem_cons_self
      · cases hoverflow
  · exact fun hlt => .inl ⟨hlt, rfl⟩

/-! ## Landing pads -/

omit [PointerEncoding] in
/-- No entry has its landing pad at address zero. -/
theorem landingPad_ne_zero {landing addr : ℕ} (h : lsda.landingPad landing = .ok (some addr)) :
    addr ≠ 0 := by
  cases landing with
  | zero => cases h
  | succ landing =>
    obtain ⟨sum, hsum, heq⟩ := Except.map_eq_ok.1 h
    obtain ⟨-, rfl⟩ := checkedAdd_eq_some.1 (Option.okOr_eq_ok.1 hsum)
    obtain rfl := Option.some.inj heq
    omega

theorem items_land {s : Sites} {addr : ℕ} (h : .ok site ∈ s.items)
    (hland : site.land = some addr) : addr ≠ 0 := by
  obtain ⟨k, hk⟩ := List.mem_iff_getElem?.1 h
  rw [← Sites.yields_items s k, Iter.call_eq] at hk
  unfold Sites.next at hk
  split at hk
  · cases hk
  · split at hk
    · rename_i rest found hread
      obtain rfl := Except.ok.inj (Option.some.inj hk)
      rw [callSite_eq] at hread
      -- the three fields in front of the action say nothing about the pad
      obtain ⟨_, start, -, hread⟩ := Parser.andThen_eq_ok.1 hread
      obtain ⟨_, length, -, hread⟩ := Parser.andThen_eq_ok.1 hread
      obtain ⟨_, landing, -, hread⟩ := Parser.andThen_eq_ok.1 hread
      obtain ⟨action, -, hentry⟩ := Parser.refine_eq_ok.1 hread
      obtain ⟨land, hland', heq⟩ := Except.bind_eq_ok_iff.1 hentry
      obtain rfl := Except.ok.inj heq
      exact landingPad_ne_zero (hland'.trans (congrArg _ hland))
    · cases hk

/-- The call site a lookup finds has no landing pad at address zero. -/
theorem site_land {addr : ℕ} (h : lsda.site pc = .ok (some site)) (hland : site.land = some addr) :
    addr ≠ 0 :=
  items_land (siteLoop_eq_some (site_eq_ok.1 h).2).1 hland

end Lsda

end Desenredo
