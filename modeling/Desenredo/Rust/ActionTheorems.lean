import Desenredo.Lsda.LookupTheorems
import Desenredo.Rust.Action

/-!
# Rust scans

What the action of a Rust call site says about the site.
-/

namespace Desenredo.Rust

theorem pad_new_eq_ok {addr : ℕ} {pad : Pad} : Pad.new addr = .ok pad ↔ addr = pad.addr.val := by
  obtain ⟨value⟩ := pad
  simp only [Pad.new, Option.okOr_eq_ok, Option.map_eq_some_iff, Pad.mk.injEq, exists_eq_right,
    NonZeroUsize.new_eq_some]

/-- The landing pad of an action, when it has one. -/
def Action.pad : Action → Option Pad
  | .cleanup pad | .catch pad | .filter pad => some pad
  | .none | .terminate => .none

theorem Action.pad_ofKind (pad : Pad) (kind : Kind) : (Action.ofKind pad kind).pad = some pad := by
  cases kind <;> rfl

theorem Action.ofKind_ne_terminate (pad : Pad) (kind : Kind) :
    Action.ofKind pad kind ≠ .terminate := by
  cases kind <;> simp [Action.ofKind]

section

variable [PointerEncoding] {lsda : Lsda} {pc : ℕ}

/-- A scan answers with the landing pad of the covering call site, and terminates when there is
no such site. -/
theorem scan_eq_ok {action : Action} (h : scan lsda pc = .ok action) :
    (action = .terminate ∧ lsda.site pc = .ok none) ∨
      ∃ site, lsda.site pc = .ok (some site) ∧ action ≠ .terminate ∧
        ∀ pad, action.pad = some pad → site.land = some pad.addr.val := by
  obtain ⟨found, hsite, h⟩ := Except.bind_eq_ok_iff.1 h
  rw [Except.mapError_eq_ok] at hsite
  cases found with
  | none =>
    cases h
    exact .inl ⟨rfl, hsite⟩
  | some site =>
    refine .inr ⟨site, hsite, ?_⟩
    dsimp only at h
    split at h
    · cases h
      exact ⟨by simp, by simp [Action.pad]⟩
    · rename_i addr hland
      obtain ⟨pad, hpad, h⟩ := Except.bind_eq_ok_iff.1 h
      rw [pad_new_eq_ok.1 hpad] at hland
      split at h
      · cases h
        refine ⟨by simp, fun pad' hpad' => ?_⟩
        rw [hland, Option.some.inj hpad']
      · obtain ⟨chain, -, h⟩ := Except.bind_eq_ok_iff.1 h
        split at h
        · cases h
        · obtain ⟨kind, -, h⟩ := Except.bind_eq_ok_iff.1 h
          obtain rfl := Except.ok.inj h
          refine ⟨Action.ofKind_ne_terminate pad kind, fun pad' hpad' => ?_⟩
          rw [Action.pad_ofKind] at hpad'
          rw [hland, Option.some.inj hpad']

/-- A scan terminates exactly where no call site covers the program counter. -/
theorem scan_eq_terminate : scan lsda pc = .ok .terminate ↔ lsda.site pc = .ok none := by
  constructor
  · intro h
    rcases scan_eq_ok h with ⟨-, hsite⟩ | ⟨site, -, hne, -⟩
    · exact hsite
    · exact absurd rfl hne
  · intro h
    simp only [scan, h, Except.mapError, Except.bind_ok]

/-- **Lookup.** On a table in the order compilers emit, the lookup finds the first entry that
covers the program counter, and the scan terminates exactly where none does. On any table an entry
it finds covers the program counter, and it fails for a program counter below the function or at
the first entry it can neither decode nor go past. -/
theorem lookup_finds_covering (lsda : Lsda) (pc : ℕ) :
    (∀ sites : List Site, Iter.Yields Sites.next lsda.sites (sites.map .ok) →
      (sites.Pairwise fun s t => s.start ≤ t.start) →
      (∀ site ∈ sites, site.start + site.size < Usize.size) → lsda.bases.function ≤ pc →
      lsda.site pc = .ok (sites.find? (·.Covers (pc - lsda.bases.function))) ∧
      (scan lsda pc = .ok .terminate ↔
        ∀ site ∈ sites, ¬site.Covers (pc - lsda.bases.function))) ∧
    (∀ site, lsda.site pc = .ok (some site) → .ok site ∈ lsda.sites.items ∧
      lsda.bases.function ≤ pc ∧ site.Covers (pc - lsda.bases.function)) ∧
    (∀ error, lsda.site pc = .error error ↔
      pc < lsda.bases.function ∧ error = .table ∨
      lsda.bases.function ≤ pc ∧ ∃ (before : List Site) (item : Except LsdaError Site)
        (rest : List (Except LsdaError Site)),
        lsda.sites.items = before.map .ok ++ item :: rest ∧
        (∀ site ∈ before, site.Passed (pc - lsda.bases.function)) ∧ FailsAt item error) := by
  refine ⟨fun sites hyields hsorted hfits hle => ?_, fun site hsite => ?_, fun error => ?_⟩
  -- a table that decodes throughout has these entries and no error
  · have hitems : lsda.sites.items = sites.map .ok :=
      (Sites.yields_items lsda.sites).unique hyields
    have hsite : lsda.site pc = .ok (sites.find? (·.Covers (pc - lsda.bases.function))) := by
      rw [Lsda.site_eq_ok, hitems, Lsda.siteLoop_sorted hsorted hfits]
      exact ⟨hle, rfl⟩
    refine ⟨hsite, ?_⟩
    rw [scan_eq_terminate, hsite, Except.ok.injEq, List.find?_eq_none]
    simp only [decide_eq_true_eq]
  · obtain ⟨hle, hloop⟩ := Lsda.site_eq_ok.1 hsite
    exact ⟨(Lsda.siteLoop_eq_some hloop).1, hle, (Lsda.siteLoop_eq_some hloop).2⟩
  · rw [Lsda.site_eq_error, Lsda.siteLoop_eq_error]

end

attribute [local instance] PointerEncoding.bits in
/-- Two entries, the second of which covers the program counter. -/
theorem lookup_finds_covering_second :
    ∃ lsda, Lsda.new [0xff, 0xff, 0x01, 0x08, 0x00, 0x05, 0x0a, 0x00, 0x05, 0x05, 0x00, 0x00]
        (.new 0x1000 0x2000) .little = .ok lsda ∧
      lsda.site 0x2006 = .ok (some ⟨5, 5, none, none⟩) := by
  let bytes : List UInt8 := [0xff, 0xff, 0x01, 0x08, 0x00, 0x05, 0x0a, 0x00, 0x05, 0x05, 0x00, 0x00]
  let lsda : Lsda := ⟨bytes, .new 0x1000 0x2000, .little, 0x2000, none, ULEB,
    [0x00, 0x05, 0x0a, 0x00, 0x05, 0x05, 0x00, 0x00], 12⟩
  have hnew : Lsda.new bytes (.new 0x1000 0x2000) .little = .ok lsda := by decide
  have hitems : lsda.sites.items = [⟨0, 5, some 0x200a, none⟩, ⟨5, 5, none, none⟩].map .ok := by
    decide
  have hyields : Iter.Yields Sites.next lsda.sites
      ([⟨0, 5, some 0x200a, none⟩, ⟨5, 5, none, none⟩].map .ok) := by
    rw [← hitems]
    exact Sites.yields_items lsda.sites
  exact ⟨lsda, hnew,
    ((lookup_finds_covering lsda 0x2006).1 _ hyields (by decide) (by decide) (by decide)).1⟩

end Desenredo.Rust
