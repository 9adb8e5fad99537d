import Desenredo.Lsda.ScalarTheorems
import Desenredo.Lsda.Table

/-!
# The header and the iterators of a table

How `Lsda.new` succeeds, that a call-site record is a local reader of at least four bytes, and
that the lists of items are what the iterators yield.
-/

namespace Desenredo

open Parser Usize

variable [PointerEncoding]

namespace Lsda

theorem landing_eq_ok {bytes input rest : List UInt8} {bases : Bases} {endian : Endian}
    {base : ℕ} :
    landing bytes bases endian input = .ok (rest, base) ↔
      ∃ encoding input', input = encoding :: input' ∧
        let e : DwEhPe := ⟨encoding.toNat⟩
        (e.isAbsent ∧ rest = input' ∧ base = bases.function ∨
          ¬e.isAbsent ∧ target bytes e bases endian input' = .ok (rest, ⟨base, false⟩)) := by
  rw [landing]
  constructor
  · intro h
    obtain ⟨⟨input', encoding⟩, hbyte, h⟩ := Except.bind_eq_ok_iff.1 h
    refine ⟨encoding, input', byte_eq_ok.1 hbyte, ?_⟩
    dsimp only at h
    split at h
    · rename_i habsent
      simp only [Except.ok.injEq, Prod.mk.injEq] at h
      exact .inl ⟨habsent, h.1.symm, h.2.symm⟩
    · rename_i habsent
      obtain ⟨⟨rest', t⟩, htarget, h⟩ := Except.bind_eq_ok_iff.1 h
      dsimp only at h
      split at h
      · cases h
      · rename_i hdirect
        simp only [Except.ok.injEq, Prod.mk.injEq] at h
        -- an indirect landing base has been rejected, so the target is its address
        have ht : t = ⟨base, false⟩ := by
          cases t
          simp_all
        exact .inr ⟨habsent, by rw [htarget, h.1, ht]⟩
  · rintro ⟨encoding, input', rfl, ⟨habsent, rfl, rfl⟩ | ⟨habsent, htarget⟩⟩
    · simp only [byte, Except.bind_ok, if_pos habsent]
    · simp only [byte, Except.bind_ok, if_neg habsent, htarget]
      rfl

theorem landing_suffix {bytes input rest : List UInt8} {bases : Bases} {endian : Endian}
    {base : ℕ} (h : landing bytes bases endian input = .ok (rest, base)) : rest <:+ input := by
  obtain ⟨encoding, input', rfl, ⟨-, rfl, -⟩ | ⟨-, htarget⟩⟩ := landing_eq_ok.1 h
  · exact List.suffix_cons encoding rest
  · exact (target_suffix htarget).trans (List.suffix_cons encoding input')

theorem typeTable_eq_ok {bytes input rest : List UInt8} {types : Option Types} :
    typeTable bytes input = .ok (rest, types) ↔
      ∃ encoding input', input = encoding :: input' ∧
        let e : DwEhPe := ⟨encoding.toNat⟩
        (e.isAbsent ∧ rest = input' ∧ types = none ∨
          ¬e.isAbsent ∧ e.isValidEncoding ∧ ∃ offset position,
            uleb input' = .ok (rest, offset) ∧ Desenredo.position bytes rest = .ok position ∧
            position + offset < size ∧ position + offset ≤ bytes.length ∧
            types = some ⟨position + offset, e⟩) := by
  rw [typeTable]
  constructor
  · intro h
    obtain ⟨⟨input', encoding⟩, hbyte, h⟩ := Except.bind_eq_ok_iff.1 h
    refine ⟨encoding, input', byte_eq_ok.1 hbyte, ?_⟩
    dsimp only at h
    split at h
    · rename_i habsent
      simp only [Except.ok.injEq, Prod.mk.injEq] at h
      exact .inl ⟨habsent, h.1.symm, h.2.symm⟩
    · rename_i habsent
      simp only [Except.bind_eq_ok_iff, Prod.exists, Option.okOr_eq_ok, checkedAdd_eq_some] at h
      obtain ⟨rest', offset, huleb, position, hposition, _, ⟨hlt, rfl⟩, h⟩ := h
      split at h
      · rename_i hvalid hle
        simp only [Except.ok.injEq, Prod.mk.injEq] at h
        obtain ⟨rfl, rfl⟩ := h
        exact .inr ⟨habsent, hvalid, offset, position, huleb, hposition, hlt,
          of_decide_eq_true hle, rfl⟩
      · cases h
      · cases h
  · rintro ⟨encoding, input', rfl, ⟨habsent, rfl, rfl⟩ |
      ⟨habsent, hvalid, offset, position, huleb, hposition, hlt, hle, rfl⟩⟩
    · simp only [byte, Except.bind_ok, if_pos habsent]
    · have hfin : checkedAdd position offset = some (position + offset) :=
        checkedAdd_eq_some.2 ⟨hlt, rfl⟩
      simp only [byte, Except.bind_ok, if_neg habsent, huleb, hposition, hfin, Option.okOr_some,
        hvalid, decide_eq_true hle]

theorem typeTable_suffix {bytes input rest : List UInt8} {types : Option Types}
    (h : typeTable bytes input = .ok (rest, types)) : rest <:+ input := by
  obtain ⟨encoding, input', rfl, ⟨-, rfl, -⟩ | ⟨-, -, _, _, huleb, -⟩⟩ := typeTable_eq_ok.1 h
  · exact List.suffix_cons encoding rest
  · exact (uleb_local.suffix huleb).trans (List.suffix_cons encoding input')

/-- What `new` makes of a header and the fields behind it. -/
theorem new_eq_ok {bytes : List UInt8} {bases : Bases} {endian : Endian} {lsda : Lsda} :
    new bytes bases endian = .ok lsda ↔
      ∃ input₁ landingBase input₂ types encoding input₃ input₄ actions callSites,
        landing bytes bases endian bytes = .ok (input₁, landingBase) ∧
        typeTable bytes input₁ = .ok (input₂, types) ∧
        input₂ = encoding :: input₃ ∧
        uleb input₃ = .ok (input₄, callSites.length) ∧
        input₄ = callSites ++ actions ∧
        actions.length ≤ bytes.length ∧
        (DwEhPe.mk encoding.toNat).isValidEncoding ∧ ¬(DwEhPe.mk encoding.toNat).isAbsent ∧
        lsda = ⟨bytes, bases, endian, landingBase, types, ⟨encoding.toNat⟩, callSites,
          bytes.length - actions.length⟩ := by
  constructor
  · intro h
    rw [new, Except.bind_eq_ok_iff] at h
    obtain ⟨⟨input₁, landingBase⟩, hlanding, h⟩ := h
    obtain ⟨⟨input₂, types⟩, htypes, h⟩ := Except.bind_eq_ok_iff.1 h
    obtain ⟨⟨input₃, encoding⟩, hbyte, h⟩ := Except.bind_eq_ok_iff.1 h
    obtain ⟨⟨input₄, length⟩, huleb, h⟩ := Except.bind_eq_ok_iff.1 h
    obtain ⟨⟨actions, callSites⟩, htake, h⟩ := Except.bind_eq_ok_iff.1 h
    obtain ⟨actionOffset, hoffset, h⟩ := Except.bind_eq_ok_iff.1 h
    -- the action table begins where the call sites end
    obtain ⟨happend, rfl⟩ := takeBytes_eq_ok.1 htake
    rw [position, Option.okOr_eq_ok, checkedSub_eq_some] at hoffset
    obtain ⟨hle, rfl⟩ := hoffset
    have hcons : input₂ = encoding :: input₃ := by
      cases input₂ with
      | nil => cases hbyte
      | cons b rest =>
        obtain ⟨rfl, rfl⟩ := Prod.mk.inj (Except.ok.inj hbyte)
        rfl
    split at h
    · rename_i hvalid
      exact ⟨input₁, landingBase, input₂, types, encoding, input₃, input₄, actions, callSites,
        hlanding, htypes, hcons, huleb, happend, hle, hvalid.1, hvalid.2,
        (Except.ok.inj h).symm⟩
    · cases h
  · rintro ⟨input₁, landingBase, input₂, types, encoding, input₃, input₄, actions, callSites,
      hlanding, htypes, rfl, huleb, rfl, hle, hvalid, habsent, rfl⟩
    have htake : takeBytes callSites.length (callSites ++ actions) = .ok (actions, callSites) :=
      takeBytes_eq_ok.2 ⟨rfl, rfl⟩
    have hoffset : position bytes actions = .ok (bytes.length - actions.length) := by
      rw [position, Option.okOr_eq_ok, checkedSub_eq_some]
      exact ⟨hle, rfl⟩
    simp only [new, hlanding, htypes, byte, huleb, htake, hoffset, Except.bind_ok]
    rw [if_pos ⟨hvalid, habsent⟩]

theorem new_fields {bytes : List UInt8} {bases : Bases} {endian : Endian} {lsda : Lsda}
    (h : new bytes bases endian = .ok lsda) :
    lsda.bytes = bytes ∧ lsda.bases = bases ∧ lsda.endian = endian := by
  obtain ⟨_, _, _, _, _, _, _, _, _, -, -, -, -, -, -, -, -, rfl⟩ := new_eq_ok.1 h
  exact ⟨rfl, rfl, rfl⟩

end Lsda

/-! ## Call sites -/

/-- The entry made of the four fields of a call-site record. -/
def Lsda.entry (lsda : Lsda) (start size landing action : ℕ) : Except LsdaError Site := do
  let land ← lsda.landingPad landing
  .ok ⟨start, size, land, (NonZeroUsize.new action).map Action.mk⟩

/-- A call-site record is four readers in sequence. -/
theorem callSite_eq (lsda : Lsda) :
    callSite lsda = (offset lsda.callEncoding lsda.endian).andThen fun start =>
      (offset lsda.callEncoding lsda.endian).andThen fun size =>
      (offset lsda.callEncoding lsda.endian).andThen fun landing =>
      uleb.refine fun action => lsda.entry start size landing action := by
  funext input
  simp only [callSite, andThen, refine, Lsda.entry, bind_assoc, Except.bind_ok]

/-- A call-site record takes at least four bytes. -/
theorem callSite_consumes (lsda : Lsda) : Consumes (callSite lsda) 4 := by
  have hoffset := offset_consumes lsda.callEncoding lsda.endian
  rw [callSite_eq]
  exact hoffset.andThen fun _ => hoffset.andThen fun _ => hoffset.andThen fun _ =>
    uleb_consumes.refine

/-- Reading a call-site record never fails with the error of a malformed table. -/
theorem callSite_raises (lsda : Lsda) : Raises (callSite lsda) (· ≠ .table) := by
  have hoffset := offset_raises lsda.callEncoding lsda.endian
  rw [callSite_eq]
  refine hoffset.andThen fun _ => hoffset.andThen fun _ => hoffset.andThen fun landing =>
    uleb_raises.refine fun action e h => ?_
  rcases Except.bind_eq_error_iff.1 h with h | ⟨land, -, h⟩
  · cases landing with
    | zero => cases h
    | succ landing =>
      rw [← (Option.okOr_eq_error.1 (Except.map_eq_error.1 h)).2]
      decide
  · cases h

namespace Sites

theorem next_end {s : Sites} (h : s.done ∨ s.input.isEmpty) : next s = (none, s) := if_pos h

theorem next_ok {s : Sites} (hdone : s.done = false) (hinput : s.input ≠ [])
    {rest : List UInt8} {site : Site} (h : callSite s.lsda s.input = .ok (rest, site)) :
    next s = (some (.ok site), { s with input := rest }) := by
  simp [next, hdone, hinput, h]

theorem next_error {s : Sites} (hdone : s.done = false) (hinput : s.input ≠ [])
    {e : LsdaError} (h : callSite s.lsda s.input = .error e) :
    next s = (some (.error e), { s with done := true }) := by
  simp [next, hdone, hinput, h]

theorem fused : Iter.Fused next := by
  intro s h
  have hend : s.done ∨ s.input.isEmpty := by grind [next]
  rw [next_end hend]
  exact h

/-- The bytes an iterator can still turn into items. -/
def budget (s : Sites) : ℕ := if s.done then 0 else s.input.length

theorem budget_lt (s : Sites) (item : Except LsdaError Site) (t : Sites)
    (h : next s = (some item, t)) : t.budget < s.budget := by
  rw [next] at h
  split at h
  · cases h
  · rename_i hgo
    obtain ⟨hdone, hinput⟩ := not_or.1 hgo
    have hpos : 0 < s.input.length := by grind
    have hs : s.budget = s.input.length := if_neg hdone
    split at h
    · rename_i rest site hsite
      -- an entry takes bytes, an error sets `done`
      have hrest := callSite_consumes _ _ _ _ hsite
      obtain rfl := (Prod.mk.inj h).2
      rw [hs, budget, if_neg hdone]
      dsimp only
      omega
    · obtain rfl := (Prod.mk.inj h).2
      rw [hs, budget, if_pos rfl]
      exact hpos

/-- `items` lists what the iterator yields. -/
theorem yields_items (s : Sites) : Iter.Yields next s s.items :=
  Iter.yields_items fused budget budget_lt (by rw [budget]; split <;> omega)

end Sites

/-! ## Exception specification lists -/

namespace FilterTypes

omit [PointerEncoding]

theorem fused : Iter.Fused next := by
  intro f h
  grind [next]

/-- The bytes an iterator can still turn into items. -/
def budget (f : FilterTypes) : ℕ := if f.done then 0 else f.input.length + 1

theorem budget_lt (f : FilterTypes) (item : Except LsdaError TypeIndex) (g : FilterTypes)
    (h : next f = (some item, g)) : g.budget < f.budget := by
  rw [next] at h
  split at h
  · cases h
  · rename_i hdone
    have hf : f.budget = f.input.length + 1 := if_neg hdone
    split at h
    · rename_i rest index huleb
      have hrest := uleb_consumes _ _ _ huleb
      split at h
      · cases h
      · obtain rfl := (Prod.mk.inj h).2
        rw [hf, budget, if_neg hdone]
        dsimp only
        omega
    · obtain rfl := (Prod.mk.inj h).2
      rw [hf, budget, if_pos rfl]
      omega

/-- `items` lists what the iterator yields. -/
theorem yields_items (f : FilterTypes) : Iter.Yields next f f.items :=
  Iter.yields_items fused budget budget_lt (by rw [budget]; split <;> omega)

end FilterTypes

end Desenredo
