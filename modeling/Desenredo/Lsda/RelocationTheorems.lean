import Desenredo.Lsda.TableTheorems

/-!
# Moving an image moves its addresses

The same table is read under two sets of bases, the second moved by a multiple of the word.
Where no address leaves the address range, both runs fail alike or succeed with results that
differ only in the addresses that are relative to a base.
-/

namespace Desenredo

open Usize

variable [PointerEncoding]

/-- An address moved by a displacement. -/
def Moves (d : ℤ) (a a' : ℕ) : Prop := (a' : ℤ) = a + d

/-- Bases moved by a multiple of the word size. -/
structure Bases.Relocates (d : ℤ) (b b' : Bases) : Prop where
  word : 8 ∣ d
  origin : Moves d b.origin b'.origin
  function : Moves d b.function b'.function
  textBase : Option.Rel (Moves d) b.textBase b'.textBase
  dataBase : Option.Rel (Moves d) b.dataBase b'.dataBase

/-- How far a target moves: absolute and aligned targets stay. -/
def DwEhPe.shift (e : DwEhPe) (d : ℤ) : ℤ :=
  if e.application = ABS ∨ e.application = ALIGN then 0 else d

/-! ## Runs that stay in the address range -/

/-- No address that `target` computes leaves the address range. -/
structure TargetInRange (whole : List UInt8) (e : DwEhPe) (bases : Bases) (endian : Endian)
    (input : List UInt8) : Prop where
  /-- The address alignment looks at. -/
  aligned : ∀ offset, e.application = ALIGN → position whole input = .ok offset →
    bases.origin + offset < size
  /-- The address of the field. -/
  field : ∀ field offset, fieldInput whole e bases input = .ok field →
    position whole field = .ok offset → bases.origin + offset < size
  /-- The address of the target. -/
  addr : ∀ field offset rest s base, fieldInput whole e bases input = .ok field →
    position whole field = .ok offset → scalar e.format endian field = .ok (rest, s) →
    applicationBase e.application (bases.origin + offset) bases = .ok base →
    0 ≤ base + s.value ∧ base + s.value < size

/-- No address that `Lsda.new` computes leaves the address range. -/
def Lsda.NewInRange (bytes : List UInt8) (bases : Bases) (endian : Endian) : Prop :=
  ∀ encoding input, bytes = encoding :: input → ¬(DwEhPe.mk encoding.toNat).isAbsent →
    TargetInRange bytes ⟨encoding.toNat⟩ bases endian input

/-- The landing pad of a call-site record does not leave the address range. -/
def CallSiteInRange (lsda : Lsda) (input : List UInt8) : Prop :=
  ∀ input₁ input₂ input₃ input₄ start length landing action,
    offset lsda.callEncoding lsda.endian input = .ok (input₁, start) →
    offset lsda.callEncoding lsda.endian input₁ = .ok (input₂, length) →
    offset lsda.callEncoding lsda.endian input₂ = .ok (input₃, landing) →
    uleb input₃ = .ok (input₄, action) →
    landing ≠ 0 → lsda.landingBase + landing < size

/-- No landing pad of the call-site table leaves the address range. -/
def Lsda.SitesInRange (lsda : Lsda) : Prop :=
  ∀ k, (Iter.state Sites.next lsda.sites k).done = false →
    CallSiteInRange lsda (Iter.state Sites.next lsda.sites k).input

/-- No address that `Types.get` computes leaves the address range. -/
def Types.GetInRange (types : Types) (lsda : Lsda) (index : TypeIndex) : Prop :=
  ∀ width, Types.width types.encoding = .ok width → index.raw * width ≤ types.fin →
    TargetInRange lsda.bytes types.encoding lsda.bases lsda.endian
      (lsda.bytes.drop (types.fin - index.raw * width))

/-! ## Targets -/

section

variable {d : ℤ} {b b' : Bases} (h : Bases.Relocates d b b') {whole input : List UInt8} {e : DwEhPe}
  {endian : Endian}

include h in
/-- Alignment padding does not see a move by whole words. -/
theorem fieldInput_relocate (hr : TargetInRange whole e b endian input)
    (hr' : TargetInRange whole e b' endian input) :
    fieldInput whole e b input = fieldInput whole e b' input := by
  rw [fieldInput, fieldInput]
  split
  · rename_i halign
    rw [aligned, aligned]
    cases hposition : position whole input with
    | error => rfl
    | ok offset =>
      have hrange := hr.aligned offset halign hposition
      have hrange' := hr'.aligned offset halign hposition
      -- the padding depends on the address modulo eight only
      have hmod : (b.origin + offset) % 8 = (b'.origin + offset) % 8 := by
        have hword := h.word
        have horigin := h.origin
        rw [Moves] at horigin
        omega
      simp only [Except.bind_ok, checkedAdd, if_pos hrange, if_pos hrange', Option.okOr_some,
        hmod]
  · rfl

include h in
/-- The base of an application moves unless it is absolute. -/
theorem applicationBase_relocate {field field' : ℕ} (hfield : Moves d field field') :
    Except.Rel (Moves (e.shift d)) (applicationBase e.application field b)
      (applicationBase e.application field' b') := by
  have hbase {base base' : Option ℕ} (hrel : Option.Rel (Moves d) base base') :
      Except.Rel (Moves d) (base.okOr LsdaError.base) (base'.okOr LsdaError.base) := by
    cases hrel with
    | none => exact .error _
    | some hmoves => exact .ok hmoves
  have hshift {a : DwEhPe} (happlication : e.application = a) (ha : ¬(a = ABS ∨ a = ALIGN)) :
      e.shift d = d := by
    rw [DwEhPe.shift, happlication, if_neg ha]
  unfold applicationBase
  split
  · rename_i happlication
    rw [DwEhPe.shift, if_pos (.inl happlication)]
    exact .ok (by simp [Moves])
  · rename_i happlication
    rw [DwEhPe.shift, if_pos (.inr happlication)]
    exact .ok (by simp [Moves])
  · rw [hshift ‹_› (by decide)]
    exact .ok hfield
  · rw [hshift ‹_› (by decide)]
    exact hbase h.textBase
  · rw [hshift ‹_› (by decide)]
    exact hbase h.dataBase
  · rw [hshift ‹_› (by decide)]
    exact .ok h.function
  · exact .error _

include h in
/-- A target moves unless it is absolute. -/
theorem target_relocate (hr : TargetInRange whole e b endian input)
    (hr' : TargetInRange whole e b' endian input) :
    Except.Rel (fun p p' => p'.1 = p.1 ∧ Moves (e.shift d) p.2.addr p'.2.addr ∧
      p'.2.indirect = p.2.indirect)
      (target whole e b endian input) (target whole e b' endian input) := by
  have hfields := fieldInput_relocate h hr hr'
  rw [target, target]
  split
  case isFalse => exact .error _
  rw [← hfields]
  refine (Except.Rel.refl _).bind ?_
  rintro field _ hinput - rfl
  refine (Except.Rel.refl _).bind ?_
  rintro offset _ hposition - rfl
  have hrange := hr.field field offset hinput hposition
  have hrange' := hr'.field field offset (hfields ▸ hinput) hposition
  -- the field moves with the section, and its base with the field or not at all
  have hmoves : Moves d (b.origin + offset) (b'.origin + offset) := by
    have horigin := h.origin
    rw [Moves] at horigin ⊢
    push_cast
    omega
  simp only [checkedAdd, if_pos hrange, if_pos hrange', Option.okOr_some, Except.bind_ok]
  refine (Except.Rel.refl _).bind ?_
  rintro ⟨rest, s⟩ _ hscalar - rfl
  refine (applicationBase_relocate h hmoves).bind ?_
  intro base base' hbase hbase' hmove
  have haddr := hr.addr field offset rest s base hinput hposition hscalar hbase
  have haddr' := hr'.addr field offset rest s base' (hfields ▸ hinput) hposition hscalar hbase'
  simp only [Scalar.add, tryFromInt, if_pos haddr, if_pos haddr', Option.okOr_some,
    Except.bind_ok]
  refine .ok ⟨rfl, ?_, rfl⟩
  rw [Moves] at hmove ⊢
  dsimp only
  omega

end

/-! ## The header -/

/-- How far the landing base moves: an omitted one is the beginning of the function. -/
def Lsda.landingShift (bytes : List UInt8) (d : ℤ) : ℤ :=
  match bytes with
  | [] => d
  | encoding :: _ =>
    let e : DwEhPe := ⟨encoding.toNat⟩
    if e.isAbsent then d else e.shift d

/-- Two readings of one table that differ in their bases and in the landing base. -/
structure Lsda.Relocates (d m : ℤ) (l l' : Lsda) : Prop where
  bytes : l'.bytes = l.bytes
  bases : Bases.Relocates d l.bases l'.bases
  endian : l'.endian = l.endian
  landingBase : Moves m l.landingBase l'.landingBase
  types : l'.types = l.types
  callEncoding : l'.callEncoding = l.callEncoding
  callSites : l'.callSites = l.callSites
  actionOffset : l'.actionOffset = l.actionOffset

section

variable {d : ℤ} {b b' : Bases} (h : Bases.Relocates d b b') {bytes : List UInt8} {endian : Endian}

include h in
theorem Lsda.landing_relocate (hr : NewInRange bytes b endian)
    (hr' : NewInRange bytes b' endian) :
    Except.Rel (fun p p' => p'.1 = p.1 ∧ Moves (landingShift bytes d) p.2 p'.2)
      (landing bytes b endian bytes) (landing bytes b' endian bytes) := by
  cases bytes with
  | nil => exact .error _
  | cons encoding input =>
    simp only [landing, byte, Except.bind_ok, landingShift]
    split
    · exact .ok ⟨rfl, h.function⟩
    · rename_i habsent
      refine (target_relocate h (hr _ _ rfl habsent) (hr' _ _ rfl habsent)).bind ?_
      rintro ⟨rest, t⟩ ⟨rest', t'⟩ - - ⟨hrest, hmoves, hindirect⟩
      obtain rfl : rest' = rest := hrest
      dsimp only at hindirect ⊢
      rw [hindirect]
      split
      · exact .error _
      · exact .ok ⟨rfl, hmoves⟩

include h in
theorem Lsda.new_relocate (hr : NewInRange bytes b endian) (hr' : NewInRange bytes b' endian) :
    Except.Rel (Lsda.Relocates d (landingShift bytes d)) (new bytes b endian)
      (new bytes b' endian) := by
  rw [new, new]
  refine (landing_relocate h hr hr').bind ?_
  rintro ⟨rest, base⟩ ⟨rest', base'⟩ - - ⟨hrest, hmoves⟩
  obtain rfl : rest' = rest := hrest
  refine (Except.Rel.refl _).bind ?_
  rintro ⟨input, types⟩ _ - - rfl
  refine (Except.Rel.refl _).bind ?_
  rintro ⟨input, encoding⟩ _ - - rfl
  refine (Except.Rel.refl _).bind ?_
  rintro ⟨input, length⟩ _ - - rfl
  refine (Except.Rel.refl _).bind ?_
  rintro ⟨actions, callSites⟩ _ - - rfl
  refine (Except.Rel.refl _).bind ?_
  rintro actionOffset _ - - rfl
  split
  · exact .ok ⟨rfl, h, rfl, hmoves, rfl, rfl, rfl, rfl⟩
  · exact .error _

end

/-! ## Call sites -/

/-- Entries that differ at most in a moved landing pad. -/
structure Site.Relocates (m : ℤ) (s s' : Site) : Prop where
  start : s'.start = s.start
  size : s'.size = s.size
  land : Option.Rel (Moves m) s.land s'.land
  action : s'.action = s.action

section

variable {d m : ℤ} {l l' : Lsda} (h : Lsda.Relocates d m l l')

include h in
theorem callSite_relocate {input : List UInt8} (hr : CallSiteInRange l input)
    (hr' : CallSiteInRange l' input) :
    Except.Rel (fun p p' => p'.1 = p.1 ∧ Site.Relocates m p.2 p'.2) (callSite l input)
      (callSite l' input) := by
  rw [callSite, callSite, h.callEncoding, h.endian]
  rw [CallSiteInRange, h.callEncoding, h.endian] at hr'
  refine (Except.Rel.refl _).bind ?_
  rintro ⟨input₁, start⟩ _ hstart - rfl
  refine (Except.Rel.refl _).bind ?_
  rintro ⟨input₂, length⟩ _ hlength - rfl
  refine (Except.Rel.refl _).bind ?_
  rintro ⟨input₃, landing⟩ _ hlanding - rfl
  refine (Except.Rel.refl _).bind ?_
  rintro ⟨input₄, action⟩ _ haction - rfl
  have hrange := hr _ _ _ _ _ _ _ _ hstart hlength hlanding haction
  have hrange' := hr' _ _ _ _ _ _ _ _ hstart hlength hlanding haction
  have hpad : Except.Rel (Option.Rel (Moves m)) (l.landingPad landing)
      (l'.landingPad landing) := by
    cases landing with
    | zero => exact .ok .none
    | succ n =>
      have hbase := h.landingBase
      have hsum := checkedAdd_eq_some.2 ⟨hrange (Nat.succ_ne_zero n), rfl⟩
      have hsum' := checkedAdd_eq_some.2 ⟨hrange' (Nat.succ_ne_zero n), rfl⟩
      simp only [Lsda.landingPad, hsum, hsum']
      refine .ok (.some ?_)
      rw [Moves] at hbase ⊢
      push_cast
      omega
  refine hpad.bind ?_
  rintro land land' - - hland
  exact .ok ⟨rfl, ⟨rfl, rfl, hland, rfl⟩⟩

/-- Call-site iterators at the same place of their tables. -/
structure Sites.Relocates (l l' : Lsda) (s s' : Sites) : Prop where
  reached : ∃ k, s = Iter.state Sites.next l.sites k ∧ s' = Iter.state Sites.next l'.sites k
  lsda : s.lsda = l ∧ s'.lsda = l'
  input : s'.input = s.input
  done : s'.done = s.done

include h in
theorem sites_bisimilar (hr : l.SitesInRange) (hr' : l'.SitesInRange) :
    Iter.Bisimilar Sites.next Sites.next (Sites.Relocates l l')
      (Except.Rel (Site.Relocates m)) := by
  rintro s s' ⟨⟨k, hs, hs'⟩, ⟨hl, hl'⟩, hinput, hdone⟩
  have hreached : ∃ k, (Sites.next s).2 = Iter.state Sites.next l.sites k ∧
      (Sites.next s').2 = Iter.state Sites.next l'.sites k :=
    ⟨k + 1, by rw [hs]; rfl, by rw [hs']; rfl⟩
  by_cases hend : s.done ∨ s.input.isEmpty
  · have hend' : s'.done ∨ s'.input.isEmpty := by rwa [hdone, hinput]
    rw [Sites.next_end hend, Sites.next_end hend']
    exact ⟨.none, ⟨k, hs, hs'⟩, ⟨hl, hl'⟩, hinput, hdone⟩
  · obtain ⟨hgo, hnonempty⟩ := not_or.1 hend
    have hgo : s.done = false := by simpa using hgo
    have hnonempty : s.input ≠ [] := by simpa using hnonempty
    -- both iterators have read the same bytes, so the same record is in range
    have hrange := hr k (by rw [← hs, hgo])
    have hrange' := hr' k (by rw [← hs', hdone, hgo])
    rw [← hs] at hrange
    rw [← hs', hinput] at hrange'
    have hsite := callSite_relocate h hrange hrange'
    cases hread : callSite l s.input with
    | error e =>
      cases hread' : callSite l' s.input with
      | ok p => rw [hread, hread'] at hsite; cases hsite
      | error e' =>
        rw [hread, hread'] at hsite
        cases hsite
        rw [Sites.next_error hgo hnonempty (hl ▸ hread)] at hreached ⊢
        rw [Sites.next_error (hdone ▸ hgo) (hinput ▸ hnonempty) (hl' ▸ hinput ▸ hread')]
          at hreached ⊢
        exact ⟨.some (.error _), hreached, ⟨hl, hl'⟩, hinput, rfl⟩
    | ok p =>
      cases hread' : callSite l' s.input with
      | error e => rw [hread, hread'] at hsite; cases hsite
      | ok p' =>
        rw [hread, hread'] at hsite
        obtain ⟨hrest, hmoves⟩ := hsite.of_ok
        rw [Sites.next_ok hgo hnonempty (hl ▸ hread)] at hreached ⊢
        rw [Sites.next_ok (hdone ▸ hgo) (hinput ▸ hnonempty) (hl' ▸ hinput ▸ hread')]
          at hreached ⊢
        exact ⟨.some (.ok hmoves), hreached, ⟨hl, hl'⟩, hrest, hdone⟩

omit [PointerEncoding] in
/-- The search for a call site compares only distances. -/
theorem siteLoop_relocate (pc : ℕ) {sites sites' : List (Except LsdaError Site)}
    (hsites : List.Forall₂ (Except.Rel (Site.Relocates m)) sites sites') :
    Except.Rel (Option.Rel (Site.Relocates m)) (Lsda.siteLoop pc sites)
      (Lsda.siteLoop pc sites') := by
  induction hsites with
  | nil => exact .ok .none
  | cons hsite _ ih =>
    rw [Lsda.siteLoop, Lsda.siteLoop]
    refine hsite.bind ?_
    rintro site site' - - hmoves
    rw [hmoves.start, hmoves.size]
    refine (Except.Rel.refl _).bind ?_
    rintro fin _ - - rfl
    split
    · exact .ok (.some hmoves)
    · split
      · exact .ok .none
      · exact ih

include h in
theorem site_relocate (hr : l.SitesInRange) (hr' : l'.SitesInRange) {pc pc' : ℕ}
    (hpc : Moves d pc pc') :
    Except.Rel (Option.Rel (Site.Relocates m)) (l.site pc) (l'.site pc') := by
  have hstart : Sites.Relocates l l' l.sites l'.sites :=
    ⟨⟨0, rfl, rfl⟩, ⟨rfl, rfl⟩, h.callSites, rfl⟩
  have hitems := (sites_bisimilar h hr hr').items hstart (l.callSites.length + 1)
  have hfunction := h.bases.function
  -- the program counter moves with the function
  have hrelative : checkedSub pc' l'.bases.function = checkedSub pc l.bases.function := by
    rw [Moves] at hpc hfunction
    rw [checkedSub, checkedSub]
    split
    · rw [if_pos (by omega)]
      congr 1
      omega
    · rw [if_neg (by omega)]
  rw [Lsda.site, Lsda.site, hrelative]
  refine (Except.Rel.refl _).bind ?_
  rintro pc _ - - rfl
  refine siteLoop_relocate pc ?_
  have hlength : l'.sites.input.length = l.callSites.length := by
    rw [← h.callSites]
    rfl
  rw [Sites.items, Sites.items, hlength]
  exact hitems

/-! ## Types, chains and lists -/

include h in
theorem get_relocate {types : Types} {index : TypeIndex} (hr : types.GetInRange l index)
    (hr' : types.GetInRange l' index) :
    Except.Rel (fun t t' => Moves (types.encoding.shift d) t.addr t'.addr ∧
      t'.indirect = t.indirect) (types.get l index) (types.get l' index) := by
  rw [Types.get, Types.get, h.bytes, h.endian]
  rw [Types.GetInRange, h.bytes, h.endian] at hr'
  refine (Except.Rel.refl _).bind ?_
  rintro width _ hwidth - rfl
  refine (Except.Rel.refl _).bind ?_
  rintro offset _ hoffset - rfl
  refine (Except.Rel.refl _).bind ?_
  rintro start _ hstart - rfl
  refine (Except.Rel.refl _).bind ?_
  rintro ⟨input, skipped⟩ _ hinput - rfl
  obtain ⟨-, rfl⟩ := checkedMul_eq_some.1 (Option.okOr_eq_ok.1 hoffset)
  obtain ⟨hle, rfl⟩ := checkedSub_eq_some.1 (Option.okOr_eq_ok.1 hstart)
  have hdrop : input = l.bytes.drop (types.fin - index.raw * width) := by
    rw [takeBytes] at hinput
    split at hinput
    · exact (Prod.mk.inj (Except.ok.inj hinput)).1.symm
    · cases hinput
  subst hdrop
  refine (target_relocate h.bases (hr width hwidth hle) (hr' width hwidth hle)).bind ?_
  rintro ⟨rest, t⟩ ⟨rest', t'⟩ - - ⟨hrest, hmoves⟩
  obtain rfl : rest' = rest := hrest
  refine (Except.Rel.refl _).bind ?_
  rintro consumed _ - - rfl
  split
  · exact .ok hmoves
  · exact .error _

end

/-- **Relocation.** Reading a table under moved bases: the header is accepted alike, chains and
specification lists are the same, a moved program counter finds the same entry, landing pads
move with the landing base and types with their encoding. -/
theorem Lsda.relocation {d : ℤ} {b b' : Bases} (h : Bases.Relocates d b b')
    (bytes : List UInt8) (endian : Endian) (hr : NewInRange bytes b endian)
    (hr' : NewInRange bytes b' endian) :
    ((∃ l, new bytes b endian = .ok l) ↔ ∃ l', new bytes b' endian = .ok l') ∧
    ∀ l l', new bytes b endian = .ok l → new bytes b' endian = .ok l' →
      (∀ action, l'.chain action = l.chain action) ∧
      (∀ index, l'.filter index = l.filter index) ∧
      (l.SitesInRange → l'.SitesInRange →
        (∀ k, Option.Rel (Except.Rel (Site.Relocates (landingShift bytes d)))
          (Iter.call Sites.next l.sites k) (Iter.call Sites.next l'.sites k)) ∧
        ∀ pc pc', Moves d pc pc' → Except.Rel
          (Option.Rel (Site.Relocates (landingShift bytes d))) (l.site pc) (l'.site pc')) ∧
      l'.types = l.types ∧
      ∀ types index, l.types = some types → types.GetInRange l index →
        types.GetInRange l' index →
        Except.Rel (fun t t' => Moves (types.encoding.shift d) t.addr t'.addr ∧
          t'.indirect = t.indirect) (types.get l index) (types.get l' index) := by
  have hnew := new_relocate h hr hr'
  refine ⟨hnew.isOk, fun l l' hl hl' => ?_⟩
  rw [hl, hl'] at hnew
  have hmoves := hnew.of_ok
  refine ⟨fun action => ?_, fun index => ?_, fun hs hs' => ⟨fun k => ?_, fun pc pc' hpc => ?_⟩,
    hmoves.types, fun types index _ hg hg' => get_relocate hmoves hg hg'⟩
  · rw [chain, chain, hmoves.bytes, hmoves.actionOffset]
  · rw [filter, filter, hmoves.bytes, hmoves.types]
  · exact (sites_bisimilar hmoves hs hs').call
      ⟨⟨0, rfl, rfl⟩, ⟨rfl, rfl⟩, hmoves.callSites, rfl⟩ k
  · exact site_relocate hmoves hs hs' hpc

omit [PointerEncoding] in
/-- A table with one entry under bases moved by one word. -/
theorem Lsda.relocation_word : ∃ l l',
    @new .bits [0xff, 0xff, 0x01, 0x04, 0x00, 0x05, 0x0a, 0x00] (.new 0x1000 0x2000) .little =
      .ok l ∧
    @new .bits [0xff, 0xff, 0x01, 0x04, 0x00, 0x05, 0x0a, 0x00] (.new 0x1008 0x2008) .little =
      .ok l' ∧
    Except.Rel (Option.Rel (Site.Relocates 8)) (@site .bits l 0x2002) (@site .bits l' 0x200a) := by
  let _ := PointerEncoding.bits
  let bytes : List UInt8 := [0xff, 0xff, 0x01, 0x04, 0x00, 0x05, 0x0a, 0x00]
  let lsda (origin function : ℕ) : Lsda := ⟨bytes, .new origin function, .little, function, none,
    ULEB, [0x00, 0x05, 0x0a, 0x00], 8⟩
  have hmoves : Bases.Relocates 8 (.new 0x1000 0x2000) (.new 0x1008 0x2008) :=
    ⟨by decide, rfl, rfl, .none, .none⟩
  have hnew (bases : Bases) : NewInRange bytes bases .little := by
    intro encoding input hbytes habsent
    obtain rfl := (List.cons.inj hbytes).1
    exact absurd rfl habsent
  have hsites (l : Lsda) (hread : ∀ input₁ input₂ input₃ start length landing,
      offset l.callEncoding l.endian l.callSites = .ok (input₁, start) →
      offset l.callEncoding l.endian input₁ = .ok (input₂, length) →
      offset l.callEncoding l.endian input₂ = .ok (input₃, landing) → landing = 10)
      (hfit : l.landingBase + 10 < size) (hnext : (Sites.next l.sites).2.input = []) :
      l.SitesInRange := by
    -- only the first state has a record left to read
    have hend (k : ℕ) : (Iter.state Sites.next l.sites (k + 1)).input = [] := by
      induction k with
      | zero => exact hnext
      | succ k ih => rw [Iter.state, Sites.next_end (.inr (by rw [ih]; rfl)), ih]
    rintro (_ | k) - input₁ input₂ input₃ input₄ start length landing action h₁ h₂ h₃ - -
    · rw [hread _ _ _ _ _ _ h₁ h₂ h₃]
      exact hfit
    · have := offset_consumes _ _ _ _ _ h₁
      simp [hend] at this
  have hread (origin function : ℕ) : ∀ input₁ input₂ input₃ start length landing,
      offset ULEB .little (lsda origin function).callSites = .ok (input₁, start) →
      offset ULEB .little input₁ = .ok (input₂, length) →
      offset ULEB .little input₂ = .ok (input₃, landing) → landing = 10 := by
    have hone : offset ULEB .little [0x00, 0x05, 0x0a, 0x00] = .ok ([0x05, 0x0a, 0x00], 0) := by
      decide
    have htwo : offset ULEB .little [0x05, 0x0a, 0x00] = .ok ([0x0a, 0x00], 5) := by decide
    have hthree : offset ULEB .little [0x0a, 0x00] = .ok ([0x00], 10) := by decide
    intro input₁ input₂ input₃ start length landing h₁ h₂ h₃
    obtain ⟨rfl, rfl⟩ := Prod.mk.inj (Except.ok.inj (hone.symm.trans h₁))
    obtain ⟨rfl, rfl⟩ := Prod.mk.inj (Except.ok.inj (htwo.symm.trans h₂))
    exact (Prod.mk.inj (Except.ok.inj (hthree.symm.trans h₃))).2.symm
  have hrelocation := Lsda.relocation hmoves bytes .little (hnew _) (hnew _)
  have hsite := (hrelocation.2 (lsda 0x1000 0x2000) (lsda 0x1008 0x2008) rfl rfl).2.2.1
    (hsites _ (hread _ _) (by decide) (by decide)) (hsites _ (hread _ _) (by decide) (by decide))
  exact ⟨_, _, rfl, rfl, hsite.2 0x2002 0x200a rfl⟩

end Desenredo
