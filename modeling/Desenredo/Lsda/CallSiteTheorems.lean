import Desenredo.Lsda.Format
import Desenredo.Lsda.TableTheorems

/-!
# Call-site tables decode to what was encoded

Each scalar format is read back exactly where it was written, so a stored record leaves the
input at the next record and the iterator yields a stored table record by record.
-/

namespace Desenredo

open Parser Usize

/-! ## Stored fields are read back -/

@[simp] theorem Endian.length_bytes (endian : Endian) (width n : ℕ) :
    (endian.bytes width n).length = width := by
  cases endian <;> simp [Endian.bytes]

theorem Endian.number_bytes (endian : Endian) {width n : ℕ} (h : n < 256 ^ width) :
    endian.number (endian.bytes width n) = n := by
  cases endian <;> simp [Endian.bytes, Endian.number, Fixed.number_bytes h]

theorem fixed_reads (endian : Endian) (width n : ℕ) :
    Reads (takeBytes width) (endian.bytes width n) (endian.bytes width n) := by
  simpa using takeBytes_reads (endian.bytes width n)

/-- An unsigned field of a fixed width is read back. -/
theorem unsigned_reads {width : ℕ} (hwidth : FixedWidth width) (endian : Endian) {n : ℕ}
    (h : n < 256 ^ width) : Reads (unsigned width endian) (endian.bytes width n) n := by
  have hmap := (fixed_reads endian width n).map endian.number
  rwa [← unsigned_eq_map hwidth endian, endian.number_bytes h] at hmap

/-- A nonnegative signed field of a fixed width is read back. -/
theorem signed_reads {width : ℕ} (hwidth : FixedWidth width) (endian : Endian) {n : ℕ}
    (h : n < 2 ^ (8 * width - 1)) : Reads (signed width endian) (endian.bytes width n) n := by
  have hfit : n < 256 ^ width := by
    refine Nat.lt_of_lt_of_le h ?_
    rw [show 256 = 2 ^ 8 by rfl, ← pow_mul]
    exact Nat.pow_le_pow_right (by decide) (by omega)
  have hmap := (fixed_reads endian width n).map
    fun field => Fixed.signed (8 * width) (endian.number field)
  rwa [← signed_eq_map hwidth, endian.number_bytes hfit, Fixed.signed_of_lt h] at hmap

/-- The octets of an offset decode to a scalar that denotes it. -/
theorem scalar_reads {format : DwEhPe} {endian : Endian} {n : ℕ} {octets : List UInt8}
    (h : Stores format endian n octets) :
    ∃ s : Scalar, s.value = n ∧ Reads (scalar format endian) octets s := by
  have hunsigned (width : ℕ) (hwidth : FixedWidth width) (hn : n < 256 ^ width) :
      ∃ s : Scalar, s.value = n ∧
        Reads ((unsigned width endian).map .unsigned) (endian.bytes width n) s :=
    ⟨.unsigned n, rfl, (unsigned_reads hwidth endian hn).map _⟩
  have hsigned (width : ℕ) (hwidth : FixedWidth width) (hn : n < 2 ^ (8 * width - 1)) :
      ∃ s : Scalar, s.value = n ∧
        Reads ((signed width endian).map .signed) (endian.bytes width n) s :=
    ⟨.signed n, rfl, (signed_reads hwidth endian hn).map _⟩
  unfold Stores at h
  split at h
  · exact h.2 ▸ hunsigned 8 (by decide) h.1
  · obtain ⟨hn, hoctets, hlength, hvalue⟩ := h
    exact ⟨.unsigned _, by rw [Scalar.value, hvalue],
      (uleb_reads hoctets hlength (hvalue ▸ hn)).map _⟩
  · exact h.2 ▸ hunsigned 2 (by decide) h.1
  · exact h.2 ▸ hunsigned 4 (by decide) h.1
  · exact h.2 ▸ hunsigned 8 (by decide) h.1
  · obtain ⟨hn, hoctets, hlength, hvalue⟩ := h
    exact ⟨.signed _, hvalue, (sleb_reads hoctets hlength (by omega) (by omega)).map _⟩
  · exact h.2 ▸ hsigned 2 (by decide) h.1
  · exact h.2 ▸ hsigned 4 (by decide) h.1
  · exact h.2 ▸ hsigned 8 (by decide) h.1
  · cases h

theorem Stores.lt {format : DwEhPe} {endian : Endian} {n : ℕ} {octets : List UInt8}
    (h : Stores format endian n octets) : n < size := by
  unfold Stores StoresUleb StoresSleb size at h
  unfold size
  split at h <;> first | omega | exact h.elim

theorem storesUleb_reads {n : ℕ} {octets : List UInt8} (h : StoresUleb n octets) :
    Reads uleb octets n := by
  obtain ⟨hn, hoctets, hlength, rfl⟩ := h
  exact uleb_reads hoctets hlength hn

section

variable [PointerEncoding]

/-- A call-site encoding is plain when it selects a scalar format and nothing else. -/
structure DwEhPe.Plain (e : DwEhPe) : Prop where
  mem : e ∈ DwEhPe.formats
  format : e.format = e
  application : e.application = ABS
  isValidEncoding : e.isValidEncoding
  isAbsent : ¬e.isAbsent
  isIndirect : ¬e.isIndirect

theorem PointerEncoding.Standard.plain (h : PointerEncoding.Standard) {e : DwEhPe}
    (he : e ∈ DwEhPe.formats) : e.Plain := by
  have hbits : e.raw < 256 ∧ PointerEncoding.bits.format e = e ∧
      PointerEncoding.bits.application e = ABS ∧
      PointerEncoding.bits.isValidEncoding e = true ∧
      PointerEncoding.bits.isAbsent e = false ∧ PointerEncoding.bits.isIndirect e = false := by
    revert e
    decide
  obtain ⟨hlt, hformat, happlication, hvalid, habsent, hindirect⟩ := hbits
  constructor
  · exact he
  · rw [h.format e hlt, hformat]
  · rw [h.application e hlt, happlication]
  · rw [h.isValidEncoding e hlt, hvalid]
  · simp [h.isAbsent e hlt, habsent]
  · simp [h.isIndirect e hlt, hindirect]

/-- A stored offset is read back in every plain encoding. -/
theorem offset_reads {encoding : DwEhPe} (hplain : encoding.Plain) {endian : Endian} {n : ℕ}
    {octets : List UInt8} (h : Stores encoding endian n octets) :
    Reads (offset encoding endian) octets n := by
  obtain ⟨s, hvalue, hreads⟩ := scalar_reads h
  have hadd : s.add 0 = .ok n := by
    rw [Scalar.add, hvalue, Option.okOr_eq_ok, tryFromInt_eq_some]
    exact ⟨by simp, h.lt⟩
  simp only [offset]
  rw [if_pos ⟨hplain.isValidEncoding, hplain.isAbsent, hplain.application, hplain.isIndirect⟩,
    hplain.format]
  exact hreads.refine hadd

/-! ## Stored tables are read back -/

/-- A stored record is read back, provided its landing pad is an address. -/
theorem callSite_reads {lsda : Lsda} (hplain : lsda.callEncoding.Plain) {r : CallSite}
    (hland : r.landing ≠ 0 → lsda.landingBase + r.landing < size) {octets : List UInt8}
    (h : r.Stored lsda.callEncoding lsda.endian octets) :
    Reads (callSite lsda) octets (r.site lsda.landingBase) := by
  obtain ⟨start, length, landing, action, hstart, hlength, hlanding, haction, rfl⟩ := h
  have hpad : lsda.landingPad r.landing = .ok (r.site lsda.landingBase).land := by
    rw [CallSite.site]
    cases hzero : r.landing with
    | zero => rfl
    | succ n =>
      rw [hzero] at hland
      simp [Lsda.landingPad, checkedAdd, hland, Except.map]
  have hentry : lsda.entry r.start r.size r.landing r.action = .ok (r.site lsda.landingBase) := by
    rw [Lsda.entry, hpad]
    rfl
  rw [callSite_eq]
  exact (offset_reads hplain hstart).andThen <| (offset_reads hplain hlength).andThen <|
    (offset_reads hplain hlanding).andThen <| (storesUleb_reads haction).refine hentry

/-- A stored table yields its records in order, each once, and nothing after. -/
theorem sites_of_stored {lsda : Lsda} (hplain : lsda.callEncoding.Plain)
    {records : List CallSite} {table : List UInt8}
    (hland : ∀ r ∈ records, r.landing ≠ 0 → lsda.landingBase + r.landing < size)
    (h : StoredTable lsda.callEncoding lsda.endian records table) :
    Iter.Yields Sites.next ⟨lsda, table, false⟩
      (records.map fun r => .ok (r.site lsda.landingBase)) := by
  induction h with
  | nil => exact Sites.fused.yields_nil rfl
  | @cons r rs octets table hstored _ ih =>
    have hread := callSite_reads hplain (hland r List.mem_cons_self) hstored table
    have hlength := callSite_consumes _ _ _ _ hread
    -- the iterator ends on empty input only, and a record is not empty
    have hnonempty : octets ++ table ≠ [] := by
      rintro hnil
      simp [hnil] at hlength
    rw [List.map_cons, Iter.yields_cons (Sites.next_ok rfl hnonempty hread)]
    exact ih fun r hr => hland r (List.mem_cons_of_mem _ hr)

/-- What any call-site iterator yields: entries, then at most one error. Each entry takes at
least four bytes, and without an error nothing is left. -/
theorem sites_of_any (lsda : Lsda) (input : List UInt8) :
    ∃ (sites : List Site) (error : Option LsdaError),
      Iter.Yields Sites.next ⟨lsda, input, false⟩
        (sites.map .ok ++ error.toList.map .error) ∧
      4 * sites.length ≤ input.length ∧
      (error = none → (Iter.state Sites.next ⟨lsda, input, false⟩ sites.length).input = []) := by
  -- on the bytes left: every entry takes at least four
  induction hlength : input.length using Nat.strong_induction_on generalizing input with
  | _ length ih =>
    by_cases hinput : input = []
    · subst hinput
      exact ⟨[], none, Sites.fused.yields_nil rfl, Nat.zero_le _, fun _ => rfl⟩
    cases hsite : callSite lsda input with
    | error e =>
      have hnext := Sites.next_error (s := ⟨lsda, input, false⟩) rfl hinput hsite
      refine ⟨[], some e, ?_, Nat.zero_le _, by simp⟩
      rw [List.map_nil, List.nil_append, Option.toList_some, List.map_singleton,
        Iter.yields_cons hnext]
      exact Sites.fused.yields_nil rfl
    | ok result =>
      obtain ⟨rest, site⟩ := result
      have hnext := Sites.next_ok (s := ⟨lsda, input, false⟩) rfl hinput hsite
      have hrest := callSite_consumes _ _ _ _ hsite
      obtain ⟨sites, error, hyields, hle, hend⟩ := ih rest.length (by omega) rest rfl
      refine ⟨site :: sites, error, ?_, ?_, ?_⟩
      · rw [List.map_cons, List.cons_append, Iter.yields_cons hnext]
        exact hyields
      · rw [List.length_cons]
        omega
      · intro herror
        rw [List.length_cons, ← Iter.state_next, hnext]
        exact hend herror

/-! ## The header in front of the table -/

/-- The header in front of a stored table is accepted with the table. -/
theorem Lsda.new_of_stored {bytes input octets table tail : List UInt8} {bases : Bases}
    {endian : Endian} {landingBase : ℕ} {types : Option Types} {encoding : DwEhPe}
    (hplain : encoding.Plain)
    (hlanding : Lsda.landing bytes bases endian bytes = .ok (input, landingBase))
    (htypes : Lsda.typeTable bytes input =
      .ok (UInt8.ofNat encoding.raw :: (octets ++ (table ++ tail)), types))
    (hlength : StoresUleb table.length octets) :
    Lsda.new bytes bases endian = .ok ⟨bytes, bases, endian, landingBase, types, encoding, table,
      bytes.length - tail.length⟩ := by
  -- a format is one of nine bytes, so storing it loses nothing
  have hbyte : ∀ e ∈ DwEhPe.formats, e = ⟨(UInt8.ofNat e.raw).toNat⟩ := by decide
  have hraw := hbyte encoding hplain.mem
  have hsuffix := (Lsda.typeTable_suffix htypes).trans (Lsda.landing_suffix hlanding)
  have htail := hsuffix.length_le
  simp only [List.length_cons, List.length_append] at htail
  rw [Lsda.new_eq_ok]
  refine ⟨input, landingBase, _, types, _, _, table ++ tail, tail, table, hlanding, htypes, rfl,
    storesUleb_reads hlength _, rfl, by omega, ?_, ?_, ?_⟩
  · rw [← hraw]; exact hplain.isValidEncoding
  · rw [← hraw]; exact hplain.isAbsent
  · rw [← hraw]

end

/-! ## The shortest table stores its records -/

theorem storesUleb_encode {n : ℕ} (h : n < size) : StoresUleb n (Leb128.encode n) :=
  ⟨h, Leb128.encoding_encode n,
    Leb128.length_encode_le (Nat.lt_of_lt_of_le h (by decide)) (by decide),
    Leb128.value_encode n⟩

theorem stores_writeOffset {format : DwEhPe} (hformat : format ∈ DwEhPe.formats)
    (endian : Endian) {n : ℕ} (h : n < 2 ^ format.capacity) :
    Stores format endian n (writeOffset format endian n) := by
  simp only [DwEhPe.formats, List.mem_cons, List.not_mem_nil, or_false] at hformat
  rcases hformat with rfl | rfl | rfl | rfl | rfl | rfl | rfl | rfl | rfl
  -- the two LEB128 formats; the others have a fixed width
  case inr.inl => exact storesUleb_encode h
  case inr.inr.inr.inr.inr.inl =>
    have hlength : (Leb128.encodeSigned n).length ≤ 10 :=
      Leb128.length_encodeSigned_le (Nat.lt_of_lt_of_le h (by decide))
    exact ⟨h, Leb128.encoding_encodeSigned n, hlength, Leb128.signedValue_encodeSigned n⟩
  all_goals exact ⟨h, rfl⟩

theorem storedTable_writeTable {encoding : DwEhPe} (hencoding : encoding ∈ DwEhPe.formats)
    (endian : Endian) {records : List CallSite} (h : ∀ r ∈ records, r.Fits encoding) :
    StoredTable encoding endian records (writeTable encoding endian records) := by
  induction records with
  | nil => exact .nil
  | cons r rs ih =>
    obtain ⟨hstart, hsize, hlanding, haction⟩ := h r List.mem_cons_self
    refine .cons ⟨_, _, _, _, stores_writeOffset hencoding endian hstart,
      stores_writeOffset hencoding endian hsize, stores_writeOffset hencoding endian hlanding,
      storesUleb_encode haction, rfl⟩ (ih fun r hr => h r (List.mem_cons_of_mem _ hr))

section

variable [PointerEncoding]

/-- Call-site tables decode to exactly the records they store, whichever LEB128 encodings they
use, and the shortest table is one of them. Any other table yields entries of at least four
bytes each, then at most one error, and without an error is used up. -/
theorem Lsda.sites_decode (hstandard : PointerEncoding.Standard) :
    (∀ {bytes tail : List UInt8} {bases : Bases} {endian : Endian} {landingBase : ℕ}
      {encoding : DwEhPe} {records : List CallSite}, encoding ∈ DwEhPe.formats →
      StoredLsda bytes bases endian landingBase encoding records tail →
      (∀ r ∈ records, r.landing ≠ 0 → landingBase + r.landing < size) →
      ∃ lsda, Lsda.new bytes bases endian = .ok lsda ∧
        lsda.actionOffset + tail.length = bytes.length ∧
        bytes.drop lsda.actionOffset = tail ∧
        Iter.Yields Sites.next lsda.sites (records.map fun r => .ok (r.site landingBase))) ∧
    (∀ {encoding : DwEhPe} (endian : Endian) {records : List CallSite},
      encoding ∈ DwEhPe.formats → (∀ r ∈ records, r.Fits encoding) →
      StoredTable encoding endian records (writeTable encoding endian records)) ∧
    (∀ {bytes : List UInt8} {bases : Bases} {endian : Endian} {lsda : Lsda},
      Lsda.new bytes bases endian = .ok lsda →
      ∃ (sites : List Site) (error : Option LsdaError),
        Iter.Yields Sites.next lsda.sites (sites.map .ok ++ error.toList.map .error) ∧
        sites.length ≤ lsda.callSites.length / 4 ∧
        (error = none → (Iter.state Sites.next lsda.sites sites.length).input = [])) := by
  refine ⟨?_, fun endian _ hencoding h => storedTable_writeTable hencoding endian h, ?_⟩
  · intro bytes tail bases endian landingBase encoding records hencoding hstored hland
    obtain ⟨input, types, octets, table, hlanding, htypes, hlength, htable⟩ := hstored
    have hplain := hstandard.plain hencoding
    have hsuffix := (typeTable_suffix htypes).trans (landing_suffix hlanding)
    have htail : tail <:+ bytes := by
      refine List.IsSuffix.trans ?_ hsuffix
      exact ⟨UInt8.ofNat encoding.raw :: (octets ++ table), by simp⟩
    refine ⟨_, new_of_stored hplain hlanding htypes hlength, ?_, ?_, ?_⟩
    · exact Nat.sub_add_cancel htail.length_le
    · exact List.suffix_iff_eq_drop.1 htail ▸ rfl
    · exact sites_of_stored hplain hland htable
  · intro bytes bases endian lsda _
    obtain ⟨sites, error, hyields, hle, hend⟩ := sites_of_any lsda lsda.callSites
    exact ⟨sites, error, hyields, (Nat.le_div_iff_mul_le (by decide)).2 (by omega), hend⟩

end

/-- An entry that cleans up and one that catches, in front of an action record. -/
theorem Lsda.sites_decode_pair :
    ∃ lsda, @Lsda.new .bits [0xff, 0xff, 0x01, 0x08, 0x00, 0x05, 0x0a, 0x00, 0x05, 0x07, 0x0c, 0x01,
        0x01, 0x00] (.new 0x1000 0x2000) .little = .ok lsda ∧
      lsda.actionOffset + 2 = 14 ∧ lsda.bytes.drop lsda.actionOffset = [0x01, 0x00] ∧
      Iter.Yields (@Sites.next .bits) lsda.sites
        [.ok ⟨0, 5, some 0x200a, none⟩, .ok ⟨5, 7, some 0x200c, some ⟨1, by decide⟩⟩] := by
  let _ := PointerEncoding.bits
  let records : List CallSite := [⟨0, 5, 10, 0⟩, ⟨5, 7, 12, 1⟩]
  have hstored : StoredLsda [0xff, 0xff, 0x01, 0x08, 0x00, 0x05, 0x0a, 0x00, 0x05, 0x07, 0x0c, 0x01,
      0x01, 0x00] (.new 0x1000 0x2000) .little 0x2000 ULEB records [0x01, 0x00] :=
    ⟨_, none, [0x08], writeTable ULEB .little records, rfl, by decide,
      storesUleb_encode (n := 8) (by decide), storedTable_writeTable (by decide) _ (by decide)⟩
  obtain ⟨lsda, hnew, hoffset, htail, hyields⟩ :=
    (Lsda.sites_decode PointerEncoding.standard_bits).1 (by decide) hstored (by decide)
  exact ⟨lsda, hnew, hoffset, by rw [(Lsda.new_fields hnew).1, htail], hyields⟩

end Desenredo
