import Desenredo.Lsda.TableTheorems

/-!
# The reverse RTTI table

An entry of the type table is decoded from a slot counted backwards from the end of the table. Of
the table only the bytes of the slot, and where it lies, decide what it decodes to.
-/

namespace Desenredo

open Usize

/-! ## Fixed-width fields -/

namespace DwEhPe

/-- The number of bytes a format fixes, when it fixes one. -/
def fixed : DwEhPe → Option ℕ
  | ABS | U8 | S8 => some 8
  | U4 | S4 => some 4
  | U2 | S2 => some 2
  | _ => none

/-- The integer a field of a fixed-width format stores: the signed formats are sign-extended, the
others zero-extended. -/
def stored (format : DwEhPe) (endian : Endian) (field : List UInt8) : ℤ :=
  match format with
  | S2 | S4 | S8 => Fixed.signed (8 * field.length) (endian.number field)
  | _ => endian.number field

/-- The base of an application for a field at an address. -/
def base (application : DwEhPe) (bases : Bases) (field : ℕ) : Option ℕ :=
  match application with
  | ABS | ALIGN => some 0
  | PC => some field
  | TEXT => bases.textBase
  | DATA => bases.dataBase
  | FUNC => some bases.function
  | _ => none

theorem applicationBase_eq_ok {application : DwEhPe} {bases : Bases} {field b : ℕ} :
    applicationBase application field bases = .ok b ↔ application.base bases field = some b := by
  unfold applicationBase base
  split <;> simp [Option.okOr_eq_ok]

variable {format : DwEhPe} {width : ℕ}

theorem fixedWidth_of_fixed (h : format.fixed = some width) : FixedWidth width := by
  unfold fixed at h
  split at h <;> cases h <;> decide

/-- A fixed-width format reads its bytes and the integer they store. -/
theorem scalar_eq_map (h : format.fixed = some width) (endian : Endian) :
    ∃ read : List UInt8 → Scalar, scalar format endian = (takeBytes width).map read ∧
      ∀ field, field.length = width → (read field).value = format.stored endian field := by
  have hfixed := fixedWidth_of_fixed h
  have hunsigned : (unsigned width endian).map Scalar.unsigned =
      (takeBytes width).map fun field => .unsigned (endian.number field) := by
    rw [unsigned_eq_map hfixed, Parser.map_map]
  have hsigned : (signed width endian).map Scalar.signed = (takeBytes width).map fun field =>
      .signed (Fixed.signed (8 * width) (endian.number field)) := by
    rw [signed_eq_map hfixed, Parser.map_map]
  unfold fixed at h
  -- the formats of one signedness share a reader, whatever their width
  split at h <;> cases h
  case h_1 | h_2 | h_4 | h_6 => exact ⟨_, hunsigned, fun _ _ => rfl⟩
  case h_3 | h_5 | h_7 =>
    refine ⟨_, hsigned, ?_⟩
    rintro field hlength
    simp only [Scalar.value, stored, hlength]

end DwEhPe

/-! ## Entries -/

section

variable [PointerEncoding] {lsda : Lsda} {types : Types} {index : TypeIndex} {width : ℕ}

theorem Types.width_eq_ok (h : types.encoding.format.fixed = some width) :
    Types.width types.encoding = .ok width := by
  unfold DwEhPe.fixed at h
  split at h <;> cases h <;> rename_i hformat <;> simp only [Types.width, hformat]

/-- What an entry decodes to, told by the bytes of its field and their address. -/
def DwEhPe.decode (e : DwEhPe) (bases : Bases) (endian : Endian) (address : ℕ)
    (field : List UInt8) : Except LsdaError Target := do
  let base ← applicationBase e.application address bases
  let addr ← (tryFromInt (base + e.format.stored endian field)).okOr .overflow
  .ok ⟨addr, e.isIndirect⟩

theorem DwEhPe.decode_eq_ok {e : DwEhPe} {bases : Bases} {endian : Endian} {address : ℕ}
    {field : List UInt8} {t : Target} :
    e.decode bases endian address field = .ok t ↔
      ∃ base, e.application.base bases address = some base ∧
        0 ≤ base + e.format.stored endian field ∧ base + e.format.stored endian field < size ∧
        t = ⟨(base + e.format.stored endian field).toNat, e.isIndirect⟩ := by
  simp only [decode, Except.bind_eq_ok_iff, Option.okOr_eq_ok, applicationBase_eq_ok,
    tryFromInt_eq_some, Except.ok.injEq]
  constructor
  · rintro ⟨base, hbase, addr, ⟨haddr, hlt⟩, rfl⟩
    exact ⟨base, hbase, by omega, by omega, by rw [← haddr, Int.toNat_natCast]⟩
  · rintro ⟨base, hbase, hnonneg, hlt, rfl⟩
    exact ⟨base, hbase, _, ⟨Int.toNat_of_nonneg hnonneg, by omega⟩, rfl⟩

/-- An entry of a fixed-width encoding is decoded from the field in its slot, behind the alignment
an aligned encoding asks for. -/
theorem Types.get_eq (hwidth : types.encoding.format.fixed = some width)
    (hvalid : types.encoding.isValidEncoding) (habsent : ¬types.encoding.isAbsent)
    (hsize : types.fin < size) (hle : index.raw * width ≤ types.fin) {input : List UInt8}
    (hinput : fieldInput lsda.bytes types.encoding lsda.bases
      (lsda.bytes.drop (types.fin - index.raw * width)) = .ok input)
    (hlength : width ≤ input.length)
    (hend : lsda.bytes.length - input.length + width ≤ types.fin)
    (hfield : lsda.bases.origin + (lsda.bytes.length - input.length) < size) :
    types.get lsda index = types.encoding.decode lsda.bases lsda.endian
      (lsda.bases.origin + (lsda.bytes.length - input.length)) (input.take width) := by
  have hshorter := (fieldInput_suffix hinput).length_le
  have hpos : 1 ≤ width := (DwEhPe.fixedWidth_of_fixed hwidth).one_le
  rw [List.length_drop] at hshorter
  have hmul : checkedMul index.raw width = some (index.raw * width) := if_pos (by omega)
  have hsub : checkedSub types.fin (index.raw * width) =
      some (types.fin - index.raw * width) := if_pos hle
  have htake : takeBytes (types.fin - index.raw * width) lsda.bytes =
      .ok (lsda.bytes.drop (types.fin - index.raw * width),
        lsda.bytes.take (types.fin - index.raw * width)) := if_pos (by omega)
  have hposition : position lsda.bytes input = .ok (lsda.bytes.length - input.length) :=
    position_eq_ok.2 ⟨by omega, rfl⟩
  have hadd : checkedAdd lsda.bases.origin (lsda.bytes.length - input.length) =
      some (lsda.bases.origin + (lsda.bytes.length - input.length)) := if_pos hfield
  have hconsumed : position lsda.bytes (input.drop width) =
      .ok (lsda.bytes.length - (input.length - width)) :=
    position_eq_ok.2 ⟨by rw [List.length_drop]; omega, by rw [List.length_drop]⟩
  -- the field is read in full before its base is looked up
  obtain ⟨read, hread, hvalue⟩ := DwEhPe.scalar_eq_map hwidth lsda.endian
  have hscalar : scalar types.encoding.format lsda.endian input =
      .ok (input.drop width, read (input.take width)) := by
    rw [hread]
    exact Parser.map_eq_ok.2 ⟨_, if_pos hlength, rfl⟩
  have hstored := hvalue _ (List.length_take_of_le hlength)
  rw [get, width_eq_ok hwidth]
  simp only [Except.bind_ok, hmul, hsub, Option.okOr_some, htake, target, hinput, hposition, hadd,
    hscalar, Scalar.add, hstored]
  -- the field ends where the slot does, inside the table
  have hfits : lsda.bytes.length - (input.length - width) ≤ types.fin := by omega
  rw [if_pos ⟨hvalid, habsent⟩, DwEhPe.decode]
  simp only [bind_assoc, Except.bind_ok, hconsumed, if_pos hfits]

/-- An entry is found exactly where a field of its width lies between its slot and the end of the
table, and the address space has room for the field's address. -/
theorem Types.get_eq_ok (hwidth : types.encoding.format.fixed = some width)
    (hvalid : types.encoding.isValidEncoding) (habsent : ¬types.encoding.isAbsent)
    (hsize : types.fin < size) {t : Target} :
    types.get lsda index = .ok t ↔ index.raw * width ≤ types.fin ∧ ∃ input,
      fieldInput lsda.bytes types.encoding lsda.bases
        (lsda.bytes.drop (types.fin - index.raw * width)) = .ok input ∧
      width ≤ input.length ∧ lsda.bytes.length - input.length + width ≤ types.fin ∧
      lsda.bases.origin + (lsda.bytes.length - input.length) < size ∧
      types.encoding.decode lsda.bases lsda.endian
        (lsda.bases.origin + (lsda.bytes.length - input.length)) (input.take width) = .ok t := by
  constructor
  · intro hget
    have hok := hget
    rw [get, width_eq_ok hwidth, Except.bind_ok] at hget
    obtain ⟨_, hmul, hget⟩ := Except.bind_eq_ok_iff.1 hget
    obtain ⟨-, rfl⟩ := checkedMul_eq_some.1 (Option.okOr_eq_ok.1 hmul)
    obtain ⟨_, hsub, hget⟩ := Except.bind_eq_ok_iff.1 hget
    obtain ⟨hle, rfl⟩ := checkedSub_eq_some.1 (Option.okOr_eq_ok.1 hsub)
    obtain ⟨⟨slot, skipped⟩, htake, hget⟩ := Except.bind_eq_ok_iff.1 hget
    obtain ⟨hbytes, hskipped⟩ := takeBytes_eq_ok.1 htake
    have hslot : slot = lsda.bytes.drop (types.fin - index.raw * width) := by
      rw [hbytes, ← hskipped, List.drop_left]
    obtain ⟨⟨rest, t'⟩, htarget, hget⟩ := Except.bind_eq_ok_iff.1 hget
    obtain ⟨consumed, hconsumed, hget⟩ := Except.bind_eq_ok_iff.1 hget
    split at hget
    case isFalse => cases hget
    rename_i hend
    obtain ⟨-, -, input, offset, s, -, hinput, hoffset, hlt, hscalar, -⟩ := target_eq_ok.1 htarget
    obtain ⟨hshorter, rfl⟩ := position_eq_ok.1 hoffset
    obtain ⟨-, rfl⟩ := position_eq_ok.1 hconsumed
    -- the scalar takes the bytes of its width
    obtain ⟨read, hread, -⟩ := DwEhPe.scalar_eq_map hwidth lsda.endian
    rw [hread] at hscalar
    obtain ⟨field, hfield, -⟩ := Parser.map_eq_ok.1 hscalar
    obtain ⟨rfl, hlength⟩ := takeBytes_eq_ok.1 hfield
    rw [hslot] at hinput
    rw [List.length_append] at hshorter
    have hwide : width ≤ (field ++ rest).length := by
      rw [List.length_append]
      omega
    have hinside : lsda.bytes.length - (field ++ rest).length + width ≤ types.fin := by
      rw [List.length_append]
      omega
    refine ⟨hle, field ++ rest, hinput, hwide, hinside, hlt, ?_⟩
    rw [← get_eq hwidth hvalid habsent hsize hle hinput hwide hinside hlt, hok]
  · rintro ⟨hle, input, hinput, hwide, hinside, hlt, hdecode⟩
    rw [get_eq hwidth hvalid habsent hsize hle hinput hwide hinside hlt, hdecode]

/-- The type table of a parsed table lies within its bytes and has an accepted encoding. -/
theorem Lsda.new_types {bytes : List UInt8} {bases : Bases} {endian : Endian}
    (hnew : Lsda.new bytes bases endian = .ok lsda) (htypes : lsda.types = some types) :
    types.fin ≤ bytes.length ∧ types.fin < size ∧ types.encoding.raw < 256 ∧
      types.encoding.isValidEncoding ∧ ¬types.encoding.isAbsent := by
  obtain ⟨input, _, _, _, _, _, _, _, _, -, htable, -, -, -, -, -, -, rfl⟩ := new_eq_ok.1 hnew
  obtain rfl := htypes
  obtain ⟨encoding, _, -, ⟨-, -, hnone⟩ | ⟨habsent, hvalid, _, _, -, -, hlt, hle, heq⟩⟩ :=
    typeTable_eq_ok.1 htable
  · cases hnone
  · obtain rfl := Option.some.inj heq
    exact ⟨hle, hlt, encoding.toNat_lt, hvalid, habsent⟩

/-- Without an alignment the field of an entry is its slot. -/
theorem Types.get_eq_slot (hwidth : types.encoding.format.fixed = some width)
    (hvalid : types.encoding.isValidEncoding) (habsent : ¬types.encoding.isAbsent)
    (halign : types.encoding.application ≠ ALIGN) (hsize : types.fin < size)
    (hle : index.raw * width ≤ types.fin)
    (hlength : ((lsda.bytes.drop (types.fin - index.raw * width)).take width).length = width)
    (hspace : lsda.bases.origin + types.fin < size) :
    types.get lsda index = types.encoding.decode lsda.bases lsda.endian
      (lsda.bases.origin + (types.fin - index.raw * width))
      ((lsda.bytes.drop (types.fin - index.raw * width)).take width) := by
  have hpos : 1 ≤ width := (DwEhPe.fixedWidth_of_fixed hwidth).one_le
  have hindex : width ≤ index.raw * width :=
    Nat.le_mul_of_pos_left width (Nat.pos_of_ne_zero index.raw.property)
  rw [List.length_take, List.length_drop] at hlength
  have hoffset : lsda.bytes.length - (lsda.bytes.drop (types.fin - index.raw * width)).length =
      types.fin - index.raw * width := by
    rw [List.length_drop]
    omega
  rw [get_eq hwidth hvalid habsent hsize hle (if_neg halign) (by rw [List.length_drop]; omega)
    (by omega) (by omega), hoffset]

/-- **Reverse lookup.** An entry of the type table is the integer its slot stores, extended as the
format says, plus the base of its application. Nothing outside the slot is read. -/
theorem Lsda.get_reads_slot (hstandard : PointerEncoding.Standard) {bytes : List UInt8}
    {bases : Bases} {endian : Endian} (hnew : Lsda.new bytes bases endian = .ok lsda)
    (htypes : lsda.types = some types)
    (hwidth : (PointerEncoding.bits.format types.encoding).fixed = some width)
    (happlication : PointerEncoding.bits.application types.encoding ∈ [ABS, PC, TEXT, DATA, FUNC])
    (hspace : bases.origin + bytes.length < size) (index : TypeIndex) :
    let e := types.encoding
    let start := types.fin - index.raw * width
    let slot := (bytes.drop start).take width
    let value := (PointerEncoding.bits.format e).stored endian slot
    (types.fin < index.raw * width → ∃ error, types.get lsda index = .error error) ∧
    (index.raw * width ≤ types.fin →
      slot.length = width ∧ start + width = types.fin - (index.raw - 1) * width ∧
      (∀ t, types.get lsda index = .ok t ↔
        ∃ base, (PointerEncoding.bits.application e).base bases (bases.origin + start) = some base ∧
          0 ≤ base + value ∧ base + value < size ∧
          t = ⟨(base + value).toNat, PointerEncoding.bits.isIndirect e⟩) ∧
      ∀ bytes' : List UInt8, (bytes'.drop start).take width = slot →
        types.get { lsda with bytes := bytes' } index = types.get lsda index) := by
  intro e start slot value
  obtain ⟨hfin, hsize, hraw, hvalid, habsent⟩ := Lsda.new_types hnew htypes
  obtain ⟨hbytes, hbases, hendian⟩ := Lsda.new_fields hnew
  have hformat : e.format = PointerEncoding.bits.format e := hstandard.format e hraw
  have happ : e.application = PointerEncoding.bits.application e := hstandard.application e hraw
  have hindirect : e.isIndirect = PointerEncoding.bits.isIndirect e :=
    hstandard.isIndirect e hraw
  have halign : e.application ≠ ALIGN := by
    rw [happ]
    rintro heq
    rw [show PointerEncoding.bits.application types.encoding = ALIGN from heq] at happlication
    revert happlication
    decide
  rw [← hformat] at hwidth
  refine ⟨fun hlt => ?_, fun hle => ?_⟩
  · cases hget : types.get lsda index with
    | error error => exact ⟨error, rfl⟩
    | ok t => exact absurd ((Types.get_eq_ok hwidth hvalid habsent hsize).1 hget).1 (not_le.2 hlt)
  have hpos : 1 ≤ width := (DwEhPe.fixedWidth_of_fixed hwidth).one_le
  have hindex : (index.raw - 1 + 1) * width = index.raw * width := by
    rw [Nat.sub_add_cancel (Nat.pos_of_ne_zero index.raw.property)]
  rw [Nat.succ_mul] at hindex
  have hlength : slot.length = width := by
    rw [List.length_take, List.length_drop]
    omega
  -- other bytes with the same slot decode the same entry
  have hget (bytes' : List UInt8) (hslot : (bytes'.drop start).take width = slot) :
      types.get { lsda with bytes := bytes' } index =
        e.decode bases endian (bases.origin + start) slot := by
    rw [Types.get_eq_slot hwidth hvalid habsent halign hsize hle (by rw [hslot, hlength])
      (by rw [hbases]; omega), hslot, hbases, hendian]
  have hsame : types.get lsda index = e.decode bases endian (bases.origin + start) slot := by
    rw [← hget bytes rfl, ← hbytes]
  refine ⟨hlength, by omega, fun t => ?_, fun bytes' hslot => by rw [hget bytes' hslot, hsame]⟩
  rw [hsame, DwEhPe.decode_eq_ok, happ, hindirect, hformat]

end

attribute [local instance] PointerEncoding.bits in
/-- The one entry of an eight byte table. -/
theorem Lsda.get_reads_slot_single : ∃ lsda types,
    new [0xff, 0x00, 0x10, 0x01, 0x04, 0x00, 0x05, 0x0a, 0x01, 0x01, 0x00, 0x34, 0x12, 0, 0, 0, 0,
      0, 0] (.new 0x1000 0x2000) .little = .ok lsda ∧
    lsda.types = some types ∧ types.get lsda ⟨1, by decide⟩ = .ok ⟨0x1234, false⟩ := by
  let bytes : List UInt8 := [0xff, 0x00, 0x10, 0x01, 0x04, 0x00, 0x05, 0x0a, 0x01, 0x01, 0x00,
    0x34, 0x12, 0, 0, 0, 0, 0, 0]
  let types : Types := ⟨19, ABS⟩
  let lsda : Lsda := ⟨bytes, .new 0x1000 0x2000, .little, 0x2000, some types, ULEB,
    [0x00, 0x05, 0x0a, 0x01], 9⟩
  have hnew : new bytes (.new 0x1000 0x2000) .little = .ok lsda := by decide
  have hget := (Lsda.get_reads_slot PointerEncoding.standard_bits hnew rfl
    (show (PointerEncoding.bits.format types.encoding).fixed = some 8 by decide) (by decide)
    (by decide) ⟨1, by decide⟩).2 (by decide)
  refine ⟨lsda, types, hnew, rfl, (hget.2.2.1 _).2 ⟨0, by decide, by decide, by decide, ?_⟩⟩
  decide

/-! ## Zero fields -/

namespace DwEhPe

theorem number_zero (endian : Endian) (width : ℕ) :
    endian.number (List.replicate width 0) = 0 := by
  have hlittle : Fixed.number (List.replicate width 0) = 0 := by
    induction width with
    | zero => rfl
    | succ width ih => rw [List.replicate_succ, Fixed.number, ih]; rfl
  cases endian with
  | little => exact hlittle
  | big => rw [Endian.number, List.reverse_replicate, hlittle]

/-- A zero field stores zero in every format. -/
theorem stored_zero (format : DwEhPe) (endian : Endian) (width : ℕ) :
    format.stored endian (List.replicate width 0) = 0 := by
  unfold stored
  split
  -- the signed reading of zero is zero at every width
  case h_4 => rw [number_zero, Nat.cast_zero]
  all_goals rw [number_zero, Fixed.signed_of_lt (Nat.two_pow_pos _), Nat.cast_zero]

/-- A zero field decodes to the base of its application. -/
theorem decode_zero [PointerEncoding] {e : DwEhPe} {bases : Bases} {endian : Endian}
    {address width : ℕ} {t : Target} :
    e.decode bases endian address (List.replicate width 0) = .ok t ↔
      ∃ base, e.application.base bases address = some base ∧ base < size ∧
        t = ⟨base, e.isIndirect⟩ := by
  rw [decode_eq_ok]
  simp only [stored_zero, add_zero, Int.toNat_natCast, Int.natCast_nonneg, Nat.cast_lt, true_and]

end DwEhPe

section

variable [PointerEncoding] {types : Types} {lsda : Lsda} {index : TypeIndex} {width : ℕ}

/-- **Zero entries.** A zero field of the type table decodes like any other: to the base of its
application, whatever the encoding and with its indirection kept. So the target is null exactly
when that base is. -/
theorem Lsda.zero_entry_is_base (hstandard : PointerEncoding.Standard) {bytes : List UInt8}
    {bases : Bases} {endian : Endian} (hnew : Lsda.new bytes bases endian = .ok lsda)
    (htypes : lsda.types = some types)
    (hwidth : (PointerEncoding.bits.format types.encoding).fixed = some width)
    (hle : index.raw * width ≤ types.fin) {input : List UInt8}
    (hinput : fieldInput bytes types.encoding bases
      (bytes.drop (types.fin - index.raw * width)) = .ok input)
    (hend : bytes.length - input.length + width ≤ types.fin)
    (hzero : input.take width = List.replicate width 0) :
    let e := types.encoding
    let field := bases.origin + (bytes.length - input.length)
    let base := (PointerEncoding.bits.application e).base bases field
    (∀ t, types.get lsda index = .ok t ↔ field < size ∧ ∃ addr, base = some addr ∧ addr < size ∧
      t = ⟨addr, PointerEncoding.bits.isIndirect e⟩) ∧
    ((∃ t, types.get lsda index = .ok t ∧ t.addr = 0) ↔ field < size ∧ base = some 0) := by
  intro e field base
  obtain ⟨hfin, hsize, hraw, hvalid, habsent⟩ := Lsda.new_types hnew htypes
  obtain ⟨rfl, rfl, rfl⟩ := Lsda.new_fields hnew
  have hformat : e.format = PointerEncoding.bits.format e := hstandard.format e hraw
  have happ : e.application = PointerEncoding.bits.application e := hstandard.application e hraw
  have hindirect : e.isIndirect = PointerEncoding.bits.isIndirect e :=
    hstandard.isIndirect e hraw
  rw [← hformat] at hwidth
  have hlength : width ≤ input.length := by
    rw [← List.length_replicate (n := width) (a := (0 : UInt8)), ← hzero, List.length_take]
    omega
  have hget (t : Target) : types.get lsda index = .ok t ↔ field < size ∧
      ∃ addr, base = some addr ∧ addr < size ∧ t = ⟨addr, PointerEncoding.bits.isIndirect e⟩ := by
    -- a field behind the end of the address space has no address
    by_cases hfield : field < size
    · rw [Types.get_eq hwidth hvalid habsent hsize hle hinput hlength hend hfield, hzero,
        DwEhPe.decode_zero, happ, hindirect, and_iff_right hfield]
    · refine iff_of_false (fun hok => ?_) fun h => hfield h.1
      obtain ⟨-, found, hfound, -, -, hlt, -⟩ :=
        (Types.get_eq_ok hwidth hvalid habsent hsize).1 hok
      obtain rfl := Except.ok.inj (hinput.symm.trans hfound)
      exact hfield hlt
  refine ⟨hget, ?_⟩
  constructor
  · rintro ⟨t, ht, hnull⟩
    obtain ⟨hfield, addr, hbase, -, rfl⟩ := (hget t).1 ht
    rw [hbase, show addr = 0 from hnull]
    exact ⟨hfield, rfl⟩
  · rintro ⟨hfield, hbase⟩
    exact ⟨_, (hget _).2 ⟨hfield, 0, hbase, by decide, rfl⟩, rfl⟩

end

/-- The null entry of a catch-all clause under a pc-relative indirect encoding. -/
theorem Lsda.zero_entry_relocated : ¬∀ (bytes : List UInt8) (bases : Bases) (endian : Endian)
    (lsda : Lsda) (types : Types) (width : ℕ) (index : TypeIndex),
    @new .bits bytes bases endian = .ok lsda → lsda.types = some types →
    (PointerEncoding.bits.format types.encoding).fixed = some width →
    index.raw * width ≤ types.fin →
    (bytes.drop (types.fin - index.raw * width)).take width = List.replicate width 0 →
    ∃ t, @Types.get .bits types lsda index = .ok t ∧ t.addr = 0 := by
  let bytes : List UInt8 := [0xff, 0x9b, 0x11, 0x01, 0x08, 0x09, 0x05, 0x17, 0x01, 0x24, 0x05,
    0x00, 0x00, 0x01, 0x00, 0x00, 0x00, 0x00, 0x00, 0x00]
  let types : Types := ⟨20, ⟨0x9b⟩⟩
  let lsda : Lsda := ⟨bytes, .new 0x1000 0x2000, .little, 0x2000, some types, ULEB,
    [0x09, 0x05, 0x17, 0x01, 0x24, 0x05, 0x00, 0x00], 13⟩
  intro h
  obtain ⟨t, hget, hnull⟩ := h bytes (.new 0x1000 0x2000) .little lsda types 4 ⟨1, by decide⟩
    (by decide) rfl (by decide) (by decide) (by decide)
  -- the field is at 0x1010, and a pc-relative zero is its own address
  have hentry : @Types.get .bits types lsda ⟨1, by decide⟩ = .ok ⟨0x1010, true⟩ := by decide
  obtain rfl := Except.ok.inj (hentry.symm.trans hget)
  revert hnull
  decide

attribute [local instance] PointerEncoding.bits in
/-- The same entry decodes to the address of its field. -/
theorem Lsda.zero_entry_is_base_pc : ∃ lsda types,
    new [0xff, 0x9b, 0x11, 0x01, 0x08, 0x09, 0x05, 0x17, 0x01, 0x24, 0x05, 0x00, 0x00, 0x01, 0x00,
      0x00, 0x00, 0x00, 0x00, 0x00] (.new 0x1000 0x2000) .little = .ok lsda ∧
    lsda.types = some types ∧ types.get lsda ⟨1, by decide⟩ = .ok ⟨0x1010, true⟩ := by
  let bytes : List UInt8 := [0xff, 0x9b, 0x11, 0x01, 0x08, 0x09, 0x05, 0x17, 0x01, 0x24, 0x05,
    0x00, 0x00, 0x01, 0x00, 0x00, 0x00, 0x00, 0x00, 0x00]
  let types : Types := ⟨20, ⟨0x9b⟩⟩
  let lsda : Lsda := ⟨bytes, .new 0x1000 0x2000, .little, 0x2000, some types, ULEB,
    [0x09, 0x05, 0x17, 0x01, 0x24, 0x05, 0x00, 0x00], 13⟩
  have hnew : new bytes (.new 0x1000 0x2000) .little = .ok lsda := by decide
  have hinput : fieldInput bytes types.encoding (.new 0x1000 0x2000) (bytes.drop (20 - 1 * 4)) =
      .ok [0, 0, 0, 0] := by decide
  have hindex : (⟨1, by decide⟩ : TypeIndex).raw * 4 ≤ types.fin := by decide
  have hget := Lsda.zero_entry_is_base PointerEncoding.standard_bits hnew rfl
    (show (PointerEncoding.bits.format types.encoding).fixed = some 4 by decide) hindex hinput
    (by decide) (by decide)
  exact ⟨lsda, types, hnew, rfl, (hget.1 _).2 ⟨by decide, 0x1010, by decide, by decide, by decide⟩⟩

end Desenredo
