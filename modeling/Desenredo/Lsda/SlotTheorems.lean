import Desenredo.Lsda.TypeTheorems

/-!
# The slots of the reverse RTTI table

Every index has a slot of the table to itself, counted from the end. An aligned encoding skips
padding inside the slot, and nothing keeps the field behind the padding from reaching into the
slots that follow: it is checked against the end of the table only.
-/

namespace Desenredo

open Usize

/-! ## Alignment -/

/-- The bytes from an address to the next multiple of eight. -/
def padding (address : ℕ) : ℕ := if address % 8 = 0 then 0 else 8 - address % 8

theorem padding_eq_zero {address : ℕ} : padding address = 0 ↔ address % 8 = 0 := by
  rw [padding]
  split <;> omega

theorem position_drop {bytes : List UInt8} {n : ℕ} (h : n ≤ bytes.length) :
    position bytes (bytes.drop n) = .ok n := by
  refine position_eq_ok.2 ⟨?_, ?_⟩ <;> rw [List.length_drop] <;> omega

theorem aligned_eq (bytes input : List UInt8) (bases : Bases) :
    aligned bytes input bases = (do
      let offset ← position bytes input
      let address ← (checkedAdd bases.origin offset).okOr .overflow
      let (rest, _) ← takeBytes (padding address) input
      .ok rest) := rfl

theorem aligned_eq_ok {bytes input : List UInt8} {bases : Bases} {start : ℕ}
    (hstart : start ≤ bytes.length) :
    aligned bytes (bytes.drop start) bases = .ok input ↔
      bases.origin + start < size ∧ start + padding (bases.origin + start) ≤ bytes.length ∧
        input = bytes.drop (start + padding (bases.origin + start)) := by
  simp only [aligned_eq, position_drop hstart, Except.bind_ok, Except.bind_eq_ok_iff,
    Option.okOr_eq_ok, checkedAdd_eq_some, Except.ok.injEq, Prod.exists]
  constructor
  · rintro ⟨address, ⟨hlt, rfl⟩, rest, skipped, htake, rfl⟩
    obtain ⟨happend, hlength⟩ := takeBytes_eq_ok.1 htake
    have hdrop := congrArg List.length happend
    rw [List.length_drop, List.length_append, hlength] at hdrop
    refine ⟨hlt, by omega, ?_⟩
    rw [← List.drop_drop, happend, ← hlength, List.drop_left]
  · rintro ⟨hlt, hle, rfl⟩
    refine ⟨_, ⟨hlt, rfl⟩, _, _, if_pos ?_, List.drop_drop⟩
    rw [List.length_drop]
    omega

section

variable [PointerEncoding]

/-- The padding an encoding asks for at a position of the table. -/
def skipped (e : DwEhPe) (bases : Bases) (start : ℕ) : ℕ :=
  if e.application = ALIGN then padding (bases.origin + start) else 0

theorem fieldInput_eq_ok {bytes input : List UInt8} {e : DwEhPe} {bases : Bases} {start : ℕ}
    (hstart : start ≤ bytes.length) :
    fieldInput bytes e bases (bytes.drop start) = .ok input ↔
      (e.application = ALIGN → bases.origin + start < size) ∧
      start + skipped e bases start ≤ bytes.length ∧
      input = bytes.drop (start + skipped e bases start) := by
  rw [fieldInput, skipped]
  split_ifs with halign
  · rw [aligned_eq_ok hstart, forall_prop_of_true halign]
  · rw [Except.ok.injEq, eq_comm, forall_prop_of_false halign, true_and]
    exact (and_iff_right hstart).symm

end

/-! ## The field of an entry -/

section

variable [PointerEncoding] {types : Types} {lsda : Lsda} {index : TypeIndex} {width first last : ℕ}

/-- The bytes the scalar of an entry is read from, by the steps of `get`: their first position
and the one behind their last. -/
def Types.span (types : Types) (lsda : Lsda) (index : TypeIndex) : Except LsdaError (ℕ × ℕ) := do
  let width ← Types.width types.encoding
  let offset ← (checkedMul index.raw width).okOr .overflow
  let start ← (checkedSub types.fin offset).okOr .table
  let (input, _) ← takeBytes start lsda.bytes
  let field ← fieldInput lsda.bytes types.encoding lsda.bases input
  let first ← position lsda.bytes field
  let (rest, _) ← scalar types.encoding.format lsda.endian field
  let last ← position lsda.bytes rest
  .ok (first, last)

/-- The bytes lie in the slot of an index. -/
def Types.InSlot (types : Types) (index : TypeIndex) (first last : ℕ) : Prop :=
  ∃ width, types.encoding.format.fixed = some width ∧ index.raw * width ≤ types.fin ∧
    types.fin - index.raw * width ≤ first ∧ last ≤ types.fin - (index.raw - 1) * width

/-- Entries are read from their own slots, and different entries from different bytes. -/
structure Types.Separated (types : Types) (lsda : Lsda) : Prop where
  apart : ∀ index index' t t', index ≠ index' → types.get lsda index = .ok t →
    types.get lsda index' = .ok t' → ∃ first last first' last',
      types.span lsda index = .ok (first, last) ∧ types.span lsda index' = .ok (first', last') ∧
      types.InSlot index first last ∧ types.InSlot index' first' last' ∧
      (last ≤ first' ∨ last' ≤ first)
  foreign : ∀ index first last, types.span lsda index = .ok (first, last) →
    ¬types.InSlot index first last → ∃ error, types.get lsda index = .error error

/-- The entry of an aligned encoding begins off a multiple of eight, and the field behind the
padding ends inside the table and the address space and stores no negative number. -/
def Types.Strays (types : Types) (lsda : Lsda) (index : TypeIndex) : Prop :=
  ∃ width, types.encoding.format.fixed = some width ∧ types.encoding.application = ALIGN ∧
    index.raw * width ≤ types.fin ∧
    let start := types.fin - index.raw * width
    let field := start + padding (lsda.bases.origin + start)
    (lsda.bases.origin + start) % 8 ≠ 0 ∧ field + width ≤ types.fin ∧
      lsda.bases.origin + field < size ∧
      0 ≤ types.encoding.format.stored lsda.endian ((lsda.bytes.drop field).take width)

/-- The field of an entry, where it lies inside the bytes. -/
theorem Types.span_eq (hwidth : types.encoding.format.fixed = some width)
    (hsize : types.fin < size) (hle : index.raw * width ≤ types.fin)
    (hfin : types.fin ≤ lsda.bytes.length)
    (hinput : fieldInput lsda.bytes types.encoding lsda.bases
      (lsda.bytes.drop (types.fin - index.raw * width)) = .ok (lsda.bytes.drop first))
    (hend : first + width ≤ lsda.bytes.length) :
    types.span lsda index = .ok (first, first + width) := by
  have hmul : checkedMul index.raw width = some (index.raw * width) := if_pos (by omega)
  have hsub : checkedSub types.fin (index.raw * width) =
      some (types.fin - index.raw * width) := if_pos hle
  have htake : takeBytes (types.fin - index.raw * width) lsda.bytes =
      .ok (lsda.bytes.drop (types.fin - index.raw * width),
        lsda.bytes.take (types.fin - index.raw * width)) := if_pos (by omega)
  obtain ⟨read, hread, -⟩ := DwEhPe.scalar_eq_map hwidth lsda.endian
  have hscalar : scalar types.encoding.format lsda.endian (lsda.bytes.drop first) =
      .ok (lsda.bytes.drop (first + width), read ((lsda.bytes.drop first).take width)) := by
    rw [hread]
    refine Parser.map_eq_ok.2 ⟨_, ?_, rfl⟩
    rw [takeBytes, if_pos (by rw [List.length_drop]; omega), List.drop_drop]
  simp only [span, width_eq_ok hwidth, hmul, hsub, Option.okOr_some, htake, hinput,
    position_drop (show first ≤ lsda.bytes.length by omega), hscalar, position_drop hend,
    Except.bind_ok]

/-- Only the fixed-width formats have entries. -/
theorem Types.fixed_of_get {t : Target} (h : types.get lsda index = .ok t) :
    ∃ width, types.encoding.format.fixed = some width := by
  obtain ⟨width, hwidth, -⟩ := Except.bind_eq_ok_iff.1 h
  refine ⟨width, ?_⟩
  unfold Types.width at hwidth
  split at hwidth <;> rename_i hformat
  case h_8 => cases hwidth
  all_goals rw [hformat, ← Except.ok.inj hwidth]; rfl

/-- Where the field of an entry begins: behind the padding an aligned encoding asks for. -/
def Types.field (types : Types) (lsda : Lsda) (index : TypeIndex) (width : ℕ) : ℕ :=
  types.fin - index.raw * width +
    skipped types.encoding lsda.bases (types.fin - index.raw * width)

theorem Types.start_le_field (types : Types) (lsda : Lsda) (index : TypeIndex) (width : ℕ) :
    types.fin - index.raw * width ≤ types.field lsda index width := Nat.le_add_right _ _

theorem Types.fieldInput_eq_ok (hfin : types.fin ≤ lsda.bytes.length) {input : List UInt8} :
    fieldInput lsda.bytes types.encoding lsda.bases
        (lsda.bytes.drop (types.fin - index.raw * width)) = .ok input ↔
      (types.encoding.application = ALIGN →
        lsda.bases.origin + (types.fin - index.raw * width) < size) ∧
      types.field lsda index width ≤ lsda.bytes.length ∧
      input = lsda.bytes.drop (types.field lsda index width) :=
  Desenredo.fieldInput_eq_ok (by omega)

/-- What the header guarantees of a type table. -/
structure Types.Parsed (types : Types) (lsda : Lsda) : Prop where
  valid : types.encoding.isValidEncoding
  present : ¬types.encoding.isAbsent
  fits : types.fin < size
  inside : types.fin ≤ lsda.bytes.length

theorem Types.parsed_of_new {bytes : List UInt8} {bases : Bases} {endian : Endian}
    (hnew : Lsda.new bytes bases endian = .ok lsda) (htypes : lsda.types = some types) :
    types.Parsed lsda := by
  obtain ⟨hfin, hsize, -, hvalid, habsent⟩ := Lsda.new_types hnew htypes
  exact ⟨hvalid, habsent, hsize, (Lsda.new_fields hnew).1 ▸ hfin⟩

/-- An entry is decoded from its field, if that ends inside the table and the address space. -/
theorem Types.get_eq_ok_field (hparsed : types.Parsed lsda)
    (hwidth : types.encoding.format.fixed = some width) {t : Target} :
    types.get lsda index = .ok t ↔ index.raw * width ≤ types.fin ∧
      types.field lsda index width + width ≤ types.fin ∧
      lsda.bases.origin + types.field lsda index width < size ∧
      types.encoding.decode lsda.bases lsda.endian
        (lsda.bases.origin + types.field lsda index width)
        ((lsda.bytes.drop (types.field lsda index width)).take width) = .ok t := by
  have hstart := types.start_le_field lsda index width
  have hfin := hparsed.inside
  rw [get_eq_ok hwidth hparsed.valid hparsed.present hparsed.fits]
  refine and_congr_right fun _ => ?_
  simp only [fieldInput_eq_ok hfin]
  constructor
  · rintro ⟨_, ⟨-, hle, rfl⟩, hwide, hend, hlt, hdecode⟩
    rw [List.length_drop, Nat.sub_sub_self hle] at hend hlt hdecode
    exact ⟨hend, hlt, hdecode⟩
  · rintro ⟨hend, hlt, hdecode⟩
    have hle : types.field lsda index width ≤ lsda.bytes.length := by omega
    have hoffset : lsda.bytes.length - (lsda.bytes.length - types.field lsda index width) =
        types.field lsda index width := Nat.sub_sub_self hle
    refine ⟨_, ⟨fun _ => by omega, hle, rfl⟩, ?_⟩
    rw [List.length_drop, hoffset]
    exact ⟨by omega, hend, hlt, hdecode⟩

/-- The bytes of an entry that is found. -/
theorem Types.span_of_get (hparsed : types.Parsed lsda)
    (hwidth : types.encoding.format.fixed = some width) {t : Target}
    (hget : types.get lsda index = .ok t) : index.raw * width ≤ types.fin ∧
      types.span lsda index =
        .ok (types.field lsda index width, types.field lsda index width + width) := by
  obtain ⟨hle, hend, hlt, -⟩ := (get_eq_ok_field hparsed hwidth).1 hget
  have hstart := types.start_le_field lsda index width
  have hfin := hparsed.inside
  refine ⟨hle, span_eq hwidth hparsed.fits hle hfin ?_ (by omega)⟩
  exact (fieldInput_eq_ok hfin).2 ⟨fun _ => by omega, by omega, rfl⟩

omit [PointerEncoding] in
/-- A number a fixed-width field stores is a 64-bit number. -/
theorem DwEhPe.stored_lt (format : DwEhPe) (endian : Endian) (field : List UInt8)
    (hlength : field.length ≤ 8) : format.stored endian field < size := by
  have hnumber : endian.number field < 256 ^ field.length := by
    cases endian with
    | little => exact Fixed.number_lt field
    | big => exact (Fixed.number_lt field.reverse).trans_eq (by rw [List.length_reverse])
  have hpow : 256 ^ field.length ≤ size := by
    rw [size, show 2 ^ 64 = 256 ^ 8 from rfl]
    exact Nat.pow_le_pow_right (by decide) hlength
  have hsigned : Fixed.signed (8 * field.length) (endian.number field) ≤ endian.number field := by
    rw [Fixed.signed]
    split
    · exact le_rfl
    · exact sub_le_self _ (Int.pow_pos (by decide)).le
  unfold stored
  split <;> omega

end

/-! ## Separation -/

section

variable [PointerEncoding] {types : Types} {lsda : Lsda} {index index' : TypeIndex} {width : ℕ}

omit [PointerEncoding] in
theorem TypeIndex.raw_mul (index : TypeIndex) (width : ℕ) :
    index.raw * width = (index.raw - 1) * width + width := by
  rw [← Nat.succ_mul, Nat.succ_eq_add_one, Nat.sub_add_cancel (Nat.pos_of_ne_zero index.raw.2)]

/-- A field without padding fills its slot. -/
theorem Types.inSlot_of_field (hwidth : types.encoding.format.fixed = some width)
    (hle : index.raw * width ≤ types.fin)
    (hfield : types.field lsda index width = types.fin - index.raw * width) :
    types.InSlot index (types.field lsda index width) (types.field lsda index width + width) := by
  have hraw := index.raw_mul width
  exact ⟨width, hwidth, hle, hfield.ge, by omega⟩

omit [PointerEncoding] in
/-- The slots of different indices lie apart. -/
theorem Types.slots_apart (hne : index ≠ index') (hle : index.raw * width ≤ types.fin)
    (hle' : index'.raw * width ≤ types.fin) :
    types.fin - index.raw * width + width ≤ types.fin - index'.raw * width ∨
      types.fin - index'.raw * width + width ≤ types.fin - index.raw * width := by
  have hraw : index.raw.1 ≠ index'.raw.1 := fun h => hne (by
    cases index
    cases index'
    rw [TypeIndex.mk.injEq]
    exact Subtype.ext h)
  -- the slot of the larger index lies further from the end
  rcases Nat.lt_or_gt_of_ne hraw with hlt | hlt
  · have hmul := Nat.mul_le_mul_right width (Nat.succ_le_of_lt hlt)
    rw [Nat.succ_mul] at hmul
    omega
  · have hmul := Nat.mul_le_mul_right width (Nat.succ_le_of_lt hlt)
    rw [Nat.succ_mul] at hmul
    omega

/-- A field that padding moves ends behind its slot. -/
theorem Types.not_inSlot_of_field (hwidth : types.encoding.format.fixed = some width)
    (hle : index.raw * width ≤ types.fin)
    (hmoved : types.field lsda index width ≠ types.fin - index.raw * width) :
    ¬types.InSlot index (types.field lsda index width)
      (types.field lsda index width + width) := by
  rintro ⟨width', hwidth', -, -, hlast⟩
  obtain rfl := Option.some.inj (hwidth.symm.trans hwidth')
  have hraw := index.raw_mul width
  have hstart := types.start_le_field lsda index width
  omega

theorem Types.field_of_align (types : Types) (lsda : Lsda) (index : TypeIndex) (width : ℕ)
    (halign : types.encoding.application = ALIGN) :
    types.field lsda index width = types.fin - index.raw * width +
      padding (lsda.bases.origin + (types.fin - index.raw * width)) := by
  rw [field, skipped, if_pos halign]

/-- An entry that is found strays from its slot exactly when padding moves its field. -/
theorem Types.strays_iff (hparsed : types.Parsed lsda)
    (hwidth : types.encoding.format.fixed = some width) :
    types.Strays lsda index ↔ (∃ t, types.get lsda index = .ok t) ∧
      types.field lsda index width ≠ types.fin - index.raw * width := by
  have hwide : width ≤ 8 := by rcases DwEhPe.fixedWidth_of_fixed hwidth with h | h | h <;> omega
  simp only [get_eq_ok_field hparsed hwidth, DwEhPe.decode_eq_ok]
  constructor
  · rintro ⟨width', hwidth', halign, hle, hpadding, hend, hlt, hstored⟩
    obtain rfl := Option.some.inj (hwidth.symm.trans hwidth')
    have hpos := mt padding_eq_zero.1 hpadding
    have hfield := types.field_of_align lsda index width halign
    rw [← hfield] at hend hlt hstored
    have hbound := DwEhPe.stored_lt types.encoding.format lsda.endian
      ((lsda.bytes.drop (types.field lsda index width)).take width)
      ((List.length_take_le _ _).trans hwide)
    -- the base of an aligned encoding is zero
    refine ⟨⟨_, hle, hend, hlt, 0, by rw [halign]; rfl, ?_, ?_, rfl⟩, by omega⟩
    · rwa [Nat.cast_zero, zero_add]
    · rwa [Nat.cast_zero, zero_add]
  · rintro ⟨⟨t, hle, hend, hlt, base, hbase, hnonneg, -, -⟩, hmoved⟩
    have halign : types.encoding.application = ALIGN := by
      by_contra halign
      exact hmoved (by rw [field, skipped, if_neg halign, add_zero])
    have hfield := types.field_of_align lsda index width halign
    rw [halign] at hbase
    obtain rfl : 0 = base := Option.some.inj hbase
    rw [Nat.cast_zero, zero_add] at hnonneg
    rw [hfield] at hend hlt hnonneg
    refine ⟨width, hwidth, halign, hle, fun hpadding => hmoved ?_, hend, hlt, hnonneg⟩
    rw [hfield, padding_eq_zero.2 hpadding, add_zero]

theorem Types.not_strays_of_separated (hparsed : types.Parsed lsda)
    (hseparated : types.Separated lsda) : ¬types.Strays lsda index := by
  intro hstrays
  obtain ⟨width, hwidth⟩ : ∃ width, types.encoding.format.fixed = some width :=
    hstrays.imp fun _ => And.left
  obtain ⟨⟨t, hget⟩, hmoved⟩ := (Types.strays_iff hparsed hwidth).1 hstrays
  obtain ⟨hle, hat⟩ := Types.span_of_get hparsed hwidth hget
  -- the padded field reaches behind its slot, and is decoded
  obtain ⟨error, herror⟩ :=
    hseparated.foreign index _ _ hat (Types.not_inSlot_of_field hwidth hle hmoved)
  cases hget.symm.trans herror

theorem Types.separated_of_not_strays (hparsed : types.Parsed lsda)
    (hstrays : ∀ index, ¬types.Strays lsda index) : types.Separated lsda := by
  have hfield {index : TypeIndex} {width : ℕ} {t : Target}
      (hwidth : types.encoding.format.fixed = some width) (hget : types.get lsda index = .ok t) :
      types.field lsda index width = types.fin - index.raw * width := by
    by_contra hmoved
    exact hstrays index ((Types.strays_iff hparsed hwidth).2 ⟨⟨t, hget⟩, hmoved⟩)
  refine ⟨fun index index' t t' hne hget hget' => ?_, fun index first last hat hout => ?_⟩
  · obtain ⟨width, hwidth⟩ := Types.fixed_of_get hget
    obtain ⟨hle, hat⟩ := Types.span_of_get hparsed hwidth hget
    obtain ⟨hle', hat'⟩ := Types.span_of_get hparsed hwidth hget'
    refine ⟨_, _, _, _, hat, hat', Types.inSlot_of_field hwidth hle (hfield hwidth hget),
      Types.inSlot_of_field hwidth hle' (hfield hwidth hget'), ?_⟩
    rw [hfield hwidth hget, hfield hwidth hget']
    exact Types.slots_apart hne hle hle'
  · cases hget : types.get lsda index with
    | error error => exact ⟨error, rfl⟩
    | ok t =>
      obtain ⟨width, hwidth⟩ := Types.fixed_of_get hget
      obtain ⟨hle, hat'⟩ := Types.span_of_get hparsed hwidth hget
      obtain ⟨rfl, rfl⟩ := Prod.mk.inj (Except.ok.inj (hat.symm.trans hat'))
      exact absurd (Types.inSlot_of_field hwidth hle (hfield hwidth hget)) hout

/-- **Separate entries.** The entries of the type table are read from their own slots, and from
different bytes, exactly when no entry strays from its slot. -/
theorem Types.separated_iff {bytes : List UInt8} {bases : Bases} {endian : Endian}
    (hnew : Lsda.new bytes bases endian = .ok lsda) (htypes : lsda.types = some types) :
    types.Separated lsda ↔ ∀ index, ¬types.Strays lsda index := by
  have hparsed := Types.parsed_of_new hnew htypes
  exact ⟨fun hseparated _ => Types.not_strays_of_separated hparsed hseparated,
    Types.separated_of_not_strays hparsed⟩

end

attribute [local instance] PointerEncoding.bits in
/-- Two entries of an aligned table whose slots are aligned. -/
theorem Types.separated_iff_aligned : ∃ lsda types,
    Lsda.new [0xff, 0x50, 0x1d, 0x01, 0x04, 0x00, 0x05, 0x0a, 0x01, 0x01, 0x00, 0, 0, 0, 0, 0, 0x78,
      0x56, 0, 0, 0, 0, 0, 0, 0x34, 0x12, 0, 0, 0, 0, 0, 0] (.new 0x1000 0x2000) .little =
        .ok lsda ∧
    lsda.types = some types ∧ types.get lsda ⟨1, by decide⟩ = .ok ⟨0x1234, false⟩ ∧
    types.get lsda ⟨2, by decide⟩ = .ok ⟨0x5678, false⟩ ∧ types.Separated lsda := by
  let bytes : List UInt8 := [0xff, 0x50, 0x1d, 0x01, 0x04, 0x00, 0x05, 0x0a, 0x01, 0x01, 0x00, 0,
    0, 0, 0, 0, 0x78, 0x56, 0, 0, 0, 0, 0, 0, 0x34, 0x12, 0, 0, 0, 0, 0, 0]
  let types : Types := ⟨32, ⟨0x50⟩⟩
  let lsda : Lsda := ⟨bytes, .new 0x1000 0x2000, .little, 0x2000, some types, ULEB,
    [0x00, 0x05, 0x0a, 0x01], 9⟩
  have hnew : Lsda.new bytes (.new 0x1000 0x2000) .little = .ok lsda := by decide
  refine ⟨lsda, types, hnew, rfl, by decide, by decide, (Types.separated_iff hnew rfl).2 ?_⟩
  have hfixed : types.encoding.format.fixed = some 8 := by decide
  rintro index ⟨width, hwidth, -, hle, hpadding, -⟩
  obtain rfl : 8 = width := Option.some.inj (hfixed.symm.trans hwidth)
  have hfin : (index.raw : ℕ) * 8 ≤ 32 := hle
  have haligned : (0x1000 + (32 - (index.raw : ℕ) * 8)) % 8 = 0 := by omega
  exact hpadding haligned

attribute [local instance] PointerEncoding.bits in
/-- The second entry of an aligned table is padded into the slot of the first. -/
theorem Types.entries_overlap : ¬∀ (bytes : List UInt8) (bases : Bases) (endian : Endian)
    (lsda : Lsda) (types : Types), Lsda.new bytes bases endian = .ok lsda →
    lsda.types = some types → types.Separated lsda := by
  let bytes : List UInt8 := [0xff, 0x52, 0x07, 0x01, 0x00, 0x00, 0x78, 0x56, 0x34, 0x12]
  let types : Types := ⟨10, ⟨0x52⟩⟩
  let lsda : Lsda := ⟨bytes, .new 0x1000 0x2000, .little, 0x2000, some types, ULEB, [], 5⟩
  intro h
  have hseparated := h bytes (.new 0x1000 0x2000) .little lsda types (by decide) rfl
  let first : TypeIndex := ⟨1, by decide⟩
  let second : TypeIndex := ⟨2, by decide⟩
  have hfirst : types.get lsda first = .ok ⟨0x1234, false⟩ := by decide
  have hsecond : types.get lsda second = .ok ⟨0x1234, false⟩ := by decide
  obtain ⟨from₁, to₁, from₂, to₂, hat₁, hat₂, -, -, happart⟩ :=
    hseparated.apart first second _ _ (by decide) hfirst hsecond
  -- both are read from the last two bytes
  have hspan₁ : types.span lsda first = .ok (8, 10) := by decide
  have hspan₂ : types.span lsda second = .ok (8, 10) := by decide
  obtain ⟨rfl, rfl⟩ := Prod.mk.inj (Except.ok.inj (hspan₁.symm.trans hat₁))
  obtain ⟨rfl, rfl⟩ := Prod.mk.inj (Except.ok.inj (hspan₂.symm.trans hat₂))
  revert happart
  decide

end Desenredo
