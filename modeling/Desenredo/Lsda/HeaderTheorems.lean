import Desenredo.Lsda.FilterTheorems
import Desenredo.Lsda.SlotTheorems

/-!
# The grammar of a header

A table begins with five fields: the landing base and the type table, which may be omitted, the
encoding and the length of the call-site table, and its bytes. The fields are described here by
the bytes they consist of; the parser accepts the byte strings that begin with them, and besides
those whose landing base is a signed LEB128 number of which it loses bits.
-/

namespace Desenredo

open Parser Usize

section

variable [PointerEncoding]

/-! ## Encoded targets -/

omit [PointerEncoding] in
/-- The octets are a scalar of a format and store the integer `v`. -/
def Encodes (format : DwEhPe) (endian : Endian) (v : ℤ) (octets : List UInt8) : Prop :=
  match format with
  | ULEB => ∃ n, StoresUleb n octets ∧ v = n
  | SLEB => StoresSigned v octets
  | _ => format.fixed = some octets.length ∧ v = format.stored endian octets

omit [PointerEncoding] in
/-- The octets are a signed LEB128 number that has no place in 64 bits, and `v` is what is left of
it there. -/
def Wraps (format : DwEhPe) (v : ℤ) (octets : List UInt8) : Prop :=
  format = SLEB ∧ Leb128.Encoding octets ∧ octets.length ≤ 10 ∧
    ¬(-2 ^ 63 ≤ Leb128.signedValue octets ∧ Leb128.signedValue octets < 2 ^ 63) ∧
    v = Fixed.wrap 64 (Leb128.signedValue octets)

/-- An encoded target behind the first `start` bytes of a table: the padding an aligned encoding
asks for and the octets that give an integer, which with the base of the encoding makes `addr`. -/
structure TargetField (gives : ℤ → List UInt8 → Prop) (bases : Bases) (e : DwEhPe) (start : ℕ)
    (pad octets : List UInt8) (addr : ℕ) : Prop where
  valid : e.isValidEncoding
  present : ¬e.isAbsent
  padded : pad.length = skipped e bases start
  field : bases.origin + (start + pad.length) < size
  value : ∃ v base, gives v octets ∧
    e.application.base bases (bases.origin + (start + pad.length)) = some base ∧
    addr = base + v
  fits : addr < size

theorem TargetField.or {gives gives' : ℤ → List UInt8 → Prop} {bases : Bases} {e : DwEhPe}
    {start addr : ℕ} {pad octets : List UInt8} :
    TargetField (fun v octets => gives v octets ∨ gives' v octets) bases e start pad octets addr ↔
      TargetField gives bases e start pad octets addr ∨
        TargetField gives' bases e start pad octets addr := by
  constructor
  · rintro ⟨hvalid, hpresent, hpadded, hfield, ⟨v, base, hgives | hgives, hvalue⟩, hfits⟩
    · exact .inl ⟨hvalid, hpresent, hpadded, hfield, ⟨v, base, hgives, hvalue⟩, hfits⟩
    · exact .inr ⟨hvalid, hpresent, hpadded, hfield, ⟨v, base, hgives, hvalue⟩, hfits⟩
  · rintro (⟨hvalid, hpresent, hpadded, hfield, ⟨v, base, hgives, hvalue⟩, hfits⟩ |
      ⟨hvalid, hpresent, hpadded, hfield, ⟨v, base, hgives, hvalue⟩, hfits⟩)
    · exact ⟨hvalid, hpresent, hpadded, hfield, ⟨v, base, .inl hgives, hvalue⟩, hfits⟩
    · exact ⟨hvalid, hpresent, hpadded, hfield, ⟨v, base, .inr hgives, hvalue⟩, hfits⟩

/-- An encoded target whose scalar is stored. -/
abbrev EncodedTarget (bases : Bases) (endian : Endian) (e : DwEhPe) (start : ℕ)
    (pad octets : List UInt8) (addr : ℕ) : Prop :=
  TargetField (Encodes e.format endian) bases e start pad octets addr

/-- An encoded target whose scalar is read modulo two to the 64. -/
abbrev WrappedTarget (bases : Bases) (e : DwEhPe) (start : ℕ) (pad octets : List UInt8)
    (addr : ℕ) : Prop :=
  TargetField (Wraps e.format) bases e start pad octets addr

section

variable {bytes input rest pad octets : List UInt8} {bases : Bases} {endian : Endian}
  {e format : DwEhPe} {start : ℕ} {v : ℤ} {t : Target}

omit [PointerEncoding]

theorem scalar_eq_fail (huleb : format ≠ ULEB) (hsleb : format ≠ SLEB)
    (hfixed : format.fixed = none) : scalar format endian = Parser.fail .encoding := by
  unfold scalar
  split
  case h_2 => exact absurd rfl huleb
  case h_3 => exact absurd rfl hsleb
  case h_10 => rfl
  all_goals cases hfixed

theorem scalar_eq_ok_of_fixed (huleb : format ≠ ULEB) (hsleb : format ≠ SLEB) :
    (∃ s, scalar format endian input = .ok (rest, s) ∧ s.value = v) ↔
      ∃ octets, input = octets ++ rest ∧ format.fixed = some octets.length ∧
        v = format.stored endian octets := by
  cases hfixed : format.fixed with
  | none =>
    rw [scalar_eq_fail huleb hsleb hfixed]
    constructor
    · rintro ⟨s, hfail, -⟩
      cases hfail
    · rintro ⟨octets, -, hnone, -⟩
      cases hnone
  | some width =>
    obtain ⟨read, hread, hvalue⟩ := DwEhPe.scalar_eq_map hfixed endian
    simp only [hread, map_eq_ok, takeBytes_eq_ok]
    constructor
    · rintro ⟨_, ⟨octets, ⟨hinput, hlength⟩, rfl⟩, rfl⟩
      exact ⟨octets, hinput, by rw [hlength], hvalue octets hlength⟩
    · rintro ⟨octets, hinput, hlength, rfl⟩
      have hwidth := (Option.some.inj hlength).symm
      exact ⟨_, ⟨octets, ⟨hinput, hwidth⟩, rfl⟩, hvalue octets hwidth⟩

/-- A signed number is stored, or what is read is left of it. -/
theorem sleb_eq_ok_or : sleb input = .ok (rest, v) ↔
    ∃ octets, input = octets ++ rest ∧ (StoresSigned v octets ∨ Wraps SLEB v octets) := by
  rw [sleb_eq_ok]
  refine exists_congr fun octets => and_congr_right fun _ => ⟨?_, ?_⟩
  · rintro ⟨hoctets, hlength, rfl⟩
    by_cases hrange : -2 ^ 63 ≤ Leb128.signedValue octets ∧ Leb128.signedValue octets < 2 ^ 63
    · rw [Fixed.wrap_of_range (by decide) hrange.1 hrange.2]
      exact .inl ⟨hrange.1, hrange.2, hoctets, hlength, rfl⟩
    · exact .inr ⟨rfl, hoctets, hlength, hrange, rfl⟩
  · rintro (⟨hlow, hhigh, hoctets, hlength, rfl⟩ | ⟨-, hoctets, hlength, -, rfl⟩)
    · exact ⟨hoctets, hlength, (Fixed.wrap_of_range (by decide) hlow hhigh).symm⟩
    · exact ⟨hoctets, hlength, rfl⟩

/-- A scalar is read where its octets stand. -/
theorem scalar_eq_ok : (∃ s, scalar format endian input = .ok (rest, s) ∧ s.value = v) ↔
    ∃ octets, input = octets ++ rest ∧
      (Encodes format endian v octets ∨ Wraps format v octets) := by
  have hwraps (hformat : format ≠ SLEB) (octets : List UInt8) :
      Encodes format endian v octets ∨ Wraps format v octets ↔ Encodes format endian v octets :=
    or_iff_left fun h => hformat h.1
  by_cases hsleb : format = SLEB
  · subst hsleb
    simp only [scalar, map_eq_ok, sleb_eq_ok_or, Encodes]
    constructor
    · rintro ⟨_, ⟨_, ⟨octets, hinput, hgives⟩, rfl⟩, rfl⟩
      exact ⟨octets, hinput, hgives⟩
    · rintro ⟨octets, hinput, hgives⟩
      exact ⟨_, ⟨_, ⟨octets, hinput, hgives⟩, rfl⟩, rfl⟩
  simp only [hwraps hsleb]
  by_cases huleb : format = ULEB
  · subst huleb
    simp only [scalar, map_eq_ok, uleb_eq_stored, Encodes]
    constructor
    · rintro ⟨_, ⟨n, ⟨octets, hinput, hstored⟩, rfl⟩, rfl⟩
      exact ⟨octets, hinput, n, hstored, rfl⟩
    · rintro ⟨octets, hinput, n, hstored, rfl⟩
      exact ⟨_, ⟨n, ⟨octets, hinput, hstored⟩, rfl⟩, rfl⟩
  rw [scalar_eq_ok_of_fixed huleb hsleb]
  refine exists_congr fun octets => and_congr_right fun _ => ?_
  unfold Encodes
  split
  · exact absurd rfl huleb
  · exact absurd rfl hsleb
  · rfl

theorem Scalar.add_eq_ok {s : Scalar} {base addr : ℕ} :
    s.add base = .ok addr ↔ (addr : ℤ) = base + s.value ∧ addr < size := by
  rw [Scalar.add, Option.okOr_eq_ok, tryFromInt_eq_some]

end

section

variable {bytes rest : List UInt8} {bases : Bases} {endian : Endian} {e : DwEhPe} {t : Target}

/-- A target is decoded where its padding and its octets stand. -/
theorem target_eq_ok_encoded (start : ℕ) (hstart : start ≤ bytes.length) :
    target bytes e bases endian (bytes.drop start) = .ok (rest, t) ↔ t.indirect = e.isIndirect ∧
      ∃ pad octets, bytes.drop start = pad ++ (octets ++ rest) ∧
        (EncodedTarget bases endian e start pad octets t.addr ∨
          WrappedTarget bases e start pad octets t.addr) := by
  simp only [target_eq_ok, ← TargetField.or]
  constructor
  · rintro ⟨hvalid, hpresent, _, _, s, base, hinput, hoffset, hlt, hscalar, hbase, hadd, hindirect⟩
    obtain ⟨-, hle, rfl⟩ := (fieldInput_eq_ok hstart).1 hinput
    obtain ⟨-, rfl⟩ := position_eq_ok.1 hoffset
    rw [List.length_drop, Nat.sub_sub_self hle] at hlt hbase
    obtain ⟨octets, hoctets, hencodes⟩ := scalar_eq_ok.1 ⟨s, hscalar, rfl⟩
    obtain ⟨haddr, hfits⟩ := Scalar.add_eq_ok.1 hadd
    have hpad : ((bytes.drop start).take (skipped e bases start)).length =
        skipped e bases start := by
      rw [List.length_take, List.length_drop]
      omega
    refine ⟨hindirect, (bytes.drop start).take (skipped e bases start), octets, ?_, hvalid,
      hpresent, hpad, ?_, ⟨_, base, hencodes, ?_, haddr⟩, hfits⟩
    · rw [← hoctets, ← List.drop_drop, List.take_append_drop]
    · rwa [hpad]
    · rw [hpad]
      exact DwEhPe.applicationBase_eq_ok.1 hbase
  · rintro ⟨hindirect, pad, octets, hdrop, h⟩
    obtain ⟨v, base, hencodes, hbase, haddr⟩ := h.value
    obtain ⟨s, hscalar, rfl⟩ := scalar_eq_ok.2 ⟨octets, rfl, hencodes⟩
    -- the padding is inside the table, so the field is where the parser looks for it
    have hlength := congrArg List.length hdrop
    rw [List.length_drop, List.length_append, h.padded] at hlength
    have hle : start + skipped e bases start ≤ bytes.length := by omega
    have hfield := h.field
    rw [h.padded] at hfield hbase
    have hinput : fieldInput bytes e bases (bytes.drop start) = .ok (octets ++ rest) := by
      refine (fieldInput_eq_ok hstart).2 ⟨fun _ => by omega, hle, ?_⟩
      rw [← List.drop_drop, hdrop, ← h.padded, List.drop_left]
    have hposition : position bytes (octets ++ rest) = .ok (start + skipped e bases start) :=
      position_eq_ok.2 ⟨by omega, by omega⟩
    exact ⟨h.valid, h.present, _, _, s, base, hinput, hposition, hfield, hscalar,
      DwEhPe.applicationBase_eq_ok.2 hbase, Scalar.add_eq_ok.2 ⟨haddr, h.fits⟩, hindirect⟩

end

/-! ## Fields -/

/-- The landing base field at the beginning of a table and the base it stands for: the function
when it is omitted, else a direct target. -/
inductive LandingField (bases : Bases) (endian : Endian) : List UInt8 → ℕ → Prop
  | omitted {encoding : UInt8} : (DwEhPe.mk encoding.toNat).isAbsent →
      LandingField bases endian [encoding] bases.function
  | target {encoding : UInt8} {pad octets : List UInt8} {base : ℕ} :
      ¬(DwEhPe.mk encoding.toNat).isIndirect →
      EncodedTarget bases endian ⟨encoding.toNat⟩ 1 pad octets base →
      LandingField bases endian (encoding :: (pad ++ octets)) base

/-- A landing base field of which bits are lost, and the base that is read. -/
inductive LandingMisread (bases : Bases) : List UInt8 → ℕ → Prop
  | target {encoding : UInt8} {pad octets : List UInt8} {base : ℕ} :
      ¬(DwEhPe.mk encoding.toNat).isIndirect →
      WrappedTarget bases ⟨encoding.toNat⟩ 1 pad octets base →
      LandingMisread bases (encoding :: (pad ++ octets)) base

/-- A landing base field as it is read. -/
def LandingRead (bases : Bases) (endian : Endian) (field : List UInt8) (base : ℕ) : Prop :=
  LandingField bases endian field base ∨ LandingMisread bases field base

/-- The type table field behind the first `start` of `length` bytes: omitted, or an encoding and
the distance from the field to the end of the table. -/
inductive TypesField (start length : ℕ) : List UInt8 → Option Types → Prop
  | omitted {encoding : UInt8} : (DwEhPe.mk encoding.toNat).isAbsent →
      TypesField start length [encoding] none
  | table {encoding : UInt8} {octets : List UInt8} {offset : ℕ} :
      ¬(DwEhPe.mk encoding.toNat).isAbsent → (DwEhPe.mk encoding.toNat).isValidEncoding →
      StoresUleb offset octets → start + (octets.length + 1) + offset ≤ length →
      TypesField start length (encoding :: octets)
        (some ⟨start + (octets.length + 1) + offset, ⟨encoding.toNat⟩⟩)

section

variable {bytes front input rest : List UInt8} {bases : Bases} {endian : Endian}
  {types : Option Types} {base : ℕ}

theorem Lsda.landing_eq_ok_field : landing bytes bases endian bytes = .ok (rest, base) ↔
    ∃ field, bytes = field ++ rest ∧ LandingRead bases endian field base := by
  rw [landing_eq_ok]
  constructor
  · rintro ⟨encoding, input, rfl, ⟨habsent, rfl, rfl⟩ | ⟨-, htarget⟩⟩
    · exact ⟨[encoding], rfl, .inl (.omitted habsent)⟩
    · obtain ⟨hdirect, pad, octets, hinput, hencoded⟩ :=
        (target_eq_ok_encoded 1 (by simp)).1 htarget
      have hdirect : ¬(DwEhPe.mk encoding.toNat).isIndirect := by
        rw [← hdirect]
        exact Bool.false_ne_true
      refine ⟨encoding :: (pad ++ octets), ?_,
        hencoded.imp (LandingField.target hdirect) (LandingMisread.target hdirect)⟩
      rw [List.cons_append, List.append_assoc, ← hinput, List.drop_one, List.tail_cons]
  · have htarget {encoding : UInt8} {pad octets : List UInt8}
        (hdirect : ¬(DwEhPe.mk encoding.toNat).isIndirect)
        (hencoded : EncodedTarget bases endian ⟨encoding.toNat⟩ 1 pad octets base ∨
          WrappedTarget bases ⟨encoding.toNat⟩ 1 pad octets base) :
        target (encoding :: (pad ++ octets) ++ rest) ⟨encoding.toNat⟩ bases endian
          (pad ++ octets ++ rest) = .ok (rest, ⟨base, false⟩) := by
      show target _ _ bases endian ((encoding :: (pad ++ octets) ++ rest).drop 1) = _
      refine (target_eq_ok_encoded 1 (by simp)).2 ⟨?_, pad, octets, ?_, hencoded⟩
      · exact (Bool.eq_false_of_not_eq_true hdirect).symm
      · rw [List.cons_append, List.append_assoc, List.drop_one, List.tail_cons]
    rintro ⟨_, rfl, (habsent | ⟨hdirect, hencoded⟩) | ⟨hdirect, hencoded⟩⟩
    · exact ⟨_, rest, rfl, .inl ⟨habsent, rfl, rfl⟩⟩
    · exact ⟨_, _, rfl, .inr ⟨hencoded.present, htarget hdirect (.inl hencoded)⟩⟩
    · exact ⟨_, _, rfl, .inr ⟨hencoded.present, htarget hdirect (.inr hencoded)⟩⟩

/-- A landing base field that is misread is in signed LEB128. -/
theorem LandingMisread.encoding {field : List UInt8} (h : LandingMisread bases field base) :
    ∃ encoding octets, field = encoding :: octets ∧ (DwEhPe.mk encoding.toNat).format = SLEB := by
  obtain ⟨-, hwrapped⟩ := h
  obtain ⟨_, _, ⟨hformat, -⟩, -⟩ := hwrapped.value
  exact ⟨_, _, rfl, hformat⟩

/-- A landing base field is not misread where it is stored. -/
theorem LandingField.not_misread {field field' rest' : List UInt8} {base' : ℕ}
    (h : LandingField bases endian field base) (h' : LandingMisread bases field' base')
    (heq : field ++ rest = field' ++ rest') : False := by
  obtain ⟨-, hwrapped⟩ := h'
  obtain ⟨_, _, ⟨hformat, hoctets', -, hlost, -⟩, -⟩ := hwrapped.value
  cases h with
  | omitted habsent =>
    rw [List.cons_append, List.cons_append, List.cons.injEq] at heq
    obtain ⟨rfl, -⟩ := heq
    exact hwrapped.present habsent
  | target _ hencoded =>
    rw [List.cons_append, List.cons_append, List.cons.injEq, List.append_assoc,
      List.append_assoc] at heq
    obtain ⟨rfl, heq⟩ := heq
    -- the padding is as long, so that the octets are the same
    obtain ⟨-, heq⟩ := List.append_inj heq (by rw [hencoded.padded, hwrapped.padded])
    obtain ⟨_, _, hstored, -⟩ := hencoded.value
    rw [hformat] at hstored
    obtain ⟨hlow, hhigh, hoctets, -, rfl⟩ := hstored
    obtain ⟨rfl, -⟩ := hoctets.append_inj hoctets' heq
    exact hlost ⟨hlow, hhigh⟩

theorem Lsda.typeTable_eq_ok_field (hlength : (front ++ input).length < size) :
    typeTable (front ++ input) input = .ok (rest, types) ↔ ∃ field, input = field ++ rest ∧
      TypesField front.length (front ++ input).length field types := by
  rw [typeTable_eq_ok]
  constructor
  · rintro ⟨encoding, input', rfl, ⟨habsent, rfl, rfl⟩ |
      ⟨habsent, hvalid, offset, _, huleb, hposition, -, hle, rfl⟩⟩
    · exact ⟨[encoding], rfl, .omitted habsent⟩
    · obtain ⟨octets, rfl, hstored⟩ := uleb_eq_stored.1 huleb
      obtain ⟨-, rfl⟩ := position_eq_ok.1 hposition
      have hposition : (front ++ encoding :: (octets ++ rest)).length - rest.length =
          front.length + (octets.length + 1) := by
        simp only [List.length_append, List.length_cons]
        omega
      rw [hposition] at hle ⊢
      exact ⟨encoding :: octets, rfl, .table habsent hvalid hstored hle⟩
  · rintro ⟨_, rfl, habsent | ⟨habsent, hvalid, hstored, hle⟩⟩
    · exact ⟨_, rest, rfl, .inl ⟨habsent, rfl, rfl⟩⟩
    · refine ⟨_, _, rfl, .inr ⟨habsent, hvalid, _, _, uleb_eq_stored.2 ⟨_, rfl, hstored⟩,
        position_eq_ok.2 ⟨?_, ?_⟩, hle.trans_lt hlength, hle, rfl⟩⟩
      · simp only [List.length_append, List.length_cons]
        omega
      · simp only [List.length_append, List.length_cons]
        omega

end

/-! ## Headers -/

omit [PointerEncoding] in
/-- The fields of a table as byte strings, and the bytes behind them. -/
structure Header where
  landing : List UInt8
  types : List UInt8
  callEncoding : UInt8
  callLength : List UInt8
  callSites : List UInt8
  actions : List UInt8

namespace Header

omit [PointerEncoding]

/-- The bytes of the table. -/
def bytes (h : Header) : List UInt8 :=
  h.landing ++ (h.types ++ h.callEncoding :: (h.callLength ++ (h.callSites ++ h.actions)))

/-- The position behind the call-site table. -/
def actionOffset (h : Header) : ℕ :=
  h.landing.length + h.types.length + 1 + h.callLength.length + h.callSites.length

theorem length_bytes (h : Header) : h.bytes.length = h.actionOffset + h.actions.length := by
  simp only [bytes, actionOffset, List.length_append, List.length_cons]
  omega

/-- The call sites are the bytes that end where the actions begin. -/
theorem callSites_eq (h : Header) :
    h.callSites = (h.bytes.drop (h.actionOffset - h.callSites.length)).take h.callSites.length := by
  have hfront : h.bytes = (h.landing ++ (h.types ++ h.callEncoding :: h.callLength)) ++
      (h.callSites ++ h.actions) := by
    simp only [bytes, List.append_assoc, List.cons_append]
  have hlength : h.actionOffset - h.callSites.length =
      (h.landing ++ (h.types ++ h.callEncoding :: h.callLength)).length := by
    simp only [actionOffset, List.length_append, List.length_cons]
    omega
  rw [hfront, hlength, List.drop_left, List.take_left]

end Header

/-- The fields are well formed, where `landing` says which base a landing base field stands for,
and `lsda` records what they stand for. -/
structure Header.Describes (h : Header) (landing : List UInt8 → ℕ → Prop) (bases : Bases)
    (endian : Endian) (lsda : Lsda) : Prop where
  landing : landing h.landing lsda.landingBase
  types : TypesField h.landing.length h.bytes.length h.types lsda.types
  callValid : (DwEhPe.mk h.callEncoding.toNat).isValidEncoding
  callPresent : ¬(DwEhPe.mk h.callEncoding.toNat).isAbsent
  callLength : StoresUleb h.callSites.length h.callLength
  bytes : lsda.bytes = h.bytes
  bases : lsda.bases = bases
  endian : lsda.endian = endian
  callEncoding : lsda.callEncoding = ⟨h.callEncoding.toNat⟩
  callSites : lsda.callSites = h.callSites
  actionOffset : lsda.actionOffset = h.actionOffset

/-- The type table ends inside the table. -/
theorem TypesField.fin_le {start length : ℕ} {field : List UInt8} {types : Types}
    (h : TypesField start length field (some types)) : types.fin ≤ length := by
  cases h with
  | table _ _ _ hle => exact hle

variable {bytes : List UInt8} {lsda : Lsda}

theorem Header.Describes.imp {h : Header} {landing landing' : List UInt8 → ℕ → Prop} {bases : Bases}
    {endian : Endian} (hdescribes : h.Describes landing bases endian lsda)
    (himp : landing h.landing lsda.landingBase → landing' h.landing lsda.landingBase) :
    h.Describes landing' bases endian lsda :=
  { hdescribes with landing := himp hdescribes.landing }

theorem Lsda.new_eq_ok_header (hlength : bytes.length < size) (bases : Bases) (endian : Endian) :
    new bytes bases endian = .ok lsda ↔
      ∃ h : Header, h.bytes = bytes ∧ h.Describes (LandingRead bases endian) bases endian lsda := by
  rw [new_eq_ok]
  constructor
  · rintro ⟨_, landingBase, _, types, encoding, _, _, actions, callSites, hlanding, htypes, rfl,
      huleb, rfl, -, hvalid, hpresent, rfl⟩
    obtain ⟨landing, rfl, hlandingField⟩ := landing_eq_ok_field.1 hlanding
    obtain ⟨types, rfl, htypesField⟩ := (typeTable_eq_ok_field hlength).1 htypes
    obtain ⟨callLength, rfl, hstored⟩ := uleb_eq_stored.1 huleb
    let h : Header := ⟨landing, types, encoding, callLength, callSites, actions⟩
    have hoffset : h.bytes.length - actions.length = h.actionOffset := by
      rw [h.length_bytes, Nat.add_sub_cancel]
    exact ⟨h, rfl, hlandingField, htypesField, hvalid, hpresent, hstored, rfl, rfl, rfl, rfl, rfl,
      hoffset⟩
  · rintro ⟨h, rfl, hdescribes⟩
    refine ⟨_, lsda.landingBase, _, lsda.types, h.callEncoding, _, _, h.actions, h.callSites,
      landing_eq_ok_field.2 ⟨h.landing, rfl, hdescribes.landing⟩,
      (typeTable_eq_ok_field hlength).2 ⟨h.types, rfl, hdescribes.types⟩, rfl,
      uleb_eq_stored.2 ⟨h.callLength, rfl, hdescribes.callLength⟩, rfl, ?_, hdescribes.callValid,
      hdescribes.callPresent, ?_⟩
    · rw [h.length_bytes]
      omega
    · rw [h.length_bytes, Nat.add_sub_cancel, ← hdescribes.actionOffset, ← hdescribes.callSites,
        ← hdescribes.callEncoding, ← hdescribes.bytes, ← hdescribes.bases, ← hdescribes.endian]

/-- The parser accepts exactly the byte strings that begin with well-formed fields, and records what
these stand for; all that it records lies inside the bytes. -/
structure Lsda.ParsesHeaders (bytes : List UInt8) (bases : Bases) (endian : Endian) : Prop where
  exact : ∀ lsda, new bytes bases endian = .ok lsda ↔
    ∃ h : Header, h.bytes = bytes ∧ h.Describes (LandingField bases endian) bases endian lsda
  inside : ∀ lsda, new bytes bases endian = .ok lsda →
    lsda.callSites.length ≤ lsda.actionOffset ∧ lsda.actionOffset ≤ bytes.length ∧
    lsda.callSites = (bytes.drop (lsda.actionOffset - lsda.callSites.length)).take
      lsda.callSites.length ∧
    ∀ types, lsda.types = some types → types.fin ≤ bytes.length

/-- **Headers.** The parser accepts the grammar of headers if and only if the bytes are no header
with a landing base of which bits are lost. -/
theorem Lsda.new_exact_iff (hslice : bytes.length ≤ maxSlice) (bases : Bases) (endian : Endian) :
    ParsesHeaders bytes bases endian ↔ ¬∃ (h : Header) (lsda : Lsda), h.bytes = bytes ∧
      h.Describes (LandingMisread bases) bases endian lsda := by
  have hlength : bytes.length < size := by
    rw [maxSlice] at hslice
    rw [size]
    omega
  have hread (lsda : Lsda) : new bytes bases endian = .ok lsda ↔ _ :=
    new_eq_ok_header hlength bases endian
  constructor
  · rintro hparses ⟨h, lsda, hbytes, hmisread⟩
    obtain ⟨h', hbytes', hstored⟩ :=
      (hparses.exact lsda).1 ((hread lsda).2 ⟨h, hbytes, hmisread.imp .inr⟩)
    exact hstored.landing.not_misread hmisread.landing (hbytes'.trans hbytes.symm)
  · intro hnone
    refine ⟨fun lsda => (hread lsda).trans ⟨?_, ?_⟩, fun lsda hnew => ?_⟩
    · rintro ⟨h, hbytes, hdescribes⟩
      refine ⟨h, hbytes, hdescribes.imp fun hlanding => hlanding.resolve_right fun hmisread => ?_⟩
      exact hnone ⟨h, lsda, hbytes, hdescribes.imp fun _ => hmisread⟩
    · rintro ⟨h, hbytes, hdescribes⟩
      exact ⟨h, hbytes, hdescribes.imp .inl⟩
    · obtain ⟨h, rfl, hdescribes⟩ := (hread lsda).1 hnew
      rw [hdescribes.callSites, hdescribes.actionOffset, h.length_bytes]
      refine ⟨?_, Nat.le_add_right _ _, h.callSites_eq, fun types htypes => ?_⟩
      · rw [Header.actionOffset]
        exact Nat.le_add_left _ _
      · rw [← h.length_bytes]
        exact (htypes ▸ hdescribes.types).fin_le

end

attribute [local instance] PointerEncoding.bits in
/-- A header with every field. -/
theorem Lsda.new_exact_full : ∃ h : Header,
    h.bytes = [0x52, 0, 0, 0, 0, 0, 0, 0, 0x34, 0x12, 0x1b, 0x03, 0x01, 0x01, 0x2a, 0x07] ∧
    h.callSites = [0x2a] ∧ h.actionOffset = 15 := by
  let bytes : List UInt8 :=
    [0x52, 0, 0, 0, 0, 0, 0, 0, 0x34, 0x12, 0x1b, 0x03, 0x01, 0x01, 0x2a, 0x07]
  let lsda : Lsda := ⟨bytes, .new 0x1000 0x2000, .little, 0x1234, some ⟨15, ⟨0x1b⟩⟩, ULEB, [0x2a],
    15⟩
  have hnew : new bytes (.new 0x1000 0x2000) .little = .ok lsda := by decide
  -- the landing base is no signed LEB128 number
  have hkept : ¬∃ (h : Header) (lsda : Lsda), h.bytes = bytes ∧
      h.Describes (LandingMisread (.new 0x1000 0x2000)) (.new 0x1000 0x2000) .little lsda := by
    rintro ⟨h, lsda, hbytes, hmisread⟩
    obtain ⟨encoding, field, hfield, hformat⟩ := hmisread.landing.encoding
    have hfirst : encoding = 0x52 := by
      have hhead := congrArg List.head? hbytes
      rw [Header.bytes, hfield] at hhead
      exact Option.some.inj hhead
    rw [hfirst] at hformat
    exact absurd hformat (by decide)
  obtain ⟨h, hbytes, hdescribes⟩ :=
    (((new_exact_iff (show bytes.length ≤ maxSlice by decide) _ _).2 hkept).exact lsda).1 hnew
  exact ⟨h, hbytes, hdescribes.callSites.symm, hdescribes.actionOffset.symm⟩

attribute [local instance] PointerEncoding.bits in
/-- A header whose landing base is `2 ^ 64` is accepted, with the landing base zero. -/
theorem Lsda.new_truncates_landing :
    let bytes : List UInt8 := 0x09 :: List.replicate 9 0x80 ++ [0x02, 0xff, 0x01, 0x00]
    let lsda : Lsda := ⟨bytes, .new 0x1000 0x2000, .little, 0, none, ULEB, [], 14⟩
    new bytes (.new 0x1000 0x2000) .little = .ok lsda ∧
      ¬ParsesHeaders bytes (.new 0x1000 0x2000) .little := by
  intro bytes lsda
  have hnew : new bytes (.new 0x1000 0x2000) .little = .ok lsda := by decide
  refine ⟨hnew, fun hparses => ?_⟩
  obtain ⟨h, hbytes, hstored⟩ := (hparses.exact lsda).1 hnew
  let octets : List UInt8 := List.replicate 9 0x80 ++ [0x02]
  have hmore : ∀ octet ∈ List.replicate 9 (0x80 : UInt8), Leb128.Continues octet := by
    intro octet hoctet
    rw [List.eq_of_mem_replicate hoctet]
    decide
  have hoctets : Leb128.Encoding octets := .append hmore (.last (by decide))
  have hwrapped : WrappedTarget (.new 0x1000 0x2000) ⟨0x09⟩ 1 [] octets 0 :=
    ⟨by decide, by decide, by decide, by decide,
      ⟨0, 0, ⟨by decide, hoctets, by decide, by decide, by decide⟩, by decide, by decide⟩,
      by decide⟩
  have hmisread : LandingMisread (.new 0x1000 0x2000) (0x09 :: octets) 0 :=
    @LandingMisread.target .bits (.new 0x1000 0x2000) 0x09 [] octets 0 (by decide) hwrapped
  have hfront : (0x09 :: octets) ++ [0xff, 0x01, 0x00] = bytes := by decide
  exact hstored.landing.not_misread hmisread (hbytes.trans hfront.symm)

end Desenredo
