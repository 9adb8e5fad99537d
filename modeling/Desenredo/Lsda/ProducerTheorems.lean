import Desenredo.Lsda.CallSiteTheorems
import Desenredo.Lsda.HeaderTheorems
import Desenredo.Lsda.Producer

/-!
# Written tables are read back

The parser accepts what `TableEncoding.write` writes, and its iterators and lookups return what the
table says: the ranges in order, the purposes of each action in the order they are tried, the types
by their places and the specifications by their indices.
-/

namespace Desenredo

open Parser Usize

/-! ## Purposes -/

namespace ExceptionTable

variable {T : ExceptionTable} {i n : ℕ} {node : Node}

/-- An action leads on to those before it only, so it has at most as many behind it. -/
theorem chain_of_lt (h : i < n) : chain T.nodes n i = T.purposes i := by
  induction i using Nat.strong_induction_on generalizing n with
  | _ i ih =>
    obtain ⟨n, rfl⟩ := Nat.exists_eq_succ_of_ne_zero (Nat.ne_zero_of_lt h)
    rw [purposes, chain, chain]
    cases hnode : T.nodes[i]? with
    | none => rfl
    | some node =>
      cases hnext : node.next with
      | none => simp only [hnext, Option.elim_none]
      | some next =>
        have hlt : next < i := T.earlier i node hnode next hnext
        simp only [hnext, Option.elim_some]
        rw [ih next hlt (hlt.trans_le (Nat.le_of_lt_succ h)), ih next hlt hlt]

theorem purposes_eq (h : T.nodes[i]? = some node) :
    T.purposes i = node.purpose :: node.next.elim [] T.purposes := by
  rw [purposes, chain, h]
  cases hnext : node.next with
  | none => simp only [hnext, Option.elim_none]
  | some next =>
    have hlt : next < i := T.earlier i node h next hnext
    simp only [hnext, Option.elim_some, chain_of_lt hlt]

end ExceptionTable

/-! ## Fields -/

theorem sleb_reads_encodeSigned {v : ℤ} (hlow : -2 ^ 63 ≤ v) (hhigh : v < 2 ^ 63) :
    Reads sleb (Leb128.encodeSigned v) v := by
  have hlength : (Leb128.encodeSigned v).length ≤ 10 :=
    Leb128.length_encodeSigned_le (k := 9) (by omega)
  have hreads := sleb_reads (Leb128.encoding_encodeSigned v) hlength
    (by rwa [Leb128.signedValue_encodeSigned]) (by rwa [Leb128.signedValue_encodeSigned])
  rwa [Leb128.signedValue_encodeSigned] at hreads

theorem DwEhPe.mem_formats_of_fixed {format : DwEhPe} {width : ℕ}
    (h : format.fixed = some width) : format ∈ formats := by
  unfold fixed at h
  split at h <;> cases h <;> decide

/-- A field stores a number in two's complement when its format is signed, and as it is when not. -/
theorem DwEhPe.stored_eq (format : DwEhPe) (endian : Endian) (octets : List UInt8) :
    format.stored endian octets =
      if format.isSigned then Fixed.signed (8 * octets.length) (endian.number octets)
      else endian.number octets := by
  by_cases hsigned : format = S2 ∨ format = S4 ∨ format = S8
  · rcases hsigned with rfl | rfl | rfl <;> rfl
  · rw [not_or, not_or] at hsigned
    obtain ⟨h2, h4, h8⟩ := hsigned
    have hunsigned : format.isSigned = false := by
      unfold isSigned
      split <;> first | rfl | contradiction
    have hstored : format.stored endian octets = endian.number octets := by
      unfold stored
      split <;> first | rfl | contradiction
    rw [hunsigned, hstored, if_neg Bool.false_ne_true]

/-- A field stores every integer its width has room for. -/
theorem DwEhPe.stored_bytes {format : DwEhPe} {width : ℕ} (hwidth : 0 < width) (endian : Endian)
    {v : ℤ} (h : if format.isSigned then -2 ^ (8 * width - 1) ≤ v ∧ v < 2 ^ (8 * width - 1)
      else 0 ≤ v ∧ v < 2 ^ (8 * width)) :
    format.stored endian (endian.bytes width (v % 2 ^ (8 * width)).toNat) = v := by
  have hpow : 256 ^ width = 2 ^ (8 * width) := (pow_mul 2 8 width).symm
  have hcast : ((2 ^ (8 * width) : ℕ) : ℤ) = 2 ^ (8 * width) := by norm_cast
  have hpos : (0 : ℤ) < 2 ^ (8 * width) := Int.pow_pos (by decide)
  have hlt : v % 2 ^ (8 * width) < 2 ^ (8 * width) := Int.emod_lt_of_pos _ hpos
  have hfits : (v % 2 ^ (8 * width)).toNat < 256 ^ width := by omega
  rw [stored_eq, endian.number_bytes hfits, Endian.length_bytes]
  cases hsigned : format.isSigned with
  | true =>
    rw [hsigned, if_pos rfl] at h
    rw [if_pos rfl]
    exact Fixed.signed_emod (by omega) h.1 h.2
  | false =>
    rw [hsigned, if_neg Bool.false_ne_true] at h
    rw [if_neg Bool.false_ne_true, Int.emod_eq_of_lt h.1 h.2, Int.toNat_of_nonneg h.1]

theorem encodes_of_fixed {format : DwEhPe} {endian : Endian} {octets : List UInt8}
    (h : format.fixed = some octets.length) :
    Encodes format endian (format.stored endian octets) octets := by
  unfold Encodes
  split
  case h_1 => cases h
  case h_2 => cases h
  case h_3 => exact ⟨h, rfl⟩

/-! ## Pointers -/

namespace PointerFormat

section

variable [PointerEncoding]

/-- What the reader makes of the encoding of a pointer. -/
structure Readable (P : PointerFormat) : Prop where
  valid : P.encoding.isValidEncoding
  present : ¬P.encoding.isAbsent
  format : P.encoding.format = PointerEncoding.bits.format P.encoding
  fixed : P.encoding.format.fixed = some P.width
  base : ∀ bases field, P.encoding.application.base bases field = P.base bases field
  placed : P.encoding.application ≠ ALIGN

theorem readable (hstandard : PointerEncoding.Standard) (P : PointerFormat) : P.Readable := by
  have hformat := hstandard.format P.encoding P.byte
  have happlication := hstandard.application P.encoding P.byte
  have hfixed := P.fixed
  have hplaced := P.placed
  -- the encoding of an omitted field has no format
  have hpresent : PointerEncoding.bits.isAbsent P.encoding = false := by
    refine decide_eq_false fun habsent => ?_
    rw [show P.encoding = ⟨0xff⟩ from congrArg DwEhPe.mk habsent] at hfixed
    cases hfixed
  have happlied : PointerEncoding.bits.application P.encoding ∈ DwEhPe.applications ∧
      PointerEncoding.bits.application P.encoding ≠ ALIGN := by
    generalize PointerEncoding.bits.application P.encoding = application at hplaced
    revert application
    decide
  refine ⟨?_, ?_, hformat, ?_, fun bases field => ?_, ?_⟩
  · rw [hstandard.isValidEncoding P.encoding P.byte]
    exact decide_eq_true (.inr ⟨DwEhPe.mem_formats_of_fixed hfixed, happlied.1⟩)
  · rw [hstandard.isAbsent P.encoding P.byte, hpresent]
    exact Bool.false_ne_true
  · rw [hformat, hfixed]
  · rw [happlication, base]
  · rw [happlication]
    exact happlied.2

end

variable {P : PointerFormat} {bases : Bases} {field addr : ℕ}

@[simp] theorem length_write (endian : Endian) :
    (P.write bases endian field addr).length = P.width := Endian.length_bytes endian _ _

theorem width_pos (P : PointerFormat) : 0 < P.width := (DwEhPe.fixedWidth_of_fixed P.fixed).one_le

theorem byte_eq (P : PointerFormat) :
    DwEhPe.mk (UInt8.ofNat P.encoding.raw).toNat = P.encoding := by
  rw [UInt8.toNat_ofNat', Nat.mod_eq_of_lt P.byte]

/-- A field that reaches an address stores the distance from its base. -/
theorem stored_write (endian : Endian) (h : P.Reaches bases field addr) :
    (PointerEncoding.bits.format P.encoding).stored endian (P.write bases endian field addr) =
      P.displacement bases field addr :=
  DwEhPe.stored_bytes P.width_pos endian h.2.2

theorem displacement_eq {base : ℕ} (h : P.base bases field = some base) :
    P.displacement bases field addr = addr - base := by
  rw [displacement, h, Option.getD_some]

variable [PointerEncoding]

/-- A pointer that was written is decoded. -/
theorem decode_write (hread : P.Readable) (endian : Endian) (h : P.Reaches bases field addr) :
    P.encoding.decode bases endian field (P.write bases endian field addr) =
      .ok ⟨addr, P.encoding.isIndirect⟩ := by
  obtain ⟨base, hbase⟩ := Option.isSome_iff_exists.1 h.1
  have hstored : base + P.encoding.format.stored endian (P.write bases endian field addr) =
      addr := by
    rw [hread.format, stored_write endian h, displacement_eq hbase]
    omega
  have hlt : addr < size := h.2.1
  refine DwEhPe.decode_eq_ok.2 ⟨base, by rw [hread.base, hbase], ?_, ?_, ?_⟩ <;> rw [hstored]
  · exact Int.natCast_nonneg addr
  · exact_mod_cast hlt
  · rw [Int.toNat_natCast]

/-- A pointer that was written is the target of its field. -/
theorem encodedTarget_write (hread : P.Readable) (endian : Endian) {start : ℕ}
    (hspace : bases.origin + start < size) (h : P.Reaches bases (bases.origin + start) addr) :
    EncodedTarget bases endian P.encoding start []
      (P.write bases endian (bases.origin + start) addr) addr where
  valid := hread.valid
  present := hread.present
  padded := by rw [skipped, if_neg hread.placed, List.length_nil]
  field := hspace
  value := by
    obtain ⟨base, hbase⟩ := Option.isSome_iff_exists.1 h.1
    have hfixed := hread.fixed
    have hlength : (P.write bases endian (bases.origin + start) addr).length = P.width :=
      length_write endian
    rw [← hlength] at hfixed
    refine ⟨_, base, encodes_of_fixed hfixed, ?_, ?_⟩
    · rw [hread.base, List.length_nil, Nat.add_zero, hbase]
    · rw [hread.format, stored_write endian h, displacement_eq hbase]
      omega
  fits := h.2.1

end PointerFormat

/-! ## Actions -/

namespace Chain

variable {lsda : Lsda} {action : Action}

/-- A chain begins at its first offset, if that is inside the action table. -/
theorem chain_of_inActions (hlen : lsda.bytes.length ≤ maxSlice)
    (h : lsda.InActions (lsda.first action)) : lsda.chain action =
      .ok (before lsda (some (lsda.first action)) (lsda.bytes.length + 1)) := by
  have hpos : 1 ≤ (action.raw : ℕ) := Nat.pos_of_ne_zero action.raw.2
  have hsub : checkedSub (action.raw : ℕ) 1 = some (action.raw - 1 : ℕ) := if_pos hpos
  have hfirst : lsda.actionOffset + (action.raw - 1) = lsda.first action := by
    rw [Lsda.first]
    omega
  have hin : lsda.first action < lsda.bytes.length := by exact_mod_cast h.2
  have hadd : checkedAdd lsda.actionOffset (action.raw - 1) = some (lsda.first action) :=
    checkedAdd_eq_some.2 ⟨by rw [size]; rw [maxSlice] at hlen; omega, hfirst.symm⟩
  have hfuel : saturatingAdd lsda.bytes.length 1 = lsda.bytes.length + 1 := by
    rw [saturatingAdd, size]
    rw [maxSlice] at hlen
    omega
  simp only [Lsda.chain, hsub, hadd, Option.okOr_some, Except.bind_ok, if_pos hin,
    takeBytes_of_le hin.le, hfuel, before, Option.map_some]

end Chain

namespace ExceptionTable

variable {T : ExceptionTable} {i j : ℕ} {node : Node}

theorem ofIndex_discriminator (purpose : Purpose) :
    Kind.ofIndex (T.discriminator purpose) = T.kind purpose := by
  cases purpose with
  | cleanup => rfl
  | «catch» type =>
    have hpos : 0 < (type : ℤ) + 1 := by omega
    rw [discriminator, Kind.ofIndex, dif_neg hpos.ne', if_pos hpos]
    rfl
  | filter specification =>
    have hneg : -(T.specificationIndex specification : ℤ) < 0 := by
      rw [specificationIndex]
      omega
    rw [discriminator, Kind.ofIndex, dif_neg hneg.ne, if_neg hneg.not_gt]
    simp only [Int.natAbs_neg, Int.natAbs_natCast]
    rfl

/-- The octets of the number of an action. -/
def indexOctets (T : ExceptionTable) (node : Node) : List UInt8 :=
  Leb128.encodeSigned (T.discriminator node.purpose)

/-- Where an action begins in the action table. -/
def start (T : ExceptionTable) (i : ℕ) : ℕ := Layout.start T.writeNode T.nodes i

/-- What the link of an action stores. -/
def delta (T : ExceptionTable) (i : ℕ) (node : Node) : ℤ :=
  node.next.elim 0 fun next => (T.start next : ℤ) - (T.start i + (T.indexOctets node).length : ℕ)

theorem octets_eq (h : T.nodes[i]? = some node) : Layout.octets T.writeNode T.nodes i node =
    T.indexOctets node ++ Leb128.encodeSigned (T.delta i node) := by
  rw [Layout.octets, writeNode, delta]
  cases hnext : node.next with
  | none => rfl
  | some next =>
    have hlt : next < i := T.earlier i node h next hnext
    obtain ⟨hi, -⟩ := List.getElem?_eq_some_iff.1 h
    simp only [Option.elim_some, List.getD_eq_getElem?_getD, Layout.offsets_before hlt hi.le,
      Option.getD_some]
    rfl

theorem encodeSigned_pos (v : ℤ) : 0 < (Leb128.encodeSigned v).length :=
  (Leb128.encoding_encodeSigned v).length_pos

/-- An action begins inside the action table, and behind all of those before it. -/
theorem start_bounds (h : T.nodes[i]? = some node) :
    i ≤ T.start i ∧ T.start i + (T.indexOctets node).length < T.actions.length ∧
      ∀ j < i, T.start j < T.start i := by
  obtain ⟨hi, -⟩ := List.getElem?_eq_some_iff.1 h
  have hend := Layout.start_le_length T.writeNode h
  rw [octets_eq h, List.length_append] at hend
  have hlink := encodeSigned_pos (T.delta i node)
  have hpos (starts : List ℕ) (here : ℕ) (node : Node) :
      0 < (T.writeNode starts here node).length := by
    rw [writeNode, List.length_append]
    exact Nat.add_pos_left (encodeSigned_pos _) _
  refine ⟨Layout.le_start hpos hi.le, by rw [actions, start]; omega, fun j hj => ?_⟩
  have hget : T.nodes[j]? = some T.nodes[j] := List.getElem?_eq_getElem (hj.trans hi)
  have hbefore := Layout.start_le_start T.writeNode hget hj
  have hlength := hpos (Layout.emit T.writeNode (T.nodes.take j)).1 (T.start j) T.nodes[j]
  rw [Layout.octets] at hbefore
  rw [start] at hlength ⊢
  rw [start]
  omega

section

variable {lsda : Lsda} {rest : List UInt8}
  (hactions : lsda.bytes.drop lsda.actionOffset = T.actions ++ rest)
  (hslice : lsda.bytes.length ≤ maxSlice)

include hactions in
theorem length_actions_le : lsda.actionOffset + T.actions.length ≤ lsda.bytes.length ∨
    T.actions = [] := by
  have hlength := congrArg List.length hactions
  rw [List.length_drop, List.length_append] at hlength
  rw [← List.length_eq_zero_iff]
  omega

include hactions in
/-- The offset of an action lies inside the action table. -/
theorem inActions (h : T.nodes[i]? = some node) :
    lsda.InActions ((lsda.actionOffset + T.start i : ℕ) : ℤ) := by
  obtain ⟨-, hlt, -⟩ := start_bounds h
  have hle := length_actions_le hactions
  rw [← List.length_eq_zero_iff] at hle
  constructor <;> omega

/-- The numbers a link field stores fit a word. -/
theorem delta_bounds (h : T.nodes[i]? = some node) (hlength : T.actions.length ≤ maxSlice) :
    -2 ^ 63 ≤ T.delta i node ∧ T.delta i node < 2 ^ 63 := by
  obtain ⟨-, hlt, hbefore⟩ := start_bounds h
  rw [maxSlice] at hlength
  rw [delta]
  cases hnext : node.next with
  | none => simp
  | some next =>
    have hle := hbefore next (T.earlier i node h next hnext)
    rw [Option.elim_some]
    constructor <;> omega

include hactions hslice in
/-- The record of an action stands where the action does. -/
theorem record_of_node (h : T.nodes[i]? = some node)
    (hroom : -2 ^ 63 ≤ T.discriminator node.purpose ∧ T.discriminator node.purpose < 2 ^ 63) :
    lsda.record .read (lsda.actionOffset + T.start i) = some ⟨T.discriminator node.purpose,
      lsda.actionOffset + T.start i + (T.indexOctets node).length, T.delta i node⟩ := by
  obtain ⟨after, hsplit⟩ := Layout.emit_split T.writeNode h
  have hstart : (Layout.emit T.writeNode (T.nodes.take i)).2.length = T.start i := rfl
  -- the table begins here with the two fields of the record
  have hdrop : lsda.bytes.drop (lsda.actionOffset + T.start i) =
      T.indexOctets node ++ (Leb128.encodeSigned (T.delta i node) ++ (after ++ rest)) := by
    rw [← List.drop_drop, hactions, actions, hsplit, List.append_assoc, ← hstart, List.drop_left,
      octets_eq h, List.append_assoc, List.append_assoc]
  have hlength : T.actions.length ≤ maxSlice := by
    have hle := length_actions_le hactions
    rw [← List.length_eq_zero_iff] at hle
    omega
  have hindex := sleb_reads_encodeSigned hroom.1 hroom.2
  obtain ⟨hlow, hhigh⟩ := delta_bounds h hlength
  have hdelta := sleb_reads_encodeSigned hlow hhigh
  refine Lsda.record_eq_some.2 ⟨_, after ++ rest, ?_, Field.read_eq_some.2 (hdelta _), ?_⟩
  · rw [hdrop, Field.read_eq_some]
    exact hindex _
  · rw [hdrop, List.length_append]
    dsimp only
    omega

include hactions hslice in
/-- The link of an action leads to the next one. -/
theorem link_of_node (h : T.nodes[i]? = some node)
    (hroom : -2 ^ 63 ≤ T.discriminator node.purpose ∧ T.discriminator node.purpose < 2 ^ 63) :
    let r : ActionRecord := ⟨T.discriminator node.purpose,
      lsda.actionOffset + T.start i + (T.indexOctets node).length, T.delta i node⟩
    (r.delta = 0 ∨ lsda.InActions (r.link + r.delta)) ∧
      lsda.link .read (lsda.actionOffset + T.start i) =
        node.next.map fun next => lsda.actionOffset + T.start next := by
  intro r
  have hrecord : lsda.record .read (lsda.actionOffset + T.start i) = some r :=
    record_of_node hactions hslice h hroom
  rw [Lsda.link_of_record hrecord]
  cases hnext : node.next with
  | none =>
    have hzero : r.delta = 0 := by
      rw [show r.delta = T.delta i node from rfl, delta, hnext, Option.elim_none]
    exact ⟨.inl hzero, if_neg fun h => h.1 hzero⟩
  | some next =>
    have hlt := T.earlier i node h next hnext
    obtain ⟨hi, -⟩ := List.getElem?_eq_some_iff.1 h
    have hget : T.nodes[next]? = some T.nodes[next] := List.getElem?_eq_getElem (hlt.trans hi)
    obtain ⟨-, -, hbefore⟩ := start_bounds h
    have hback := hbefore next hlt
    have hdelta : r.delta = (T.start next : ℤ) - (T.start i + (T.indexOctets node).length : ℕ) := by
      rw [show r.delta = T.delta i node from rfl, delta, hnext, Option.elim_some]
    have hlink : r.link = lsda.actionOffset + T.start i + (T.indexOctets node).length := rfl
    have htarget : (r.link : ℤ) + r.delta = (lsda.actionOffset + T.start next : ℕ) := by omega
    have hin : lsda.InActions (r.link + r.delta) := by
      rw [htarget]
      exact inActions hactions hget
    have hne : r.delta ≠ 0 := by omega
    refine ⟨.inr hin, ?_⟩
    rw [if_pos ⟨hne, hin⟩, htarget, Int.toNat_natCast, Option.map_some]

include hactions hslice in
/-- From an action on, the iterator yields the purposes tried from there on. -/
theorem purposes_yielded (hroom : ∀ node ∈ T.nodes,
    -2 ^ 63 ≤ T.discriminator node.purpose ∧ T.discriminator node.purpose < 2 ^ 63)
    (h : T.nodes[i]? = some node) {fuel : ℕ} (hfuel : i < fuel) :
    Iter.Yields Chain.next (Chain.before lsda (some (lsda.actionOffset + T.start i)) fuel)
      ((T.purposes i).map fun purpose => .ok (T.kind purpose)) := by
  -- on the action: a link leads to an earlier one, which needs less fuel
  induction i using Nat.strong_induction_on generalizing node fuel with
  | _ i ih =>
    obtain ⟨fuel, rfl⟩ := Nat.exists_eq_succ_of_ne_zero (Nat.ne_zero_of_lt hfuel)
    have hnode := hroom node (List.mem_of_getElem? h)
    obtain ⟨hsound, hlink⟩ := link_of_node hactions hslice h hnode
    have hrecord := record_of_node hactions hslice h hnode
    have hnext : Chain.next (.before lsda (some (lsda.actionOffset + T.start i)) (fuel + 1)) = _ :=
      Chain.next_of_sound hslice hrecord hsound
    rw [purposes_eq h, List.map_cons, ← ofIndex_discriminator, Iter.yields_cons hnext, hlink]
    cases hnode' : node.next with
    | none => exact Chain.fused.yields_nil rfl
    | some next =>
      have hlt := T.earlier i node h next hnode'
      obtain ⟨hi, -⟩ := List.getElem?_eq_some_iff.1 h
      exact ih next hlt (List.getElem?_eq_getElem (hlt.trans hi))
        (hlt.trans_le (Nat.le_of_lt_succ hfuel))

include hactions hslice in
/-- The chain of an action yields its purposes in the order they are tried. -/
theorem chain_yields (hroom : ∀ node ∈ T.nodes,
    -2 ^ 63 ≤ T.discriminator node.purpose ∧ T.discriminator node.purpose < 2 ^ 63)
    (hi : i < T.nodes.length) : ∃ chain, lsda.chain (T.action i) = .ok chain ∧
      Iter.Yields Chain.next chain ((T.purposes i).map fun purpose => .ok (T.kind purpose)) := by
  have hget : T.nodes[i]? = some T.nodes[i] := List.getElem?_eq_getElem hi
  have hin := inActions hactions hget
  have hfirst : lsda.first (T.action i) = lsda.actionOffset + T.start i := rfl
  rw [← hfirst] at hin
  refine ⟨_, Chain.chain_of_inActions hslice hin, ?_⟩
  obtain ⟨hle, -, -⟩ := start_bounds hget
  have hlt := hin.2
  rw [hfirst] at hlt ⊢
  exact purposes_yielded hactions hslice hroom hget (by omega)

end

end ExceptionTable

end Desenredo
