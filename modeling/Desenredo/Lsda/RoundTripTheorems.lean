import Desenredo.Lsda.LookupTheorems
import Desenredo.Lsda.ProducerTheorems

/-!
# Tables round trip

Reading a written table from end to end, with the iterators and lookups of the parser, gives what
the table says.
-/

namespace Desenredo

open Parser Usize

/-! ## Types -/

namespace TableEncoding

variable {F : TableEncoding} {bases : Bases} {types : List ℕ} {front back : List UInt8}
  {fin i addr : ℕ}

theorem length_writeTypes :
    (F.writeTypes bases fin types).length = types.length * F.types.width := by
  induction types generalizing fin with
  | nil => simp [writeTypes]
  | cons addr types ih =>
    rw [writeTypes, List.length_append, ih, PointerFormat.length_write, List.length_cons,
      Nat.succ_mul]

/-- The slot of a type holds the pointer written for it. -/
theorem writeTypes_slot (F : TableEncoding) (bases : Bases) (back : List UInt8)
    (h : types[i]? = some addr)
    (hfin : fin = front.length + types.length * F.types.width) :
    ((front ++ (F.writeTypes bases fin types ++ back)).drop
        (fin - (i + 1) * F.types.width)).take F.types.width =
      F.types.write bases F.endian (bases.origin + (fin - (i + 1) * F.types.width)) addr := by
  -- from the end of the table: the first type is the last field
  induction types generalizing fin i back with
  | nil => cases h
  | cons first types ih =>
    rw [List.length_cons, Nat.succ_mul] at hfin
    rw [writeTypes, List.append_assoc]
    cases i with
    | zero =>
      obtain rfl := Option.some.inj h
      have hlength : fin - (0 + 1) * F.types.width =
          (front ++ F.writeTypes bases (fin - F.types.width) types).length := by
        rw [List.length_append, length_writeTypes]
        omega
      rw [← List.append_assoc, hlength, List.drop_left, ← hlength, Nat.zero_add, Nat.one_mul]
      exact List.take_left' (PointerFormat.length_write F.endian)
    | succ i =>
      have hslot : fin - (i + 1 + 1) * F.types.width =
          fin - F.types.width - (i + 1) * F.types.width := by
        rw [Nat.succ_mul (i + 1)]
        omega
      rw [hslot]
      exact ih _ h (by omega)

end TableEncoding

/-! ## Specifications -/

namespace ExceptionTable

variable {T : ExceptionTable} {i : ℕ} {list : List ℕ}

/-- A specification stores the indices of its types. -/
theorem storedIndices (h : ∀ type ∈ list, type + 1 < size) :
    StoredIndices (list.map .ofPlace) (list.flatMap fun type => Leb128.encode (type + 1)) := by
  induction list with
  | nil => exact .nil
  | cons type list ih =>
    obtain ⟨htype, hlist⟩ := List.forall_mem_cons.1 h
    exact .cons (storesUleb_encode htype) (ih hlist)

/-- A specification that stands at the input is yielded. -/
theorem specification_yields (h : ∀ type ∈ list, type + 1 < size) (rest : List UInt8) :
    Iter.Yields FilterTypes.next ⟨writeSpecification list ++ rest, false⟩
      (list.map fun type => .ok (.ofPlace type)) := by
  have hzero := FilterTypes.yields_zero (storesUleb_encode (n := 0) (by decide)) rest
  have hlist := FilterTypes.yields_stored (storedIndices h) hzero
  rw [List.append_nil, List.map_map] at hlist
  rw [writeSpecification, List.append_assoc]
  exact hlist

/-- A specification is found at its index. -/
theorem filter_yields {lsda : Lsda} {types : Types} {rest : List UInt8}
    (hslice : lsda.bytes.length ≤ maxSlice) (htypes : lsda.types = some types)
    (hlists : lsda.bytes.drop types.fin = T.lists ++ rest) (hfin : types.fin ≤ lsda.bytes.length)
    (h : T.specifications[i]? = some list) (hroom : T.types.length < size) :
    ∃ filter, lsda.filter (T.filter i) = .ok filter ∧
      Iter.Yields FilterTypes.next filter (list.map fun type => .ok (.ofPlace type)) := by
  obtain ⟨after, hsplit⟩ := Layout.emit_split specificationArea h
  have hend := Layout.start_le_length specificationArea h
  have hlength := congrArg List.length hlists
  rw [List.length_drop, List.length_append, lists] at hlength
  have hraw : ((T.filter i).raw : ℕ) - 1 = Layout.start specificationArea T.specifications i := rfl
  have hbound : types.fin + ((T.filter i).raw - 1) ≤ lsda.bytes.length := by omega
  have hfilter := Lsda.filter_eq hslice htypes hbound
  have hstart : (Layout.emit specificationArea (T.specifications.take i)).2.length =
      Layout.start specificationArea T.specifications i := rfl
  have hlisted : ∀ type ∈ list, type + 1 < size := fun type htype => by
    have hlt := T.listed list (List.mem_of_getElem? h) type htype
    omega
  refine ⟨_, hfilter, ?_⟩
  rw [hraw, ← List.drop_drop, hlists, lists, hsplit, List.append_assoc, ← hstart, List.drop_left,
    List.append_assoc]
  exact specification_yields hlisted _

end ExceptionTable

/-! ## The header -/

namespace TableEncoding

variable {F : TableEncoding} {T : ExceptionTable} {bases : Bases} {gap tail : List UInt8}

/-- The fields of a written table. -/
def header (F : TableEncoding) (T : ExceptionTable) (bases : Bases) (gap tail : List UInt8) :
    Header :=
  ⟨F.landingField bases, F.typesField T gap.length, UInt8.ofNat F.calls.raw,
    Leb128.encode (F.callTable T).length, F.callTable T, F.behind T bases gap tail⟩

/-- What the parser records of a written table. -/
def parsed (F : TableEncoding) (T : ExceptionTable) (bases : Bases) (gap tail : List UInt8) :
    Lsda where
  bytes := F.write T bases gap tail
  bases := bases
  endian := F.endian
  landingBase := F.landingBase bases
  types := if T.types = [] ∧ T.specifications = [] then none
    else some ⟨F.typesEnd T bases gap.length, F.types.encoding⟩
  callEncoding := F.calls
  callSites := F.callTable T
  actionOffset := (F.header T bases gap tail).actionOffset

theorem length_write (F : TableEncoding) (T : ExceptionTable) (bases : Bases)
    (gap tail : List UInt8) : (F.write T bases gap tail).length =
    F.typesEnd T bases gap.length + (T.lists.length + tail.length) := by
  simp only [write, behind, typesEnd, distance, List.length_append, List.length_cons,
    length_writeTypes]
  rw [Nat.mul_comm F.types.width]
  omega

/-- The bytes in front of the type table. -/
def front (F : TableEncoding) (T : ExceptionTable) (bases : Bases) (gap : List UInt8) :
    List UInt8 :=
  F.landingField bases ++ (F.typesField T gap.length ++ UInt8.ofNat F.calls.raw ::
    (Leb128.encode (F.callTable T).length ++ (F.callTable T ++ (T.actions ++ gap))))

theorem write_eq : F.write T bases gap tail = F.front T bases gap ++
    (F.writeTypes bases (F.typesEnd T bases gap.length) T.types ++ (T.lists ++ tail)) := by
  simp only [write, front, behind, List.append_assoc, List.cons_append]

theorem typesEnd_eq (F : TableEncoding) (T : ExceptionTable) (bases : Bases)
    (gap : List UInt8) : F.typesEnd T bases gap.length =
    (F.front T bases gap).length + T.types.length * F.types.width := by
  simp only [front, typesEnd, distance, List.length_append, List.length_cons]
  rw [Nat.mul_comm F.types.width]
  omega

/-- The specifications begin where the type table ends. -/
theorem drop_typesEnd : (F.write T bases gap tail).drop (F.typesEnd T bases gap.length) =
    T.lists ++ tail := by
  have hlength : F.typesEnd T bases gap.length = (F.front T bases gap ++
      F.writeTypes bases (F.typesEnd T bases gap.length) T.types).length := by
    rw [List.length_append, length_writeTypes, ← typesEnd_eq]
  rw [write_eq, ← List.append_assoc]
  exact List.drop_left' hlength.symm

/-- The actions begin where the call sites end. -/
theorem drop_actionOffset : (F.write T bases gap tail).drop
    (F.header T bases gap tail).actionOffset = F.behind T bases gap tail := by
  have hlength := (F.header T bases gap tail).length_bytes
  have hactions : (F.header T bases gap tail).actions = F.behind T bases gap tail := rfl
  have hsuffix : F.behind T bases gap tail <:+ F.write T bases gap tail := by
    refine ⟨F.landingField bases ++ (F.typesField T gap.length ++ UInt8.ofNat F.calls.raw ::
      (Leb128.encode (F.callTable T).length ++ F.callTable T)), ?_⟩
    simp only [write, List.append_assoc, List.cons_append]
  rw [hactions] at hlength
  rw [List.suffix_iff_eq_drop.1 hsuffix]
  congr 1
  exact Nat.eq_sub_of_add_eq hlength.symm

section

variable [PointerEncoding]

theorem absent_byte (hstandard : PointerEncoding.Standard) :
    (DwEhPe.mk (0xff : UInt8).toNat).isAbsent := by
  rw [hstandard.isAbsent _ (UInt8.toNat_lt _)]
  rfl

omit [PointerEncoding] in
theorem calls_byte (F : TableEncoding) : DwEhPe.mk (UInt8.ofNat F.calls.raw).toNat = F.calls := by
  have hbyte : ∀ e ∈ DwEhPe.formats, DwEhPe.mk (UInt8.ofNat e.raw).toNat = e := by decide
  exact hbyte F.calls F.plain

theorem landingField_stands (hstandard : PointerEncoding.Standard)
    (hfits : F.Fits T bases gap tail) :
    LandingField bases F.endian (F.landingField bases) (F.landingBase bases) := by
  have hspace := hfits.space
  have hlength := length_write F T bases gap tail
  rw [landingField, landingBase]
  split
  · exact .omitted (absent_byte hstandard)
  · rename_i P addr hlanding
    have hdirect := F.direct (P, addr) hlanding
    rw [← hstandard.isIndirect P.encoding P.byte] at hdirect
    have hpositive : 1 ≤ F.typesEnd T bases gap.length := by
      rw [typesEnd, distance]
      omega
    have htarget := PointerFormat.encodedTarget_write (P.readable hstandard) F.endian
      (show bases.origin + 1 < size by omega) (hfits.landing (P, addr) hlanding)
    rw [← P.byte_eq] at hdirect htarget
    exact .target (by rw [hdirect]; exact Bool.false_ne_true) htarget

theorem typesField_stands (hstandard : PointerEncoding.Standard)
    (hfits : F.Fits T bases gap tail) :
    TypesField (F.landingField bases).length (F.write T bases gap tail).length
      (F.typesField T gap.length) (F.parsed T bases gap tail).types := by
  have hlength := length_write F T bases gap tail
  have hslice := hfits.slice
  rw [typesEnd] at hlength
  rw [parsed, typesField] at *
  split
  · exact .omitted (absent_byte hstandard)
  · rename_i hsome
    rw [if_neg hsome, List.length_cons] at hlength
    have hread := F.types.readable hstandard
    have hdistance : StoresUleb (F.distance T gap.length)
        (Leb128.encode (F.distance T gap.length)) := by
      refine storesUleb_encode ?_
      rw [maxSlice] at hslice
      rw [size]
      omega
    have hpresent := hread.present
    have hvalid := hread.valid
    rw [← F.types.byte_eq] at hpresent hvalid
    have htable := TypesField.table hpresent hvalid hdistance
      (show (F.landingField bases).length + ((Leb128.encode (F.distance T gap.length)).length + 1) +
        F.distance T gap.length ≤ (F.write T bases gap tail).length by omega)
    rw [F.types.byte_eq] at htable
    rw [typesEnd, typesField, if_neg hsome, List.length_cons]
    exact htable

/-- The parser accepts a written table. -/
theorem new_write (hstandard : PointerEncoding.Standard) (hfits : F.Fits T bases gap tail) :
    Lsda.new (F.write T bases gap tail) bases F.endian = .ok (F.parsed T bases gap tail) := by
  have hplain := hstandard.plain F.plain
  have hslice := hfits.slice
  have hsize : (F.write T bases gap tail).length < size := by
    rw [maxSlice] at hslice
    rw [size]
    omega
  have hlength := (F.header T bases gap tail).length_bytes
  have hbytes : (F.header T bases gap tail).bytes = F.write T bases gap tail := rfl
  have hcalls : (F.callTable T).length < size := by
    rw [hbytes, Header.actionOffset, show (F.header T bases gap tail).callSites = F.callTable T
      from rfl] at hlength
    omega
  have hencoding : DwEhPe.mk (F.header T bases gap tail).callEncoding.toNat = F.calls :=
    F.calls_byte
  refine (Lsda.new_eq_ok_header hsize bases F.endian).2 ⟨F.header T bases gap tail, rfl, ?_⟩
  exact {
    landing := .inl (landingField_stands hstandard hfits)
    types := typesField_stands hstandard hfits
    callValid := by rw [hencoding]; exact hplain.isValidEncoding
    callPresent := by rw [hencoding]; exact hplain.isAbsent
    callLength := storesUleb_encode hcalls
    bytes := rfl
    bases := rfl
    endian := rfl
    callEncoding := hencoding.symm
    callSites := rfl
    actionOffset := rfl }

end

end TableEncoding

/-! ## What is read -/

section

variable [PointerEncoding]

/-- The iterators and lookups of a parsed table return what a table says. -/
structure Lsda.Says (lsda : Lsda) (T : ExceptionTable) (landingBase : ℕ) (indirect : Bool) :
    Prop where
  sites : Iter.Yields Sites.next lsda.sites
    (T.regions.map fun region => .ok (T.site landingBase region))
  chains : ∀ i < T.nodes.length, ∃ chain, lsda.chain (T.action i) = .ok chain ∧
    Iter.Yields Chain.next chain ((T.purposes i).map fun purpose => .ok (T.kind purpose))
  types : ∀ type < T.types.length, lsda.resolve (.ofPlace type) = .ok (T.target indirect type)
  specifications : ∀ i < T.specifications.length, ∃ list, lsda.filter (T.filter i) = .ok list ∧
    Iter.Yields FilterTypes.next list
      ((T.specifications.getD i []).map fun type => .ok (.ofPlace type))
  numbers : ∀ purpose : Purpose, purpose.Within T.types.length T.specifications.length →
    (T.discriminator purpose).natAbs ≤ maxSlice

namespace TableEncoding

variable {F : TableEncoding} {T : ExceptionTable} {bases : Bases} {gap tail : List UInt8}

omit [PointerEncoding] in
/-- A written table has room for what is in it. -/
theorem Fits.room (hfits : F.Fits T bases gap tail) :
    T.types.length ≤ maxSlice ∧ T.actions.length ≤ maxSlice ∧ T.lists.length ≤ maxSlice := by
  have hslice := hfits.slice
  have hlength := length_write F T bases gap tail
  have hwidth := Nat.le_mul_of_pos_left T.types.length F.types.width_pos
  rw [typesEnd, distance] at hlength
  refine ⟨?_, ?_, ?_⟩ <;> omega

omit [PointerEncoding] in
/-- The numbers that stand for purposes fit a word. -/
theorem Fits.discriminator (hfits : F.Fits T bases gap tail) {purpose : Purpose}
    (hwithin : purpose.Within T.types.length T.specifications.length) :
    (T.discriminator purpose).natAbs ≤ maxSlice := by
  obtain ⟨htypes, -, hlists⟩ := hfits.room
  cases purpose with
  | cleanup => exact Nat.zero_le _
  | «catch» type =>
    rw [Purpose.Within] at hwithin
    rw [ExceptionTable.discriminator]
    omega
  | filter specification =>
    have hget : T.specifications[specification]? = some T.specifications[specification] :=
      List.getElem?_eq_getElem hwithin
    have hend := Layout.start_le_length ExceptionTable.specificationArea hget
    have hzero := (Leb128.encoding_encode 0).length_pos
    have hlist : 0 <
        (ExceptionTable.writeSpecification T.specifications[specification]).length := by
      rw [ExceptionTable.writeSpecification, List.length_append]
      omega
    rw [Layout.octets, ExceptionTable.specificationArea, ← ExceptionTable.lists] at hend
    rw [ExceptionTable.discriminator, ExceptionTable.specificationIndex]
    omega

omit [PointerEncoding] in
/-- The record of a range stands for its site. -/
theorem site_record (T : ExceptionTable) (landingBase : ℕ) (region : Region) :
    (T.record region).site landingBase = T.site landingBase region := by
  rw [CallSite.site, ExceptionTable.record, ExceptionTable.site]
  cases region.action with
  | none => rfl
  | some i => rfl

omit [PointerEncoding] in
theorem Fits.record (hfits : F.Fits T bases gap tail) {region : Region} (h : region ∈ T.regions) :
    (T.record region).Fits F.calls := by
  obtain ⟨hstart, hsize, hlanding, -⟩ := hfits.regions region h
  refine ⟨hstart, hsize, hlanding, ?_⟩
  show region.action.elim 0 T.actionIndex < 2 ^ 64
  cases haction : region.action with
  | none => exact Nat.two_pow_pos 64
  | some i =>
    have hget : T.nodes[i]? = some (T.nodes.get ⟨i, T.acted region h i haction⟩) :=
      List.getElem?_eq_getElem _
    obtain ⟨-, hlt, -⟩ := ExceptionTable.start_bounds hget
    obtain ⟨-, hactions, -⟩ := hfits.room
    rw [ExceptionTable.start] at hlt
    rw [maxSlice] at hactions
    rw [Option.elim_some, ExceptionTable.actionIndex]
    omega

/-- A type that was written is looked up. -/
theorem resolve_type (hstandard : PointerEncoding.Standard) (hfits : F.Fits T bases gap tail)
    {type : ℕ} (h : type < T.types.length) :
    (F.parsed T bases gap tail).resolve (.ofPlace type) =
      .ok (T.target F.types.encoding.isIndirect type) := by
  have hread := F.types.readable hstandard
  have hget : T.types[type]? = some T.types[type] := List.getElem?_eq_getElem h
  have htypes : (F.parsed T bases gap tail).types =
      some ⟨F.typesEnd T bases gap.length, F.types.encoding⟩ :=
    if_neg fun hnone => by rw [hnone.1] at h; exact absurd h (Nat.not_lt_zero _)
  have hlength := length_write F T bases gap tail
  have hslice := hfits.slice
  have hspace := hfits.space
  have hfin := typesEnd_eq F T bases gap
  have hslot := writeTypes_slot F bases (T.lists ++ tail) hget hfin
  rw [← write_eq] at hslot
  have hindex : ((TypeIndex.ofPlace type).raw : ℕ) = type + 1 := rfl
  have hle : (TypeIndex.ofPlace type).raw * F.types.width ≤ F.typesEnd T bases gap.length := by
    have hmul := Nat.mul_le_mul_right F.types.width (show type + 1 ≤ T.types.length from h)
    rw [hindex, hfin]
    omega
  have hdecode := PointerFormat.decode_write hread F.endian (hfits.types type _ hget)
  rw [← hindex] at hslot hdecode
  rw [Lsda.resolve, htypes, Option.okOr_some, Except.bind_ok,
    Types.get_eq_slot hread.fixed hread.valid hread.present hread.placed
      (show F.typesEnd T bases gap.length < size by rw [maxSlice] at hslice; rw [size]; omega) hle
      (by rw [parsed, hslot, PointerFormat.length_write])
      (show bases.origin + F.typesEnd T bases gap.length < size by omega)]
  rw [parsed, hslot, hdecode, ExceptionTable.target, List.getD_eq_getElem?_getD, hget,
    Option.getD_some]

/-- A written table is read back. -/
theorem says_write (hstandard : PointerEncoding.Standard) (hfits : F.Fits T bases gap tail) :
    (F.parsed T bases gap tail).Says T (F.landingBase bases) F.types.encoding.isIndirect where
  sites := by
    have hrecords : ∀ r ∈ T.regions.map T.record, r.Fits F.calls := fun r hr => by
      obtain ⟨region, hregion, rfl⟩ := List.mem_map.1 hr
      exact hfits.record hregion
    have hsites : Iter.Yields Sites.next (F.parsed T bases gap tail).sites _ :=
      sites_of_stored (hstandard.plain F.plain) (fun r hr _ => by
        obtain ⟨region, hregion, rfl⟩ := List.mem_map.1 hr
        exact (hfits.regions region hregion).2.2.2)
        (storedTable_writeTable F.plain F.endian hrecords)
    rw [List.map_map] at hsites
    have hmap : T.regions.map ((fun r => Except.ok (r.site (F.landingBase bases))) ∘ T.record) =
        T.regions.map fun region => (.ok (T.site (F.landingBase bases) region) :
          Except LsdaError Site) :=
      List.map_congr_left fun region _ => congrArg _ (site_record T _ region)
    rw [← hmap]
    exact hsites
  chains i hi := by
    have hactions : (F.parsed T bases gap tail).bytes.drop
        (F.parsed T bases gap tail).actionOffset = F.behind T bases gap tail := drop_actionOffset
    refine ExceptionTable.chain_yields hactions hfits.slice (fun node hnode => ?_) hi
    have hnumber := hfits.discriminator (T.purposed node hnode)
    rw [maxSlice] at hnumber
    constructor <;> omega
  types type htype := resolve_type hstandard hfits htype
  specifications i hi := by
    obtain ⟨htypes, -, -⟩ := hfits.room
    have hget : T.specifications[i]? = some T.specifications[i] := List.getElem?_eq_getElem hi
    have hlength := length_write F T bases gap tail
    have hparsed : (F.parsed T bases gap tail).types =
        some ⟨F.typesEnd T bases gap.length, F.types.encoding⟩ :=
      if_neg fun hnone => by rw [hnone.2] at hi; exact absurd hi (Nat.not_lt_zero _)
    rw [List.getD_eq_getElem?_getD, hget, Option.getD_some]
    exact ExceptionTable.filter_yields hfits.slice hparsed drop_typesEnd
      (show F.typesEnd T bases gap.length ≤ (F.write T bases gap tail).length by omega) hget
      (by rw [size]; rw [maxSlice] at htypes; omega)
  numbers _ hwithin := hfits.discriminator hwithin

end TableEncoding

/-! ## Reading from end to end -/

omit [PointerEncoding] in
/-- The purposes of an action are all there. -/
theorem ExceptionTable.purposes_within {T : ExceptionTable} {i : ℕ} (hi : i < T.nodes.length) :
    ∀ purpose ∈ T.purposes i, purpose.Within T.types.length T.specifications.length := by
  induction i using Nat.strong_induction_on with
  | _ i ih =>
    have hget : T.nodes[i]? = some T.nodes[i] := List.getElem?_eq_getElem hi
    rw [ExceptionTable.purposes_eq hget, List.forall_mem_cons]
    refine ⟨T.purposed _ (List.getElem_mem hi), ?_⟩
    cases hnext : T.nodes[i].next with
    | none => exact List.forall_mem_nil _
    | some next =>
      have hlt := T.earlier i _ hget next hnext
      exact ih next hlt (hlt.trans hi)

namespace Lsda.Says

variable {lsda : Lsda} {T : ExceptionTable} {landingBase : ℕ} {indirect : Bool}

/-- A record is looked up as the purpose it stands for. -/
theorem provision (h : lsda.Says T landingBase indirect) {purpose : Purpose}
    (hwithin : purpose.Within T.types.length T.specifications.length) :
    lsda.provision (T.kind purpose) = .ok (T.provision indirect purpose) := by
  cases purpose with
  | cleanup => rfl
  | «catch» type =>
    rw [ExceptionTable.kind, Lsda.provision, h.types type hwithin]
    rfl
  | filter specification =>
    obtain ⟨list, hlist, hyields⟩ := h.specifications specification hwithin
    have hitems := (FilterTypes.yields_items list).unique hyields
    have hget : T.specifications[specification]? = some T.specifications[specification] :=
      List.getElem?_eq_getElem hwithin
    rw [ExceptionTable.kind, Lsda.provision, hlist, Except.bind_ok, hitems,
      Except.mapM_map_eq_ok (g := T.target indirect)]
    · rfl
    · intro type htype
      rw [List.getD_eq_getElem?_getD, hget, Option.getD_some] at htype
      exact h.types type (T.listed _ (List.mem_of_getElem? hget) type htype)

/-- A chain is read as the purposes of its action. -/
theorem provisions (h : lsda.Says T landingBase indirect) {i : ℕ} (hi : i < T.nodes.length) :
    lsda.provisions (T.action i) = .ok ((T.purposes i).map (T.provision indirect)) := by
  obtain ⟨chain, hchain, hyields⟩ := h.chains i hi
  have hitems := (Chain.yields_items chain).unique hyields
  rw [Lsda.provisions, hchain, Except.bind_ok, hitems]
  refine Except.mapM_map_eq_ok fun purpose hpurpose => ?_
  exact h.provision (ExceptionTable.purposes_within hi purpose hpurpose)

theorem meaning (h : lsda.Says T landingBase indirect) :
    lsda.meaning = .ok (T.meaning landingBase indirect) := by
  have hitems := (Sites.yields_items lsda.sites).unique h.sites
  rw [Lsda.meaning, hitems]
  refine Except.mapM_map_eq_ok fun region hregion => ?_
  rw [Except.bind_ok, ExceptionTable.site]
  cases haction : region.action with
  | none => rfl
  | some i =>
    simp only [Option.map_some, h.provisions (T.acted region hregion i haction)]
    rfl

/-- The call site of an offset is that of the first range that covers it. -/
theorem site (h : lsda.Says T landingBase indirect) (hordered : T.Ordered) {pc : ℕ}
    (hpc : lsda.bases.function ≤ pc) : lsda.site pc =
      .ok ((T.region (pc - lsda.bases.function)).map (T.site landingBase)) := by
  have hitems := (Sites.yields_items lsda.sites).unique h.sites
  have hmap : (T.regions.map fun region => .ok (T.site landingBase region)) =
      (T.regions.map (T.site landingBase)).map (.ok : Site → Except LsdaError Site) := by
    rw [List.map_map]
    rfl
  rw [Lsda.site_eq_ok, hitems, hmap, Lsda.siteLoop_sorted, List.find?_map]
  · exact ⟨hpc, rfl⟩
  · exact List.pairwise_map.2 hordered.sorted
  · intro site hsite
    obtain ⟨region, hregion, rfl⟩ := List.mem_map.1 hsite
    exact hordered.ends region hregion

end Lsda.Says

/-- **Round trip.** The parser accepts a written table, whatever stands in front of its type table
and behind its specifications, and reading it from end to end gives what the table says. Where the
ranges are in order, looking up a program counter gives the first range that covers it, and fails
below the function. Tables with the same bytes say the same. -/
theorem TableEncoding.tables_round_trip (hstandard : PointerEncoding.Standard) {F : TableEncoding}
    {T : ExceptionTable} {bases : Bases} {gap tail : List UInt8}
    (hfits : F.Fits T bases gap tail) :
    (∃ lsda, Lsda.new (F.write T bases gap tail) bases F.endian = .ok lsda ∧
      lsda.meaning = .ok (T.meaning (F.landingBase bases) F.types.encoding.isIndirect) ∧
      (T.Ordered → ∀ pc, lsda.site pc =
        if bases.function ≤ pc then
          .ok ((T.region (pc - bases.function)).map (T.site (F.landingBase bases)))
        else .error .table)) ∧
    ∀ (F' : TableEncoding) (T' : ExceptionTable) (gap' tail' : List UInt8),
      F'.Fits T' bases gap' tail' → F'.endian = F.endian →
      F'.write T' bases gap' tail' = F.write T bases gap tail →
      T'.meaning (F'.landingBase bases) F'.types.encoding.isIndirect =
        T.meaning (F.landingBase bases) F.types.encoding.isIndirect := by
  have hmeaning := (says_write hstandard hfits).meaning
  refine ⟨⟨_, new_write hstandard hfits, hmeaning, fun hordered pc => ?_⟩, ?_⟩
  · split_ifs with hpc
    · exact (says_write hstandard hfits).site hordered hpc
    · exact Lsda.site_eq_table.2 (not_le.1 hpc)
  intro F' T' gap' tail' hfits' hendian hbytes
  have hmeaning' := (says_write hstandard hfits').meaning
  have hnew := new_write hstandard hfits'
  -- the same bytes are parsed to the same table
  rw [hendian, hbytes, new_write hstandard hfits] at hnew
  rw [← Except.ok.inj hnew, hmeaning] at hmeaning'
  exact (Except.ok.inj hmeaning').symm

end

/-- A handler in a block with a cleanup, behind a specification. -/
def ExceptionTable.nested : ExceptionTable where
  types := [0x5000, 0x6000]
  specifications := [[1]]
  nodes := [⟨.cleanup, none⟩, ⟨.catch 1, some 0⟩, ⟨.filter 0, some 1⟩]
  regions := [⟨0, 5, 0x40, none⟩, ⟨5, 5, 0x48, some 2⟩, ⟨20, 5, 0, none⟩]
  listed := by decide
  purposed := by decide
  earlier := by
    rintro (_ | _ | _ | i) node hnode <;> cases hnode <;> decide
  acted := by decide

/-- Four byte pointers relative to their fields, and offsets of any length. -/
def TableEncoding.relative : TableEncoding where
  endian := .little
  landing := none
  types := ⟨⟨0x9b⟩, 4, by decide, by decide, by decide⟩
  calls := ULEB
  direct := nofun
  plain := by decide

theorem TableEncoding.relative_fits_nested :
    TableEncoding.relative.Fits .nested (.new 0x1000 0x2000) [0x00] [0x07] where
  slice := by decide
  space := by decide
  landing := nofun
  regions := by
    unfold TableEncoding.Holds
    decide
  types := by
    rintro (_ | _ | i) addr haddr <;> cases haddr <;> decide

/-- Types and a specification behind a chain of three. -/
theorem TableEncoding.tables_round_trip_nested : ∃ lsda : Lsda,
    @Lsda.new .bits (TableEncoding.relative.write .nested (.new 0x1000 0x2000) [0x00] [0x07])
      (.new 0x1000 0x2000) .little = .ok lsda ∧
    @Lsda.meaning .bits lsda = .ok [⟨0, 5, some 0x2040, none⟩,
      ⟨5, 5, some 0x2048, some [.filter [⟨0x6000, true⟩], .catch ⟨0x6000, true⟩, .cleanup]⟩,
      ⟨20, 5, none, none⟩] ∧
    @Lsda.site .bits lsda 0x2007 =
      .ok (some ⟨5, 5, some 0x2048, some (ExceptionTable.nested.action 2)⟩) := by
  let _ := PointerEncoding.bits
  obtain ⟨⟨lsda, hnew, hmeaning, hsite⟩, -⟩ := TableEncoding.tables_round_trip
    PointerEncoding.standard_bits TableEncoding.relative_fits_nested
  exact ⟨lsda, hnew, hmeaning, hsite ⟨by decide, by decide⟩ 0x2007⟩

end Desenredo
