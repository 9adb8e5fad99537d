import Desenredo.Library.Iter
import Desenredo.Lsda.Scalar

/-!
# Language specific data tables

The bounded table a personality interprets: its header, the call-site table, the action
chains behind a call site, the reverse RTTI table and the exception specification lists. The
iterators are pull iterators over suffixes of the table. A `for` loop of the source over an
iterator is a recursion over the items it yields.
-/

namespace Desenredo

open Usize

variable [PointerEncoding]

/-- A nonzero native word. -/
abbrev NonZeroUsize := { n : ℕ // n ≠ 0 }

/-- `NonZeroUsize::new`. -/
def NonZeroUsize.new (n : ℕ) : Option NonZeroUsize := if h : n ≠ 0 then some ⟨n, h⟩ else none

omit [PointerEncoding] in
theorem NonZeroUsize.new_eq_some {n : ℕ} {value : NonZeroUsize} :
    NonZeroUsize.new n = some value ↔ n = value.val := by
  rw [NonZeroUsize.new]
  split
  · rw [Option.some.injEq, Subtype.ext_iff]
  · rename_i h
    refine iff_of_false nofun ?_
    rintro rfl
    exact h value.property

/-- Positive one-based byte offset into the action table. -/
structure Action where
  raw : NonZeroUsize
deriving DecidableEq

/-- One decoded call-site entry. -/
structure Site where
  /-- Function-relative beginning of the protected instruction range. -/
  start : ℕ
  /-- Length in bytes of the protected instruction range. -/
  size : ℕ
  /-- Absolute landing-pad address when one exists. -/
  land : Option ℕ
  /-- Action-table chain when the site has typed actions. -/
  action : Option Action
deriving DecidableEq

/-- Positive one-based index into the reverse RTTI table. -/
structure TypeIndex where
  raw : NonZeroUsize
deriving DecidableEq

/-- Positive index naming an exception specification list. -/
structure FilterIndex where
  raw : NonZeroUsize
deriving DecidableEq

/-- Semantic action represented by one action-table record. -/
inductive Kind where
  /-- Runs a cleanup without selecting a catch type. -/
  | cleanup
  /-- Tests one entry in the RTTI table. -/
  | catch (index : TypeIndex)
  /-- Tests one exception specification list. -/
  | filter (index : FilterIndex)
deriving DecidableEq

/-- Converts the signed action discriminator into its semantic class. -/
def Kind.new (index : ℤ) : Except LsdaError Kind :=
  if index = 0 then .ok .cleanup
  else if 0 < index then do
    let index ← (tryFromInt index).okOr .overflow
    let index ← (NonZeroUsize.new index).okOr .table
    .ok (.catch ⟨index⟩)
  else do
    let index ← (tryFromInt index.natAbs).okOr .overflow
    let index ← (NonZeroUsize.new index).okOr .table
    .ok (.filter ⟨index⟩)

/-- Reverse RTTI table metadata. -/
structure Types where
  /-- Byte position immediately after the reverse RTTI entries. -/
  fin : ℕ
  /-- Encoding used by each RTTI entry. -/
  encoding : DwEhPe
deriving DecidableEq

/-- Parsed bounded table metadata. -/
structure Lsda where
  /-- Complete readable byte range supplied by the caller. -/
  bytes : List UInt8
  /-- Logical bases used by encoded pointer evaluation. -/
  bases : Bases
  /-- Endianness used by fixed-width encoded values. -/
  endian : Endian
  /-- Absolute base used for landing-pad offsets. -/
  landingBase : ℕ
  /-- Optional reverse RTTI table metadata. -/
  types : Option Types
  /-- Encoding used by call-site range fields. -/
  callEncoding : DwEhPe
  /-- Exact bounded call-site table bytes. -/
  callSites : List UInt8
  /-- Beginning of the action table within `bytes`. -/
  actionOffset : ℕ
deriving DecidableEq

namespace Lsda

/-! ## The header -/

/-- The landing base field: omitted, or an encoded direct target. -/
def landing (bytes : List UInt8) (bases : Bases) (endian : Endian) :
    Parser LsdaError UInt8 ℕ := fun input => do
  let (input, landingEncoding) ← byte input
  let landingEncoding : DwEhPe := ⟨landingEncoding.toNat⟩
  if landingEncoding.isAbsent then .ok (input, bases.function)
  else
    let (input, target) ← target bytes landingEncoding bases endian input
    if target.indirect then .error .encoding else .ok (input, target.addr)

/-- The type table field: omitted, or an encoding and the offset of the table's end. -/
def typeTable (bytes : List UInt8) : Parser LsdaError UInt8 (Option Types) := fun input => do
  let (input, typeEncoding) ← byte input
  let typeEncoding : DwEhPe := ⟨typeEncoding.toNat⟩
  if typeEncoding.isAbsent then .ok (input, none)
  else
    let valid := typeEncoding.isValidEncoding
    let (input, typeOffset) ← uleb input
    let position ← position bytes input
    let fin ← (checkedAdd position typeOffset).okOr .overflow
    match valid, decide (fin ≤ bytes.length) with
    | true, true => .ok (input, some ⟨fin, typeEncoding⟩)
    | false, _ => .error .encoding
    | _, false => .error .table

/-- Parses one complete bounded table. -/
def new (bytes : List UInt8) (bases : Bases) (endian : Endian) : Except LsdaError Lsda := do
  let (input, landingBase) ← landing bytes bases endian bytes
  let (input, types) ← typeTable bytes input
  let (input, callEncoding) ← byte input
  let callEncoding : DwEhPe := ⟨callEncoding.toNat⟩
  let callValid := callEncoding.isValidEncoding ∧ ¬callEncoding.isAbsent
  let (input, callLength) ← uleb input
  let (actions, callSites) ← takeBytes callLength input
  let actionOffset ← position bytes actions
  if callValid then
    .ok { bytes, bases, endian, landingBase, types, callEncoding, callSites, actionOffset }
  else .error .encoding

end Lsda

/-! ## Call sites -/

/-- Iterator over bounded call-site entries. -/
structure Sites where
  lsda : Lsda
  /-- Remaining call-site table bytes. -/
  input : List UInt8
  /-- Whether a parse error terminated iteration. -/
  done : Bool

/-- The absolute landing pad one offset stands for, zero being no landing pad. -/
def Lsda.landingPad (lsda : Lsda) : ℕ → Except LsdaError (Option ℕ)
  | 0 => .ok none
  | landing => ((checkedAdd lsda.landingBase landing).okOr .overflow).map some

/-- Parses one call-site record from the remaining exact table slice. -/
def callSite (lsda : Lsda) : Parser LsdaError UInt8 Site := fun input => do
  let (input, start) ← offset lsda.callEncoding lsda.endian input
  let (input, length) ← offset lsda.callEncoding lsda.endian input
  let (input, landing) ← offset lsda.callEncoding lsda.endian input
  let (input, action) ← uleb input
  let landing ← lsda.landingPad landing
  let action := (NonZeroUsize.new action).map Action.mk
  .ok (input, ⟨start, length, landing, action⟩)

/-- `Iterator::next` of the call-site iterator. -/
def Sites.next (s : Sites) : Option (Except LsdaError Site) × Sites :=
  if s.done ∨ s.input.isEmpty then (none, s)
  else
    match callSite s.lsda s.input with
    | .ok (rest, site) => (some (.ok site), { s with input := rest })
    | .error error => (some (.error error), { s with done := true })

/-- The items a call-site iterator yields before it ends. -/
def Sites.items (s : Sites) : List (Except LsdaError Site) :=
  Iter.items Sites.next (s.input.length + 1) s

namespace Lsda

/-- Iterates over call-site entries. -/
def sites (lsda : Lsda) : Sites := ⟨lsda, lsda.callSites, false⟩

/-- The loop of `site` over the entries left, for a function-relative program counter. -/
def siteLoop (pc : ℕ) : List (Except LsdaError Site) → Except LsdaError (Option Site)
  | [] => .ok none
  | site :: rest => do
    let site ← site
    let fin ← (checkedAdd site.start site.size).okOr .overflow
    if site.start ≤ pc ∧ pc < fin then .ok (some site)
    else if pc < site.start then .ok none
    else siteLoop pc rest

/-- Finds the call-site entry covering one absolute program counter. -/
def site (lsda : Lsda) (pc : ℕ) : Except LsdaError (Option Site) := do
  let pc ← (checkedSub pc lsda.bases.function).okOr .table
  siteLoop pc lsda.sites.items

end Lsda

/-! ## The reverse RTTI table -/

namespace Types

/-- The fixed byte width of one RTTI encoding. -/
def width (encoding : DwEhPe) : Except LsdaError ℕ :=
  match encoding.format with
  | ABS => .ok 8
  | U2 | S2 => .ok 2
  | U4 | S4 => .ok 4
  | U8 | S8 => .ok 8
  | _ => .error .encoding

/-- Decodes one reverse RTTI table entry without following indirection. -/
def get (types : Types) (lsda : Lsda) (index : TypeIndex) : Except LsdaError Target := do
  let width ← width types.encoding
  let offset ← (checkedMul index.raw width).okOr .overflow
  let start ← (checkedSub types.fin offset).okOr .table
  let (input, _) ← takeBytes start lsda.bytes
  let (rest, target) ← target lsda.bytes types.encoding lsda.bases lsda.endian input
  let consumed ← position lsda.bytes rest
  if consumed ≤ types.fin then .ok target else .error .table

end Types

/-! ## Action chains -/

/-- Iterator over one bounded action chain. -/
structure Chain where
  /-- Complete bounded table bytes. -/
  bytes : List UInt8
  /-- Remaining slice beginning at the next action record. -/
  rest : Option (List UInt8)
  /-- Remaining progress budget used to reject cycles. -/
  fuel : ℕ
  /-- Byte position where the action table begins. -/
  floor : ℕ

/-- The next record of a chain, from the slice at a link field and the delta it stores. -/
def Chain.follow (bytes : List UInt8) (floor : ℕ) (link : List UInt8) (delta : ℤ) :
    Except LsdaError (Option (List UInt8)) :=
  if delta = 0 then .ok none
  else do
    let link ← position bytes link
    let target ← (tryFromInt (link + delta)).okOr .table
    if floor ≤ target ∧ target < bytes.length then do
      let (next, _) ← takeBytes target bytes
      .ok (some next)
    else .error .table

/-- One action record: its kind and the slice at the next record. -/
def Chain.record (bytes : List UInt8) (floor : ℕ) (input : List UInt8) :
    Except LsdaError (Kind × Option (List UInt8)) := do
  let (link, index) ← sleb input
  let (_, delta) ← sleb link
  let kind ← Kind.new index
  let next ← Chain.follow bytes floor link delta
  .ok (kind, next)

/-- `Iterator::next` of the action-chain iterator. -/
def Chain.next (c : Chain) : Option (Except LsdaError Kind) × Chain :=
  match c.rest with
  | none => (none, c)
  | some input =>
    if c.fuel = 0 then (some (.error .loop), { c with rest := none })
    else
      let c := { c with fuel := c.fuel - 1 }
      match Chain.record c.bytes c.floor input with
      | .ok (kind, next) => (some (.ok kind), { c with rest := next })
      | .error error => (some (.error error), { c with rest := none })

/-- The items an action-chain iterator yields before it ends. -/
def Chain.items (c : Chain) : List (Except LsdaError Kind) :=
  Iter.items Chain.next (c.fuel + 2) c

/-- Iterates one action chain. -/
def Lsda.chain (lsda : Lsda) (action : Action) : Except LsdaError Chain := do
  let relative ← (checkedSub action.raw 1).okOr .table
  let nextOffset ← (checkedAdd lsda.actionOffset relative).okOr .overflow
  if nextOffset < lsda.bytes.length then do
    let (next, _) ← takeBytes nextOffset lsda.bytes
    .ok ⟨lsda.bytes, some next, saturatingAdd lsda.bytes.length 1, lsda.actionOffset⟩
  else .error .table

/-! ## Exception specification lists -/

/-- Iterator over one dynamic exception specification type list. -/
structure FilterTypes where
  /-- Remaining filter-list bytes. -/
  input : List UInt8
  /-- Whether the zero terminator or an error ended iteration. -/
  done : Bool

/-- `Iterator::next` of the filter-list iterator. -/
def FilterTypes.next (f : FilterTypes) : Option (Except LsdaError TypeIndex) × FilterTypes :=
  if f.done then (none, f)
  else
    match uleb f.input with
    | .ok (rest, index) =>
      if index = 0 then (none, ⟨rest, true⟩)
      else (some (((NonZeroUsize.new index).okOr .table).map TypeIndex.mk), ⟨rest, f.done⟩)
    | .error error => (some (.error error), ⟨f.input, true⟩)

/-- The items a filter-list iterator yields before it ends. -/
def FilterTypes.items (f : FilterTypes) : List (Except LsdaError TypeIndex) :=
  Iter.items FilterTypes.next (f.input.length + 2) f

/-- Iterates the type indices in one dynamic exception specification. -/
def Lsda.filter (lsda : Lsda) (index : FilterIndex) : Except LsdaError FilterTypes := do
  let types ← lsda.types.okOr .table
  let relative ← (checkedSub index.raw 1).okOr .table
  let start ← (checkedAdd types.fin relative).okOr .overflow
  if start ≤ lsda.bytes.length then do
    let (input, _) ← takeBytes start lsda.bytes
    .ok ⟨input, false⟩
  else .error .table

end Desenredo
