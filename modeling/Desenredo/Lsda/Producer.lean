import Desenredo.Library.Layout
import Desenredo.Lsda.Format
import Desenredo.Lsda.TypeTheorems

/-!
# The tables a compiler emits

What the exception table of a function says, and the bytes a compiler says it with. A table is a
list of protected ranges over a list of actions; an action may lead on to one before it, so that
handlers in nested blocks share the end of their chains. The writer refers to an action by its
offset, and to a specification by the offset of its list behind the type table.
-/

namespace Desenredo

/-! ## What a table says -/

/-- What an action does about an exception. -/
inductive Purpose where
  /-- Runs whatever the exception is. -/
  | cleanup
  /-- Takes the exceptions of one type. -/
  | catch (type : ℕ)
  /-- Takes the exceptions of every type that is not on one specification. -/
  | filter (specification : ℕ)
deriving DecidableEq, Repr

/-- An action and the one to try after it. -/
structure Node where
  purpose : Purpose
  next : Option ℕ
deriving DecidableEq, Repr

/-- A protected range of a function. -/
structure Region where
  /-- Where the range begins in the function. -/
  start : ℕ
  size : ℕ
  /-- Distance from the landing base to the landing pad, zero for none. -/
  landing : ℕ
  action : Option ℕ
deriving DecidableEq, Repr

/-- The landing pad of a range that has one. -/
def Region.pad {region : Region} (landingBase : ℕ) (h : region.landing ≠ 0) : NonZeroUsize :=
  ⟨landingBase + region.landing, fun hzero => h (Nat.eq_zero_of_add_eq_zero_left hzero)⟩

/-- The parts of a purpose are there. -/
def Purpose.Within (types specifications : ℕ) : Purpose → Prop
  | .cleanup => True
  | .catch type => type < types
  | .filter specification => specification < specifications

instance (types specifications : ℕ) (purpose : Purpose) :
    Decidable (purpose.Within types specifications) := by
  cases purpose <;> unfold Purpose.Within <;> infer_instance

/-- The exception table of a function. -/
structure ExceptionTable where
  /-- The addresses of the type descriptions. -/
  types : List ℕ
  /-- The types each specification allows, by their places in `types`. -/
  specifications : List (List ℕ)
  nodes : List Node
  regions : List Region
  listed : ∀ list ∈ specifications, ∀ type ∈ list, type < types.length
  purposed : ∀ node ∈ nodes, node.purpose.Within types.length specifications.length
  earlier : ∀ (i : ℕ) node, nodes[i]? = some node → ∀ next ∈ node.next, next < i
  acted : ∀ region ∈ regions, ∀ i ∈ region.action, i < nodes.length

namespace ExceptionTable

variable (T : ExceptionTable)

/-- The purposes of the first `n` actions from one on. -/
def chain (nodes : List Node) : ℕ → ℕ → List Purpose
  | 0, _ => []
  | n + 1, i =>
    match nodes[i]? with
    | none => []
    | some node => node.purpose :: node.next.elim [] (chain nodes n)

/-- The purposes of an action and those it leads on to, in the order they are tried. -/
def purposes (i : ℕ) : List Purpose := chain T.nodes (i + 1) i

/-- The first range that covers an offset of the function. -/
def region (offset : ℕ) : Option Region :=
  T.regions.find? fun region => region.start ≤ offset ∧ offset < region.start + region.size

/-- The ranges are in the order compilers emit, and end inside the address space. -/
structure Ordered : Prop where
  sorted : T.regions.Pairwise fun r s => r.start ≤ s.start
  ends : ∀ region ∈ T.regions, region.start + region.size < Usize.size

end ExceptionTable

/-- The index of a type in the reverse table. -/
def TypeIndex.ofPlace (place : ℕ) : TypeIndex := ⟨place + 1, Nat.succ_ne_zero place⟩

/-! ## Pointers -/

/-- An encoding of pointers in a fixed width and in place. -/
structure PointerFormat where
  encoding : DwEhPe
  width : ℕ
  byte : encoding.raw < 256
  fixed : (PointerEncoding.bits.format encoding).fixed = some width
  placed : PointerEncoding.bits.application encoding ∈ [ABS, PC, TEXT, DATA, FUNC]

/-- A format is sign-extended. -/
def DwEhPe.isSigned : DwEhPe → Bool
  | S2 | S4 | S8 => true
  | _ => false

namespace PointerFormat

variable (P : PointerFormat) (bases : Bases)

/-- The base of a field at an address. -/
def base (field : ℕ) : Option ℕ := (PointerEncoding.bits.application P.encoding).base bases field

/-- What a field at one address stores to point to another one. -/
def displacement (field addr : ℕ) : ℤ := addr - ((P.base bases field).getD 0 : ℕ)

/-- A field at one address can point to another one. -/
def Reaches (field addr : ℕ) : Prop :=
  (P.base bases field).isSome ∧ addr < Usize.size ∧
    if (PointerEncoding.bits.format P.encoding).isSigned then
      -2 ^ (8 * P.width - 1) ≤ P.displacement bases field addr ∧
        P.displacement bases field addr < 2 ^ (8 * P.width - 1)
    else 0 ≤ P.displacement bases field addr ∧ P.displacement bases field addr < 2 ^ (8 * P.width)

instance (field addr : ℕ) : Decidable (P.Reaches bases field addr) := by
  unfold Reaches
  infer_instance

/-- Writes a pointer into a field. -/
def write (endian : Endian) (field addr : ℕ) : List UInt8 :=
  endian.bytes P.width (P.displacement bases field addr % 2 ^ (8 * P.width)).toNat

end PointerFormat

/-- The encodings a table is written in. -/
structure TableEncoding where
  endian : Endian
  /-- The landing base, omitted when it is the function. -/
  landing : Option (PointerFormat × ℕ)
  types : PointerFormat
  calls : DwEhPe
  direct : ∀ base ∈ landing, PointerEncoding.bits.isIndirect base.1.encoding = false
  plain : calls ∈ DwEhPe.formats

/-! ## Indices and offsets -/

namespace ExceptionTable

variable (T : ExceptionTable)

/-- Writes the list of a specification: one-based places of types, closed by a zero. -/
def writeSpecification (list : List ℕ) : List UInt8 :=
  list.flatMap (fun type => Leb128.encode (type + 1)) ++ Leb128.encode 0

def specificationArea : Layout.Writer (List ℕ) UInt8 := fun _ _ => writeSpecification

/-- The one-based offset of a specification. -/
def specificationIndex (i : ℕ) : ℕ := Layout.start specificationArea T.specifications i + 1

/-- The number that stands for a purpose. -/
def discriminator : Purpose → ℤ
  | .cleanup => 0
  | .catch type => type + 1
  | .filter specification => -T.specificationIndex specification

/-- Writes an action: the number of its purpose and the distance from the field behind it to the
next action. -/
def writeNode : Layout.Writer Node UInt8 := fun starts here node =>
  let index := Leb128.encodeSigned (T.discriminator node.purpose)
  index ++ Leb128.encodeSigned (node.next.elim 0 fun next =>
    (starts.getD next 0 : ℤ) - (here + index.length : ℕ))

def actions : List UInt8 := (Layout.emit T.writeNode T.nodes).2

def lists : List UInt8 := (Layout.emit specificationArea T.specifications).2

/-- The one-based offset of an action. -/
def actionIndex (i : ℕ) : ℕ := Layout.start T.writeNode T.nodes i + 1

/-- The call-site record of a range. -/
def record (region : Region) : CallSite :=
  ⟨region.start, region.size, region.landing, region.action.elim 0 T.actionIndex⟩

/-! What the parser is to make of them. -/

def action (i : ℕ) : Action := ⟨T.actionIndex i, Nat.succ_ne_zero _⟩

def filter (i : ℕ) : FilterIndex := ⟨T.specificationIndex i, Nat.succ_ne_zero _⟩

def kind : Purpose → Kind
  | .cleanup => .cleanup
  | .catch type => .catch (.ofPlace type)
  | .filter specification => .filter (T.filter specification)

def site (landingBase : ℕ) (region : Region) : Site where
  start := region.start
  size := region.size
  land := if region.landing = 0 then none else some (landingBase + region.landing)
  action := region.action.map T.action

end ExceptionTable

/-! ## What the bytes say -/

/-- A purpose with its types. -/
inductive Provision where
  | cleanup
  | catch (type : Target)
  | filter (allowed : List Target)
deriving DecidableEq, Repr

/-- A protected range with its landing pad and what that is for. -/
structure Protected where
  start : ℕ
  size : ℕ
  land : Option ℕ
  /-- Absent when the landing pad is for cleanup only. -/
  provisions : Option (List Provision)
deriving DecidableEq, Repr

namespace ExceptionTable

variable (T : ExceptionTable)

/-- The entry of a type. -/
def target (indirect : Bool) (type : ℕ) : Target := ⟨T.types.getD type 0, indirect⟩

def provision (indirect : Bool) : Purpose → Provision
  | .cleanup => .cleanup
  | .catch type => .catch (T.target indirect type)
  | .filter specification =>
    .filter ((T.specifications.getD specification []).map (T.target indirect))

/-- What a table says. -/
def meaning (landingBase : ℕ) (indirect : Bool) : List Protected := T.regions.map fun region =>
  let site := T.site landingBase region
  ⟨site.start, site.size, site.land,
    region.action.map fun i => (T.purposes i).map (T.provision indirect)⟩

end ExceptionTable

namespace Lsda

variable [PointerEncoding] (lsda : Lsda)

/-- Looks up a type. -/
def resolve (index : TypeIndex) : Except LsdaError Target := do
  let types ← lsda.types.okOr .table
  types.get lsda index

/-- Looks up the types of a record. -/
def provision : Kind → Except LsdaError Provision
  | .cleanup => .ok .cleanup
  | .catch index => do
    let target ← lsda.resolve index
    .ok (.catch target)
  | .filter index => do
    let list ← lsda.filter index
    let allowed ← list.items.mapM fun index => do
      let index ← index
      lsda.resolve index
    .ok (.filter allowed)

/-- Reads the chain of a call site. -/
def provisions (action : Action) : Except LsdaError (List Provision) := do
  let chain ← lsda.chain action
  chain.items.mapM fun kind => do
    let kind ← kind
    lsda.provision kind

/-- Reads a table from end to end. -/
def meaning : Except LsdaError (List Protected) :=
  lsda.sites.items.mapM fun site => do
    let site ← site
    let provisions ← match site.action with
      | none => .ok none
      | some action => (lsda.provisions action).map some
    .ok ⟨site.start, site.size, site.land, provisions⟩

end Lsda

/-! ## The bytes -/

namespace TableEncoding

variable (F : TableEncoding) (T : ExceptionTable) (bases : Bases)

def landingField : List UInt8 :=
  match F.landing with
  | none => [0xff]
  | some (P, addr) => UInt8.ofNat P.encoding.raw :: P.write bases F.endian (bases.origin + 1) addr

/-- The address landing pads are relative to. -/
def landingBase : ℕ :=
  match F.landing with
  | none => bases.function
  | some (_, addr) => addr

def callTable : List UInt8 := writeTable F.calls F.endian (T.regions.map T.record)

/-- The distance from the field that stores it to the end of the type table, with `gap` bytes in
front of the type table. -/
def distance (gap : ℕ) : ℕ :=
  1 + (Leb128.encode (F.callTable T).length).length + (F.callTable T).length + T.actions.length +
    gap + F.types.width * T.types.length

/-- The type table is omitted when nothing refers to it. -/
def typesField (gap : ℕ) : List UInt8 :=
  if T.types = [] ∧ T.specifications = [] then [0xff]
  else UInt8.ofNat F.types.encoding.raw :: Leb128.encode (F.distance T gap)

/-- Where the type table ends. -/
def typesEnd (gap : ℕ) : ℕ :=
  (F.landingField bases).length + (F.typesField T gap).length + F.distance T gap

/-- Writes the types in reverse, the first right in front of `fin`. -/
def writeTypes (fin : ℕ) : List ℕ → List UInt8
  | [] => []
  | addr :: types =>
    writeTypes (fin - F.types.width) types ++
      F.types.write bases F.endian (bases.origin + (fin - F.types.width)) addr

/-- The bytes behind the call-site table. -/
def behind (gap tail : List UInt8) : List UInt8 :=
  T.actions ++ (gap ++ (F.writeTypes bases (F.typesEnd T bases gap.length) T.types ++
    (T.lists ++ tail)))

/-- Writes a table, with `gap` bytes in front of its type table and `tail` behind it. -/
def write (gap tail : List UInt8) : List UInt8 :=
  F.landingField bases ++ (F.typesField T gap.length ++ UInt8.ofNat F.calls.raw ::
    (Leb128.encode (F.callTable T).length ++ (F.callTable T ++ F.behind T bases gap tail)))

/-- The fields of a range fit the encoding of the call sites and the address space. -/
def Holds (landingBase : ℕ) (region : Region) : Prop :=
  region.start < 2 ^ F.calls.capacity ∧ region.size < 2 ^ F.calls.capacity ∧
    region.landing < 2 ^ F.calls.capacity ∧ landingBase + region.landing < Usize.size

/-- The bytes of a table can say what the table does: they fit the address space, their fields
have room for the ranges, and their pointers reach the landing base and the types. -/
structure Fits (gap tail : List UInt8) : Prop where
  slice : (F.write T bases gap tail).length ≤ Usize.maxSlice
  space : bases.origin + (F.write T bases gap tail).length < Usize.size
  landing : ∀ base ∈ F.landing, base.1.Reaches bases (bases.origin + 1) base.2
  regions : ∀ region ∈ T.regions, F.Holds (F.landingBase bases) region
  types : ∀ (i : ℕ) addr, T.types[i]? = some addr → F.types.Reaches bases
    (bases.origin + (F.typesEnd T bases gap.length - (i + 1) * F.types.width)) addr

end TableEncoding

end Desenredo
