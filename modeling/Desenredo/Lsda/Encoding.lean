import Desenredo.Machine

/-!
# Address bases and encoded pointers

The pointer encodings of GNU exception tables, the bases a relative encoding is added to and
the target one encoded pointer decodes to. The numbering of the encodings is the `DW_EH_PE`
one. The predicates on encodings belong to the DWARF reader the parser is built on, so they
are a parameter of the development (`PointerEncoding`); `PointerEncoding.Standard` says that
they read the bits of an encoding as `DW_EH_PE` defines them.
-/

namespace Desenredo

/-- A `DW_EH_PE` pointer encoding. -/
structure DwEhPe where
  raw : ℕ
deriving DecidableEq, Repr

/-- Absolute pointer encoding. -/
@[match_pattern] abbrev ABS : DwEhPe := ⟨0x00⟩
/-- Unsigned LEB128 scalar encoding. -/
@[match_pattern] abbrev ULEB : DwEhPe := ⟨0x01⟩
/-- Unsigned two byte scalar encoding. -/
@[match_pattern] abbrev U2 : DwEhPe := ⟨0x02⟩
/-- Unsigned four byte scalar encoding. -/
@[match_pattern] abbrev U4 : DwEhPe := ⟨0x03⟩
/-- Unsigned eight byte scalar encoding. -/
@[match_pattern] abbrev U8 : DwEhPe := ⟨0x04⟩
/-- Signed LEB128 scalar encoding. -/
@[match_pattern] abbrev SLEB : DwEhPe := ⟨0x09⟩
/-- Signed two byte scalar encoding. -/
@[match_pattern] abbrev S2 : DwEhPe := ⟨0x0a⟩
/-- Signed four byte scalar encoding. -/
@[match_pattern] abbrev S4 : DwEhPe := ⟨0x0b⟩
/-- Signed eight byte scalar encoding. -/
@[match_pattern] abbrev S8 : DwEhPe := ⟨0x0c⟩
/-- Program counter relative pointer encoding. -/
@[match_pattern] abbrev PC : DwEhPe := ⟨0x10⟩
/-- Text relative pointer encoding. -/
@[match_pattern] abbrev TEXT : DwEhPe := ⟨0x20⟩
/-- Data relative pointer encoding. -/
@[match_pattern] abbrev DATA : DwEhPe := ⟨0x30⟩
/-- Function relative pointer encoding. -/
@[match_pattern] abbrev FUNC : DwEhPe := ⟨0x40⟩
/-- ABI aligned pointer encoding. -/
@[match_pattern] abbrev ALIGN : DwEhPe := ⟨0x50⟩

/-- The predicates of the DWARF reader on pointer encodings. -/
class PointerEncoding where
  /-- The scalar format of the encoded field. -/
  format : DwEhPe → DwEhPe
  /-- The base the decoded field is relative to. -/
  application : DwEhPe → DwEhPe
  isValidEncoding : DwEhPe → Bool
  isAbsent : DwEhPe → Bool
  isIndirect : DwEhPe → Bool

namespace DwEhPe

variable [PointerEncoding]

abbrev format (e : DwEhPe) : DwEhPe := PointerEncoding.format e
abbrev application (e : DwEhPe) : DwEhPe := PointerEncoding.application e
abbrev isValidEncoding (e : DwEhPe) : Bool := PointerEncoding.isValidEncoding e
abbrev isAbsent (e : DwEhPe) : Bool := PointerEncoding.isAbsent e
abbrev isIndirect (e : DwEhPe) : Bool := PointerEncoding.isIndirect e

/-- The scalar formats. -/
def formats : List DwEhPe := [ABS, ULEB, U2, U4, U8, SLEB, S2, S4, S8]

/-- The pointer applications. -/
def applications : List DwEhPe := [ABS, PC, TEXT, DATA, FUNC, ALIGN]

end DwEhPe

/-- The predicates read from the bits of an encoding: the low four are the format, the next
three the application, the top one asks for an indirection, and `0xff` stands for an omitted
field. -/
@[reducible] def PointerEncoding.bits : PointerEncoding where
  format e := ⟨e.raw &&& 0x0f⟩
  application e := ⟨e.raw &&& 0x70⟩
  isValidEncoding e := e.raw = 0xff ∨
    ⟨e.raw &&& 0x0f⟩ ∈ DwEhPe.formats ∧ ⟨e.raw &&& 0x70⟩ ∈ DwEhPe.applications
  isAbsent e := e.raw = 0xff
  isIndirect e := e.raw &&& 0x80 ≠ 0

/-- The reader's predicates on an encoding byte are those of the `DW_EH_PE` definition. -/
structure PointerEncoding.Standard [PointerEncoding] : Prop where
  format : ∀ e : DwEhPe, e.raw < 256 → e.format = bits.format e
  application : ∀ e : DwEhPe, e.raw < 256 → e.application = bits.application e
  isValidEncoding : ∀ e : DwEhPe, e.raw < 256 → e.isValidEncoding = bits.isValidEncoding e
  isAbsent : ∀ e : DwEhPe, e.raw < 256 → e.isAbsent = bits.isAbsent e
  isIndirect : ∀ e : DwEhPe, e.raw < 256 → e.isIndirect = bits.isIndirect e

theorem PointerEncoding.standard_bits : @PointerEncoding.Standard bits :=
  @PointerEncoding.Standard.mk bits (fun _ _ => rfl) (fun _ _ => rfl) (fun _ _ => rfl)
    (fun _ _ => rfl) (fun _ _ => rfl)

/-- Endianness used by fixed-width encodings. -/
inductive Endian where
  | little
  | big
deriving DecidableEq, Repr

/-- Logical addresses used by relative pointer encodings. -/
structure Bases where
  /-- Address of the first byte of the table. -/
  origin : ℕ
  /-- Beginning of the function described by the current unwind region. -/
  function : ℕ
  /-- Beginning of the text image, when supplied. -/
  textBase : Option ℕ
  /-- Data-relative base, when supplied. -/
  dataBase : Option ℕ
deriving DecidableEq, Repr

namespace Bases

/-- Creates the mandatory bases. -/
def new (origin function : ℕ) : Bases := ⟨origin, function, none, none⟩

/-- Adds the text-relative base. -/
def text (b : Bases) (text : ℕ) : Bases := { b with textBase := some text }

/-- Adds the data-relative base. -/
def data (b : Bases) (data : ℕ) : Bases := { b with dataBase := some data }

end Bases

/-- One decoded pointer before any indirection is followed. -/
structure Target where
  addr : ℕ
  indirect : Bool
deriving DecidableEq, Repr

/-- A malformed or unsupported table. -/
inductive LsdaError where
  | eof
  | encoding
  | base
  | overflow
  | table
  | loop
deriving DecidableEq, Repr

end Desenredo
