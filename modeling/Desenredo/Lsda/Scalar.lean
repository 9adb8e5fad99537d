import Desenredo.Library.Fixed
import Desenredo.Library.Parser
import Desenredo.Lsda.Encoding

/-!
# Scalars and encoded pointers

Every byte consumer of the table parser: bytes, fixed-width and LEB128 integers, the scalar
a pointer encoding selects, and encoded targets and offsets. A reader returns the remaining
input with its value. The position of a field is the length already consumed.
-/

namespace Desenredo

open Usize

variable [PointerEncoding]

/-- Integer decoded from one pointer field before a base is applied. -/
inductive Scalar where
  | unsigned (value : ℕ)
  | signed (value : ℤ)
deriving DecidableEq, Repr

/-- The integer a scalar denotes. -/
def Scalar.value : Scalar → ℤ
  | .unsigned value => value
  | .signed value => value

/-- Applies one nonnegative base and converts to the native address width. -/
def Scalar.add (s : Scalar) (base : ℕ) : Except LsdaError ℕ :=
  (tryFromInt (base + s.value)).okOr .overflow

/-- Parses one byte. -/
def byte : Parser LsdaError UInt8 UInt8
  | [] => .error .eof
  | b :: rest => .ok (rest, b)

/-- Splits the input after exactly `count` bytes. -/
def takeBytes (count : ℕ) : Parser LsdaError UInt8 (List UInt8) := fun input =>
  if count ≤ input.length then .ok (input.drop count, input.take count) else .error .eof

/-- The number of bytes consumed from `whole` to reach `rest`. -/
def position (whole rest : List UInt8) : Except LsdaError ℕ :=
  (checkedSub whole.length rest.length).okOr .table

/-- The number a fixed-width field stores in one byte order. -/
def Endian.number : Endian → List UInt8 → ℕ
  | .little, field => Fixed.number field
  | .big, field => Fixed.number field.reverse

/-- Parses one fixed-width unsigned integer. -/
def unsigned (width : ℕ) (endian : Endian) : Parser LsdaError UInt8 ℕ := fun input =>
  match width with
  | 2 | 4 | 8 => do
    let (rest, field) ← takeBytes width input
    .ok (rest, endian.number field)
  | _ => .error .encoding

/-- Parses one fixed-width signed integer. -/
def signed (width : ℕ) (endian : Endian) : Parser LsdaError UInt8 ℤ := fun input =>
  match width with
  | 2 | 4 | 8 => do
    let (rest, field) ← takeBytes width input
    .ok (rest, Fixed.signed (8 * width) (endian.number field))
  | _ => .error .encoding

/-- The loop of `uleb`, from the value and shift accumulated so far. -/
def ulebLoop : List UInt8 → ℕ → ℕ → Except LsdaError (List UInt8 × ℕ)
  | [], _, _ => .error .eof
  | octet :: rest, value, shift => do
    let payload := (octet &&& 0x7f).toNat
    let fits := if shift = 63 then payload ≤ 1 else shift ≤ 62
    if ¬fits then .error .overflow
    else
      let value := value ||| (payload <<< shift) % size
      if octet &&& 0x80 = 0 then .ok (rest, value)
      else
        let shift ← (U32.checkedAdd shift 7).okOr .overflow
        ulebLoop rest value shift

/-- Parses one bounded unsigned LEB128 value. -/
def uleb : Parser LsdaError UInt8 ℕ := fun input => ulebLoop input 0 0

/-- The loop of `sleb`: the rest, the accumulated bits, the shift past them and the last
octet. -/
def slebLoop : List UInt8 → ℕ → ℕ → Except LsdaError (List UInt8 × ℕ × ℕ × UInt8)
  | [], _, _ => .error .eof
  | octet :: rest, value, shift => do
    let payload := (octet &&& 0x7f).toNat
    if 64 ≤ shift then .error .overflow
    else
      -- the checked shift only rejects shifts of 64 or more, excluded here
      let value := value ||| (payload <<< shift) % size
      let shift ← (U32.checkedAdd shift 7).okOr .overflow
      if octet &&& 0x80 = 0 then .ok (rest, value, shift, octet)
      else slebLoop rest value shift

/-- The integer `sleb` makes of the accumulated bits: the sign bit of the last octet fills
the bits above the shift. -/
def slebSigned (value shift : ℕ) (terminal : UInt8) : ℤ :=
  let signed := if shift < 64 ∧ terminal &&& 0x40 ≠ 0
    then value ||| ((size - 1) <<< shift) % size else value
  Fixed.signed 64 signed

/-- Parses one bounded signed LEB128 value. -/
def sleb : Parser LsdaError UInt8 ℤ := fun input => do
  let (rest, value, shift, terminal) ← slebLoop input 0 0
  .ok (rest, slebSigned value shift terminal)

/-- Parses one scalar form selected by a pointer encoding. -/
def scalar (format : DwEhPe) (endian : Endian) : Parser LsdaError UInt8 Scalar :=
  match format with
  | ABS => (unsigned 8 endian).map .unsigned
  | ULEB => uleb.map .unsigned
  | SLEB => sleb.map .signed
  | U2 => (unsigned 2 endian).map .unsigned
  | U4 => (unsigned 4 endian).map .unsigned
  | U8 => (unsigned 8 endian).map .unsigned
  | S2 => (signed 2 endian).map .signed
  | S4 => (signed 4 endian).map .signed
  | S8 => (signed 8 endian).map .signed
  | _ => Parser.fail .encoding

/-- Applies ABI alignment to the remaining input. -/
def aligned (whole input : List UInt8) (bases : Bases) : Except LsdaError (List UInt8) := do
  let offset ← position whole input
  let address ← (checkedAdd bases.origin offset).okOr .overflow
  let remainder := address % 8
  let padding := if remainder = 0 then 0 else 8 - remainder
  let (rest, _) ← takeBytes padding input
  .ok rest

/-- The base one application adds, where `field` is the address of the encoded field. -/
def applicationBase (application : DwEhPe) (field : ℕ) (bases : Bases) : Except LsdaError ℕ :=
  match application with
  | ABS | ALIGN => .ok 0
  | PC => .ok field
  | TEXT => bases.textBase.okOr .base
  | DATA => bases.dataBase.okOr .base
  | FUNC => .ok bases.function
  | _ => .error .encoding

/-- The input at the encoded field: behind the alignment an aligned encoding asks for. -/
def fieldInput (whole : List UInt8) (encoding : DwEhPe) (bases : Bases) (input : List UInt8) :
    Except LsdaError (List UInt8) :=
  if encoding.application = ALIGN then aligned whole input bases else .ok input

/-- Parses one encoded target, keeping any requested indirection bit. -/
def target (whole : List UInt8) (encoding : DwEhPe) (bases : Bases) (endian : Endian) :
    Parser LsdaError UInt8 Target := fun input =>
  if encoding.isValidEncoding ∧ ¬encoding.isAbsent then do
    let input ← fieldInput whole encoding bases input
    let offset ← position whole input
    let field ← (checkedAdd bases.origin offset).okOr .overflow
    let (rest, scalar) ← scalar encoding.format endian input
    let base ← applicationBase encoding.application field bases
    let address ← scalar.add base
    .ok (rest, ⟨address, encoding.isIndirect⟩)
  else .error .encoding

/-- Parses one plain call-site offset. -/
def offset (encoding : DwEhPe) (endian : Endian) : Parser LsdaError UInt8 ℕ :=
  let plain := encoding.application = ABS ∧ ¬encoding.isIndirect
  if encoding.isValidEncoding ∧ ¬encoding.isAbsent ∧ plain then
    (scalar encoding.format endian).refine (·.add 0)
  else Parser.fail .encoding

end Desenredo
