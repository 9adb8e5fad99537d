import Desenredo.Library.Leb128
import Desenredo.Lsda.Table

/-!
# The call-site table format

What a producer of exception tables writes: the octets that store a number in a scalar
format, and the call-site records stored one behind the other. A number has several LEB128
encodings, so the format is a relation; `writeTable` writes the shortest one.
-/

namespace Desenredo

open Usize

/-- The octets that store a number in a width and byte order. -/
def Endian.bytes : Endian → ℕ → ℕ → List UInt8
  | .little, width, n => Fixed.bytes width n
  | .big, width, n => (Fixed.bytes width n).reverse

/-- Octets of an unsigned LEB128 number of 64 bits. -/
def StoresUleb (n : ℕ) (octets : List UInt8) : Prop :=
  n < size ∧ Leb128.Encoding octets ∧ octets.length ≤ 10 ∧ Leb128.value octets = n

/-- Octets of a nonnegative signed LEB128 number of 64 bits. -/
def StoresSleb (n : ℕ) (octets : List UInt8) : Prop :=
  n < 2 ^ 63 ∧ Leb128.Encoding octets ∧ octets.length ≤ 10 ∧ Leb128.signedValue octets = n

/-- Octets of a signed LEB128 number of 64 bits. -/
def StoresSigned (v : ℤ) (octets : List UInt8) : Prop :=
  -2 ^ 63 ≤ v ∧ v < 2 ^ 63 ∧ Leb128.Encoding octets ∧ octets.length ≤ 10 ∧
    Leb128.signedValue octets = v

/-- The octets store the offset `n` in a scalar format. -/
def Stores (format : DwEhPe) (endian : Endian) (n : ℕ) (octets : List UInt8) : Prop :=
  match format with
  | ABS => n < 2 ^ 64 ∧ octets = endian.bytes 8 n
  | ULEB => StoresUleb n octets
  | U2 => n < 2 ^ 16 ∧ octets = endian.bytes 2 n
  | U4 => n < 2 ^ 32 ∧ octets = endian.bytes 4 n
  | U8 => n < 2 ^ 64 ∧ octets = endian.bytes 8 n
  | SLEB => StoresSleb n octets
  | S2 => n < 2 ^ 15 ∧ octets = endian.bytes 2 n
  | S4 => n < 2 ^ 31 ∧ octets = endian.bytes 4 n
  | S8 => n < 2 ^ 63 ∧ octets = endian.bytes 8 n
  | _ => False

/-- The fields of a call-site record before they are interpreted. -/
structure CallSite where
  start : ℕ
  size : ℕ
  /-- Landing-pad offset, zero for none. -/
  landing : ℕ
  /-- One-based action offset, zero for none. -/
  action : ℕ
deriving DecidableEq, Repr

namespace CallSite

/-- The octets store the fields of a record, in order. -/
def Stored (encoding : DwEhPe) (endian : Endian) (r : CallSite) (octets : List UInt8) : Prop :=
  ∃ start size landing action, Stores encoding endian r.start start ∧
    Stores encoding endian r.size size ∧ Stores encoding endian r.landing landing ∧
    StoresUleb r.action action ∧ octets = start ++ (size ++ (landing ++ action))

/-- The entry a record stands for, its landing pad relative to `base`. -/
def site (base : ℕ) (r : CallSite) : Site where
  start := r.start
  size := r.size
  land := if r.landing = 0 then none else some (base + r.landing)
  action := (NonZeroUsize.new r.action).map Action.mk

end CallSite

/-- The octets store the records of a table back to back. -/
inductive StoredTable (encoding : DwEhPe) (endian : Endian) :
    List CallSite → List UInt8 → Prop
  | nil : StoredTable encoding endian [] []
  | cons {r : CallSite} {rs : List CallSite} {octets table : List UInt8} :
      r.Stored encoding endian octets → StoredTable encoding endian rs table →
      StoredTable encoding endian (r :: rs) (octets ++ table)

/-- The bytes of a table: a header `Lsda.new` accepts in front of them, the call-site encoding,
the length of the call-site table, its records, and `tail`. -/
def StoredLsda [PointerEncoding] (bytes : List UInt8) (bases : Bases) (endian : Endian)
    (landingBase : ℕ) (encoding : DwEhPe) (records : List CallSite) (tail : List UInt8) : Prop :=
  ∃ input types octets table, Lsda.landing bytes bases endian bytes = .ok (input, landingBase) ∧
    Lsda.typeTable bytes input =
      .ok (UInt8.ofNat encoding.raw :: (octets ++ (table ++ tail)), types) ∧
    StoresUleb table.length octets ∧ StoredTable encoding endian records table

/-! ## The shortest table -/

/-- The offsets a scalar format has room for are those below two to this power. -/
def DwEhPe.capacity : DwEhPe → ℕ
  | U2 => 16
  | U4 => 32
  | SLEB | S8 => 63
  | S2 => 15
  | S4 => 31
  | _ => 64

/-- Writes an offset in a scalar format. -/
def writeOffset (format : DwEhPe) (endian : Endian) (n : ℕ) : List UInt8 :=
  match format with
  | ULEB => Leb128.encode n
  | SLEB => Leb128.encodeSigned n
  | U2 | S2 => endian.bytes 2 n
  | U4 | S4 => endian.bytes 4 n
  | _ => endian.bytes 8 n

/-- Writes a record. -/
def CallSite.write (encoding : DwEhPe) (endian : Endian) (r : CallSite) : List UInt8 :=
  writeOffset encoding endian r.start ++ (writeOffset encoding endian r.size ++
    (writeOffset encoding endian r.landing ++ Leb128.encode r.action))

/-- The fields of a record fit an encoding. -/
def CallSite.Fits (encoding : DwEhPe) (r : CallSite) : Prop :=
  r.start < 2 ^ encoding.capacity ∧ r.size < 2 ^ encoding.capacity ∧
    r.landing < 2 ^ encoding.capacity ∧ r.action < 2 ^ 64

instance (encoding : DwEhPe) (r : CallSite) : Decidable (r.Fits encoding) := by
  unfold CallSite.Fits
  infer_instance

/-- Writes the records of a table back to back. -/
def writeTable (encoding : DwEhPe) (endian : Endian) (records : List CallSite) : List UInt8 :=
  records.flatMap (CallSite.write encoding endian)

end Desenredo
