import Desenredo.Personality.Context

/-!
# Live tables

A personality gets the bytes of a table from a `Source`, which bounds the range the unwinder
only points to. Rust and C++ bound and parse the table of a frame in the same way.
-/

namespace Desenredo.Personality

open Unwind

variable [Gimli]

/-- Provider of a complete live table for one unwind frame. -/
structure Source (E : Type) where
  /-- The address and the bytes of a bounded view, absent when the frame has no table. -/
  bytes : Frame → Except E (Option (ℕ × List UInt8))
  /-- The text-relative pointer base for this exact live image. -/
  text : Frame → Option ℕ
  /-- The data-relative pointer base for this exact live image. -/
  data : Frame → Option ℕ

/-- Native byte order. -/
def ENDIAN : Endian := .little

namespace Source

variable [PointerEncoding] {E : Type} (U : Unwinder) (S : Source E) (frame : Frame)

/-- The bases of the table of a frame. -/
def bases (origin : ℕ) : Bases :=
  let bases := Bases.new origin frame.start
  let bases := match S.text frame with
    | some text => bases.text text
    | none => bases
  match S.data frame with
  | some data => bases.data data
  | none => bases

/-- The bounded and parsed table of a frame. The frame and the source must agree on whether
there is one and where it is. -/
def table : Except Unit (Option Lsda) :=
  let origin := frame.lsda U
  let bytes := S.bytes frame
  let aligned : Bool := match origin, bytes with
    | some origin, .ok (some (address, _)) => origin = address
    | _, _ => true
  match origin, bytes, aligned with
  | none, .ok none, true => .ok none
  | some origin, .ok (some (_, bytes)), true =>
    ((Lsda.new bytes (S.bases frame origin) ENDIAN).mapError fun _ => ()).map some
  | _, _, _ => .error ()

end Source

end Desenredo.Personality
