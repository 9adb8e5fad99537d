import Mathlib.Data.BitVec
import Mathlib.Data.Int.Notation
import Mathlib.Data.Nat.Notation
import Mathlib.Logic.Function.Basic
import Mathlib.Tactic.Common

/-!
# The level I unwind interface

Reason codes, action bits, exception classes and the exception header, as the unwinder and the
language runtimes see them in memory.
-/

namespace Desenredo

/-- A reason code returned by the unwinder or a personality routine. -/
structure ReasonCode where
  raw : ℤ
deriving DecidableEq, Repr

namespace ReasonCode

/-- Unwinding should continue with the next frame. -/
@[match_pattern] abbrev CONTINUE : ReasonCode := ⟨8⟩
/-- The unwinder reached the end of the stack. -/
@[match_pattern] abbrev END : ReasonCode := ⟨5⟩
/-- The search phase encountered a fatal error. -/
@[match_pattern] abbrev FATAL1 : ReasonCode := ⟨3⟩
/-- The cleanup phase encountered a fatal error. -/
@[match_pattern] abbrev FATAL2 : ReasonCode := ⟨2⟩
/-- The personality routine found a handler. -/
@[match_pattern] abbrev HANDLER : ReasonCode := ⟨6⟩
/-- The unwinder must install the modified context. -/
@[match_pattern] abbrev INSTALL : ReasonCode := ⟨7⟩
/-- No exceptional condition was reported. -/
@[match_pattern] abbrev NONE : ReasonCode := ⟨0⟩

end ReasonCode

/-- Personality action bits supplied by the unwinder. -/
structure Actions where
  raw : BitVec 32
deriving DecidableEq, Repr

namespace Actions

/-- The handler search phase bit. -/
def SEARCH : Actions := ⟨1⟩
/-- The cleanup phase bit. -/
def CLEANUP : Actions := ⟨2⟩
/-- The frame selected as the handler bit. -/
def HANDLER : Actions := ⟨4⟩
/-- The forced unwind bit. -/
def FORCE : Actions := ⟨8⟩
/-- The end of stack extension bit. -/
def END : Actions := ⟨16⟩

/-- Reports whether every action bit is recognized. -/
def known (a : Actions) : Bool := a.raw &&& ~~~31 = 0

/-- Reports whether all requested bits are present. -/
def has (a other : Actions) : Bool := a.raw &&& other.raw = other.raw

instance : OrOp Actions := ⟨fun lhs rhs => ⟨lhs.raw ||| rhs.raw⟩⟩

end Actions

/-- The eight byte producer and language identifier. -/
structure ExceptionClass where
  bits : ℕ
deriving DecidableEq, Repr

/-- Memory, one word at each address. -/
abbrev Memory := ℕ → ℕ

/-- The exception header at an address: the class, the cleanup callback, zero for none, and
the two words reserved for the active unwinder. -/
structure Exception where
  class_ : ExceptionClass
  cleanup : ℕ
  private1 : ℕ
  private2 : ℕ
deriving DecidableEq, Repr

namespace Exception

/-- Creates a producer-owned exception header before unwinding begins. -/
def new (class_ : ExceptionClass) (cleanup : ℕ) : Exception := ⟨class_, cleanup, 0, 0⟩

/-- The header stored at an address. -/
def load (m : Memory) (p : ℕ) : Exception := ⟨⟨m p⟩, m (p + 8), m (p + 16), m (p + 24)⟩

/-- Both words reserved for the active unwinder. -/
def words (e : Exception) : ℕ × ℕ := (e.private1, e.private2)

/-- Replaces both words reserved for the active unwinder. -/
def writeWords (m : Memory) (p : ℕ) (words : ℕ × ℕ) : Memory :=
  Function.update (Function.update m (p + 16) words.1) (p + 24) words.2

end Exception

/-- A borrowed exception header: its address and the memory it is read from. -/
structure ExceptionRef where
  ptr : ℕ
  memory : Memory

/-- The exception class stored in the header. -/
def ExceptionRef.class_ (e : ExceptionRef) : ExceptionClass :=
  (Exception.load e.memory e.ptr).class_

/-- The selector value passed to a landing pad. -/
structure Selector where
  raw : ℤ
deriving DecidableEq

end Desenredo
