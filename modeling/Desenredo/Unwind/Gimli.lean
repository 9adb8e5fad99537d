import Desenredo.Library.Except

/-!
# The DWARF reader

What the unwinder asks of the reader of `.eh_frame` sections: the description entry covering an
address, the row of its unwind table, and the evaluation of the expressions rows refer to. The
reader is not part of the repository, so its functions are parameters; only the shape of what
they return is fixed here.
-/

namespace Desenredo.Unwind

/-- A DWARF register number. -/
structure Register where
  raw : ℕ
deriving DecidableEq, Repr

/-- A pointer field of an entry: the address itself, or where to read it. -/
inductive Pointer where
  | direct (address : ℕ)
  | indirect (address : ℕ)
deriving DecidableEq, Repr

/-- The place of an expression in its section. -/
structure UnwindExpression where
  offset : ℕ
  length : ℕ
deriving DecidableEq, Repr

/-- How a row recovers the canonical frame address. -/
inductive CfaRule where
  | registerAndOffset (register : Register) (offset : ℤ)
  | expression (e : UnwindExpression)
deriving DecidableEq, Repr

/-- How a row recovers one register of the caller. -/
inductive RegisterRule where
  | undefined
  | sameValue
  | offset (offset : ℤ)
  | valOffset (offset : ℤ)
  | register (source : Register)
  | expression (e : UnwindExpression)
  | valExpression (e : UnwindExpression)
  | architectural
  | constant (value : ℕ)
deriving DecidableEq, Repr

/-- One row of an unwind table. -/
structure Row where
  cfa : CfaRule
  registers : List (Register × RegisterRule)
  savedArgsSize : ℕ
deriving DecidableEq, Repr

/-- The encoding parameters of a common information entry. -/
structure Encoding where
  addressSize : ℕ
  dwarf64 : Bool
  version : ℕ
deriving DecidableEq, Repr

/-- A frame description entry with what its common information entry adds to it. -/
structure Fde where
  encoding : Encoding
  initialAddress : ℕ
  isSignalTrampoline : Bool
  lsda : Option Pointer
  personality : Option Pointer
deriving DecidableEq, Repr

/-- Relocation bases used while interpreting encoded pointers. -/
structure BaseAddresses where
  ehFrame : Option ℕ
  text : Option ℕ
  got : Option ℕ
deriving DecidableEq, Repr

/-- Where the last piece of an expression's result lies. A value carries its conversion to an
unsigned word, which fails for the types that have none. -/
inductive Location (ε : Type) where
  | address (address : ℕ)
  | register (register : Register)
  | value (toU64 : Except ε ℕ)
  | other

/-- One evaluation of an expression: the capability it asks for next and how it goes on with
the answer. -/
inductive Evaluation (ε : Type) where
  | failed (error : ε)
  | complete (pieces : List (Location ε))
  | requiresMemory (address size : ℕ) (space : Option ℕ) (resume : ℕ → Evaluation ε)
  | requiresRegister (register : Register) (resume : ℕ → Evaluation ε)
  | requiresCallFrameCfa (resume : ℕ → Evaluation ε)
  | requiresRelocatedAddress (address : ℕ) (resume : ℕ → Evaluation ε)
  | requiresOther

/-- The functions of the DWARF reader. -/
class Gimli where
  /-- Why the reader rejected its input. -/
  Error : Type
  /-- A bounded `.eh_frame` section. -/
  EhFrame : Type
  /-- The description entry covering an address. -/
  fdeForAddress : EhFrame → BaseAddresses → ℕ → Except Error Fde
  /-- The row of an entry for an address, computed in a fresh context. -/
  unwindInfoForAddress : EhFrame → BaseAddresses → Fde → ℕ → Except Error Row
  /-- The evaluation of an expression of a section, whose stack starts with a given value when
  one has been set. -/
  evaluate : EhFrame → Encoding → UnwindExpression → Option ℕ → Evaluation Error

/-- A reader of sections that are given by their entries and rows and hold no expression. -/
@[reducible] def Gimli.decoded : Gimli where
  Error := Unit
  EhFrame := ℕ → Option (Fde × Row)
  fdeForAddress rows _ address := ((rows address).map Prod.fst).okOr ()
  unwindInfoForAddress rows _ _ address := ((rows address).map Prod.snd).okOr ()
  evaluate _ _ _ _ := .failed ()

end Desenredo.Unwind
