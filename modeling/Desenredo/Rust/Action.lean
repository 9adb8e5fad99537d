import Desenredo.Lsda.Table

/-!
# Rust call sites

The classification of one call site of a table rustc emits: action zero is cleanup only,
positive entries are catch landing pads and negative entries filter landing pads. A program
counter outside every call site terminates.
-/

namespace Desenredo.Rust

variable [PointerEncoding]

/-- Nonzero landing-pad address decoded from a table. -/
structure Pad where
  addr : NonZeroUsize
deriving DecidableEq

/-- Rust interpretation of one protected call site. -/
inductive Action where
  /-- No landing pad is required. -/
  | none
  /-- Run compiler-generated cleanup code. -/
  | cleanup (pad : Pad)
  /-- Stop at a panic catch boundary. -/
  | catch (pad : Pad)
  /-- Run an exception filter landing pad. -/
  | filter (pad : Pad)
  /-- Treat the call site as non-unwinding. -/
  | terminate
deriving DecidableEq

/-- Failure while interpreting exception metadata. -/
inductive ActionError where
  /-- The generic table is malformed. -/
  | parse (error : LsdaError)
  /-- A typed action entry resolved to an empty chain. -/
  | chain
  /-- A landing pad encoded as zero where executable code was required. -/
  | landing
deriving DecidableEq

/-- Validates one executable landing pad address. -/
def Pad.new (addr : ℕ) : Except ActionError Pad :=
  ((NonZeroUsize.new addr).map Pad.mk).okOr .landing

/-- The action of a call site whose chain begins with a record of one kind. -/
def Action.ofKind (pad : Pad) : Kind → Action
  | .cleanup => .cleanup pad
  | .catch _ => .catch pad
  | .filter _ => .filter pad

/-- Interprets one call site. -/
def scan (lsda : Lsda) (pc : ℕ) : Except ActionError Action := do
  match ← (lsda.site pc).mapError .parse with
  | .none => .ok .terminate
  | some site =>
    match site.land with
    | .none => .ok .none
    | some addr =>
      let pad ← Pad.new addr
      match site.action with
      | .none => .ok (.cleanup pad)
      | some action =>
        let chain ← (lsda.chain action).mapError .parse
        match chain.next.1 with
        | .none => .error .chain
        | some kind =>
          let kind ← kind.mapError .parse
          .ok (.ofKind pad kind)

end Desenredo.Rust
