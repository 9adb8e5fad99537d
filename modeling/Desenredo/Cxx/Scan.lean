import Desenredo.Abi
import Desenredo.Lsda.Table

/-!
# C++ call sites

The scans of one call site of a C++ table: `clean` looks for cleanup work only, `scan` tests
the catch clauses and exception specifications of the site against the active exception. The
tests are delegated to a runtime capability, the `Matcher`, which may keep state of its own.
-/

namespace Desenredo.Cxx

variable [PointerEncoding]

/-- Nonzero landing pad decoded from a table. -/
structure Pad where
  addr : NonZeroUsize
deriving DecidableEq

/-- One positive catch clause and its decoded RTTI target. -/
structure Catch where
  index : TypeIndex
  target : Target
deriving DecidableEq

/-- One handler clause requiring runtime matching. -/
inductive Clause where
  | catch (c : Catch)
  | filter (index : FilterIndex)
deriving DecidableEq

/-- Matcher invocation stage. -/
inductive Stage where
  /-- Phase-one handler search. -/
  | search
  /-- Phase-two selected handler restoration. -/
  | handler
deriving DecidableEq

/-- Runtime capability for RTTI matching. A test may change the state `W` of the runtime. -/
structure Matcher (W E : Type) where
  test : Stage → ExceptionRef → ExceptionClass → Lsda → Clause → Selector → W → Except E Bool × W

/-- C++ interpretation of one protected call site. -/
inductive Action where
  /-- No landing pad is required. -/
  | none
  /-- Run compiler-generated cleanup code with selector zero. -/
  | cleanup (pad : Pad)
  /-- Transfer to the selected handler with its selector. -/
  | handler (pad : Pad) (selector : Selector)
  /-- Treat the call site as non-unwinding. -/
  | terminate
deriving DecidableEq

/-- Failure while interpreting exception metadata. -/
inductive CxxError where
  /-- The generic table is malformed. -/
  | parse (error : LsdaError)
  /-- A landing pad encoded as zero where code was required. -/
  | landing
  /-- A typed catch clause has no RTTI table. -/
  | types
  /-- A type index cannot be represented by the selector width. -/
  | selector
deriving DecidableEq

/-- Failure from metadata interpretation or runtime matching. -/
inductive Failure (E : Type) where
  | metadata (error : CxxError)
  | match_ (error : E)

/-- Validates one executable landing pad. -/
def Pad.new (addr : ℕ) : Except CxxError Pad :=
  ((NonZeroUsize.new addr).map Pad.mk).okOr .landing

namespace Clause

/-- Resolves one positive catch clause from the reverse type table. -/
def ofCatch (lsda : Lsda) (index : TypeIndex) : Except CxxError Clause := do
  let types ← lsda.types.okOr .types
  let target ← (types.get lsda index).mapError .parse
  .ok (.catch ⟨index, target⟩)

/-- Converts one clause discriminator into the landing pad selector. -/
def selector : Clause → Except CxxError Selector
  | .catch c => if c.index.raw ≤ Isize.max then .ok ⟨c.index.raw⟩ else .error .selector
  | .filter index => if index.raw ≤ Isize.max then .ok ⟨-index.raw⟩ else .error .selector

variable {W E : Type}

/-- Tests one clause with the selected runtime matcher. -/
def test (M : Matcher W E) (stage : Stage) (exception : ExceptionRef) (class_ : ExceptionClass)
    (lsda : Lsda) (clause : Clause) (w : W) : Except (Failure E) (Option Selector) × W :=
  match clause.selector with
  | .error error => (.error (.metadata error), w)
  | .ok selector =>
    match M.test stage exception class_ lsda clause selector w with
    | (.error error, w) => (.error (.match_ error), w)
    | (.ok matched, w) => (.ok (if matched then some selector else .none), w)

end Clause

/-- The loop of `clean` over the records left of a chain. -/
def cleanLoop : List (Except LsdaError Kind) → Bool → Except CxxError Bool
  | [], cleanup => .ok cleanup
  | kind :: rest, cleanup => do
    match ← kind.mapError .parse with
    | .cleanup => cleanLoop rest true
    | .catch _ | .filter _ => cleanLoop rest cleanup

/-- Finds cleanup work for one call site without matching. -/
def clean (lsda : Lsda) (pc : ℕ) : Except CxxError Action := do
  match ← (lsda.site pc).mapError .parse with
  | .none => .ok .terminate
  | some site =>
    match site.land with
    | .none => .ok .none
    | some addr =>
      let pad ← Pad.new addr
      match site.action with
      | .none => .ok (.cleanup pad)
      | some action =>
        let chain ← (lsda.chain action).mapError .parse
        let cleanup ← cleanLoop chain.items false
        .ok (if cleanup then .cleanup pad else .none)

section

variable {W E : Type} (M : Matcher W E) (stage : Stage) (exception : ExceptionRef)
  (class_ : ExceptionClass)

/-- What one record of a chain contributes to a scan: the selector of a clause that matches. -/
def outcome (lsda : Lsda) (kind : Except LsdaError Kind) (w : W) :
    Except (Failure E) (Option Selector) × W :=
  match kind with
  | .error error => (.error (.metadata (.parse error)), w)
  | .ok .cleanup => (.ok .none, w)
  | .ok (.catch index) =>
    match Clause.ofCatch lsda index with
    | .error error => (.error (.metadata error), w)
    | .ok clause => clause.test M stage exception class_ lsda w
  | .ok (.filter index) => (Clause.filter index).test M stage exception class_ lsda w

/-- The loop of `scan` over the records left of a chain: the selector of the first clause that
matches, and whether a cleanup record was met before it. -/
def scanLoop (lsda : Lsda) : List (Except LsdaError Kind) → Bool → W →
    Except (Failure E) (Option Selector × Bool) × W
  | [], cleanup, w => (.ok (.none, cleanup), w)
  | kind :: rest, cleanup, w =>
    let cleanup := if kind matches .ok .cleanup then true else cleanup
    match outcome M stage exception class_ lsda kind w with
    | (.ok (some selector), w) => (.ok (some selector, cleanup), w)
    | (.ok .none, w) => scanLoop lsda rest cleanup w
    | (.error error, w) => (.error error, w)

/-- The action of a landing pad after its chain has been scanned. -/
def Action.ofScan (pad : Pad) : Option Selector × Bool → Action
  | (some selector, _) => .handler pad selector
  | (.none, true) => .cleanup pad
  | (.none, false) => .none

/-- Scans one call site for cleanup or handler work. -/
def scan (lsda : Lsda) (pc : ℕ) (w : W) : Except (Failure E) Action × W :=
  match lsda.site pc with
  | .error error => (.error (.metadata (.parse error)), w)
  | .ok .none => (.ok .terminate, w)
  | .ok (some site) =>
    match site.land with
    | .none => (.ok .none, w)
    | some addr =>
      match Pad.new addr with
      | .error error => (.error (.metadata error), w)
      | .ok pad =>
        match site.action with
        | .none => (.ok (.cleanup pad), w)
        | some action =>
          match lsda.chain action with
          | .error error => (.error (.metadata (.parse error)), w)
          | .ok chain =>
            match scanLoop M stage exception class_ lsda chain.items false w with
            | (.error error, w) => (.error error, w)
            | (.ok found, w) => (.ok (.ofScan pad found), w)

end

variable {W E : Type}

/-- Searches one frame for a matching handler. -/
def search (M : Matcher W E) (lsda : Lsda) (pc : ℕ) (exception : ExceptionRef)
    (class_ : ExceptionClass) (w : W) : Except (Failure E) Action × W :=
  scan M .search exception class_ lsda pc w

/-- Restores the handler selected for one frame during phase two. -/
def handler (M : Matcher W E) (lsda : Lsda) (pc : ℕ) (exception : ExceptionRef)
    (class_ : ExceptionClass) (w : W) : Except (Failure E) Action × W :=
  scan M .handler exception class_ lsda pc w

end Desenredo.Cxx
