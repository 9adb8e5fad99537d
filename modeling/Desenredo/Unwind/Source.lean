import Desenredo.Unwind.State

/-!
# Frame metadata

The unwind images an unwinder trusts and the frame one instruction address resolves to: its
description entry, its row, and the state of the caller the row reconstructs.
-/

namespace Desenredo.Unwind

open Usize

/-- Relation between the stored instruction pointer and the active instruction. -/
inductive Relation where
  /-- The value is a return address after a call instruction. -/
  | return_
  /-- The value denotes the interrupted instruction itself. -/
  | instruction
deriving DecidableEq, Repr

namespace Relation

/-- Converts the stored instruction pointer into the lookup address. -/
def site (relation : Relation) (address : ℕ) : Option ℕ :=
  match relation with
  | .return_ => checkedSub address 1
  | .instruction => some address

/-- The level I before-instruction flag. -/
def before (relation : Relation) : Bool := relation matches .instruction

end Relation

variable [Gimli]

/-- A bounded live `.eh_frame` image and its relocation bases. -/
structure Image where
  ehFrame : Gimli.EhFrame
  bases : BaseAddresses
  /-- Executable address range described by this image. -/
  start : ℕ
  fin : ℕ
  /-- Data-relative base, when one is configured. -/
  data : Option ℕ
  start_lt_fin : start < fin
  bases_text : bases.text = some start
  bases_got : bases.got = data

namespace Image

/-- Creates an unwind image from a section, its address and a nonempty text range. -/
def new (ehFrame : Gimli.EhFrame) (section_ start fin : ℕ) : Option Image :=
  if h : start < fin then
    some ⟨ehFrame, ⟨some section_, some start, none⟩, start, fin, none, h, rfl, rfl⟩
  else none

/-- Adds the data-relative base used by this image. -/
def withData (image : Image) (data : ℕ) : Image where
  ehFrame := image.ehFrame
  bases := { image.bases with got := some data }
  start := image.start
  fin := image.fin
  data := some data
  start_lt_fin := image.start_lt_fin
  bases_text := image.bases_text
  bases_got := rfl

end Image

/-- Static policy and memory authority for one native unwinder. -/
structure Unwinder where
  /-- The live unwind image containing one instruction. -/
  image : ℕ → Option Image
  /-- Reads one unsigned value with the requested byte width. -/
  read : ℕ → ℕ → Option ℕ

omit [Gimli] in
/-- The unwinder of one image given by its entries and rows, with no readable memory. -/
def Unwinder.decoded (rows : ℕ → Option (Fde × Row)) : @Unwinder .decoded :=
  @Unwinder.mk .decoded (fun _ => @Image.new .decoded rows 0 0 size) fun _ _ => none

/-- Resolved unwind metadata for one physical frame. -/
structure Info where
  image : Image
  fde : Fde
  row : Row
  instruction : ℕ

namespace Info

variable (U : Unwinder)

/-- The lookup address of a state, when it has an instruction pointer that names one. -/
def site (state : State) (relation : Relation) : Option ℕ :=
  match state.ip with
  | none | some 0 => none
  | some ip => relation.site ip

/-- Resolves the current register state into one frame description. -/
def new (state : State) (relation : Relation) : Except UnwindError (Option Info) :=
  match site state relation with
  | none => .ok none
  | some instruction => do
    let image ← (U.image instruction).okOr .image
    let fde ← (Gimli.fdeForAddress image.ehFrame image.bases instruction).mapError .gimli
    let row ← (Gimli.unwindInfoForAddress image.ehFrame image.bases fde instruction).mapError
      fun error => .cfi (.gimli error)
    .ok (some ⟨image, fde, row, instruction⟩)

/-- The instruction address represented by this frame. -/
def ip (info : Info) : ℕ := info.instruction

/-- Whether this frame changes the instruction pointer relation. -/
def signal (info : Info) : Bool := info.fde.isSignalTrampoline

/-- The function region start described by the entry. -/
def start (info : Info) : ℕ := info.fde.initialAddress

/-- The text-relative base for this frame image. -/
def text (info : Info) : ℕ := info.image.start

/-- The data-relative base for this frame image when configured. -/
def data (info : Info) : Option ℕ := info.image.data

/-- Reads one native word through the address-space capability. -/
def word (address : ℕ) : Except UnwindError ℕ := (U.read address 8).okOr .memory

/-- Resolves one encoded pointer. -/
def pointer : Pointer → Except UnwindError ℕ
  | .direct address => .ok address
  | .indirect address => word U address

/-- Resolves an encoded pointer that may be absent. -/
def optional : Option Pointer → Except UnwindError (Option ℕ)
  | none => .ok none
  | some p => (pointer U p).map some

/-- Resolves the LSDA pointer for this frame when present. -/
def lsda (info : Info) : Except UnwindError (Option ℕ) := optional U info.fde.lsda

/-- Resolves the personality routine pointer for this frame when present. -/
def personality (info : Info) : Except UnwindError (Option ℕ) := optional U info.fde.personality

/-- The stack adjustment requested before landing-pad installation. -/
def args (info : Info) : ℕ := info.row.savedArgsSize

/-- Reads one saved register through the address-space capability. -/
def register (register : Register) (address : ℕ) : Except UnwindError ℕ := do
  let size ← State.width register
  (U.read address size).okOr .memory

/-- The loop of `expr`: answers what the evaluation asks for until it completes. -/
def exprLoop (registers : State) (cfa : Option ℕ) :
    Evaluation Gimli.Error → Except UnwindError (List (Location Gimli.Error))
  | .failed error => .error (.gimli error)
  | .complete pieces => .ok pieces
  | .requiresMemory address size none resume => do
    let value ← (U.read address size).okOr .memory
    exprLoop registers cfa (resume value)
  | .requiresRegister register resume => do
    let value ← registers.read register
    exprLoop registers cfa (resume value)
  | .requiresCallFrameCfa resume =>
    match cfa with
    | some cfa' => exprLoop registers cfa (resume cfa')
    | none => .error .expression
  | .requiresRelocatedAddress address resume => exprLoop registers cfa (resume address)
  | .requiresMemory _ _ (some _) _ | .requiresOther => .error .expression

/-- Evaluates one expression against the current register image. -/
def expr (info : Info) (registers : State) (expression : UnwindExpression) (cfa : Option ℕ) :
    Except UnwindError ℕ := do
  let pieces ← exprLoop U registers cfa
    (Gimli.evaluate info.image.ehFrame info.fde.encoding expression none)
  match ← pieces.getLast?.okOr .expression with
  | .address address => .ok address
  | .register register => registers.read register
  | .value value => value.mapError .gimli
  | .other => .error .expression

/-- The canonical frame address. -/
def cfa (info : Info) (registers : State) : Except UnwindError ℕ :=
  match info.row.cfa with
  | .registerAndOffset register offset => do
    let base ← registers.read register
    .ok (wrappingAddSigned base offset)
  | .expression e => expr U info registers e none

/-- One turn of the loop of `caller`: the caller state with one rule applied. -/
def applyRule (info : Info) (registers : State) (cfa : ℕ) (target : Register)
    (rule : RegisterRule) (caller : State) : Except UnwindError State :=
  match rule with
  | .undefined => caller.clear target
  | .sameValue => do
    let value ← registers.read target
    caller.write target value
  | .offset offset => do
    let value ← register U target (wrappingAddSigned cfa offset)
    caller.write target value
  | .valOffset offset => caller.write target (wrappingAddSigned cfa offset)
  | .register source => do
    let value ← registers.read source
    caller.write target value
  | .expression e => do
    let address ← expr U info registers e (some cfa)
    let value ← register U target address
    caller.write target value
  | .valExpression e => do
    let value ← expr U info registers e (some cfa)
    caller.write target value
  | .architectural => .error .expression
  | .constant value => caller.write target value

/-- The loop of `caller` over the rules left. -/
def applyRules (info : Info) (registers : State) (cfa : ℕ) :
    List (Register × RegisterRule) → State → Except UnwindError State
  | [], caller => .ok caller
  | (target, rule) :: rules, caller => do
    let caller ← applyRule U info registers cfa target rule caller
    applyRules info registers cfa rules caller

/-- Reconstructs the caller register image from this frame row. -/
def caller (info : Info) (registers : State) : Except UnwindError State := do
  let cfa ← cfa U info registers
  -- a register without a rule keeps the value of the callee
  let caller ← registers.write .RSP cfa
  let caller ← caller.clear .RA
  applyRules U info registers cfa info.row.registers caller

end Info

end Desenredo.Unwind
