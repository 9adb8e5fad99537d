import Desenredo.Library.Unwinding
import Desenredo.Panic.Lifecycle
import Desenredo.Worker.Backtrace
import Desenredo.Worker.Process

/-!
# The worker

A single-threaded process that serves one request after the other, each under a boundary that
recovers its panic. A request owns a page that has to be released on every way out of it. The
kernel, the allocator and the printing of a backtrace are parameters.
-/

namespace Desenredo.Worker

/-! ## The process -/

/-- Process exit status used by terminal policies. -/
inductive ExitCode where
  | foreign
  | lost
  | software
  | success
  | usage
deriving DecidableEq, Repr

/-- The Linux process status. -/
def ExitCode.get : ExitCode → ℕ
  | .foreign => 71
  | .lost => 72
  | .software => 70
  | .success => 0
  | .usage => 64

/-- How the process ends. -/
inductive Status where
  | exit (status : ℕ)
  | abort
  /-- The scan of an argument has not ended. -/
  | running
  /-- Storage that was never written is read, or control is where this process knows nothing of. -/
  | undefined
deriving DecidableEq, Repr

/-- Work selected by one command line request. -/
inductive Command where
  | work
  | panic
  | trace
deriving DecidableEq, Repr

/-- One application request with a stable nonzero identity. -/
structure Request where
  id : ℕ
  command : Command
deriving DecidableEq, Repr

/-- Expected request execution failure before panic propagation begins. -/
inductive ServiceError where
  | resource
  | backtrace (error : BacktraceError)
deriving DecidableEq, Repr

/-- Expected failure before a request begins unwinding. -/
inductive ExecutionError where
  | busy
  | service (error : ServiceError)
deriving DecidableEq, Repr

/-- Successful request boundary outcomes. -/
inductive Outcome where
  | complete
  | recovered
  | resource
  | backtrace
deriving DecidableEq, Repr

/-- Failure of the catch boundary itself rather than the application request. -/
inductive BoundaryError where
  | busy
  | payload
  | cleanup
deriving DecidableEq, Repr

/-- Intrinsic callback state: what has been written of it. -/
structure State where
  result : Option (Except ExecutionError Unit)
  payload : Option Panic.Payload

/-- What the process does to the outside, to its pages and to its heap. -/
inductive Event where
  | stdout (message : String)
  | stderr (message : String)
  | mapped (page : ℕ)
  | touched (page value : ℕ)
  | unmapped (page : ℕ)
  /-- The box of a fault is allocated for a request. -/
  | boxed (address request : ℕ)
  | unboxed (address : ℕ)
  | printed
  | panic (event : Panic.Event)
deriving DecidableEq, Repr

/-- The statics of the process, its heap, what has happened and what the kernel remembers. -/
structure World (K : Type) where
  kernel : K
  active : ℕ
  cleanups : ℕ
  heap : ℕ → Option Panic.Object
  raised : List Panic.Payload
  faults : ℕ → Option ℕ
  state : State
  log : List Event

/-- The world a process starts in. -/
def World.new {K : Type} (kernel : K) : World K :=
  ⟨kernel, 0, 0, fun _ => none, [], fun _ => none, ⟨none, none⟩, []⟩

/-- What the worker runs on, with what it remembers as a parameter. -/
structure Platform (K : Type) where
  /-- Maps one fresh page, if the kernel has one. -/
  mmap : K → Option ℕ × K
  /-- Whether a page could be released. -/
  munmap : ℕ → K → Bool × K
  /-- The address of a new heap block. -/
  alloc : K → ℕ × K
  /-- The words the unwinder leaves in the header of a raised exception. -/
  private_ : K → (ℕ × ℕ) × K
  /-- Prints a backtrace. -/
  print : K → Except BacktraceError Unit × K
  /-- The address of the virtual table of a boxed fault. -/
  vtable : ℕ
  producers : Panic.Producers

/-- Process code: exceptions are addresses. -/
abbrev Code (K : Type) (α : Type) := Routine (World K) ℕ Status α

/-- Process code that does not raise. -/
abbrev Release (K : Type) (α : Type) := Routine (World K) Empty Status α

variable {K : Type} {ε α : Type}

/-- Logs one event. -/
def record (event : Event) : Routine (World K) ε Status Unit :=
  .modify fun s => { s with log := s.log ++ [event] }

/-- Calls the platform. -/
def call (f : K → α × K) : Routine (World K) ε Status α :=
  .step fun s => ((f s.kernel).1, { s with kernel := (f s.kernel).2 })

/-- Reads storage that may not have been written. -/
def assume_init (f : World K → Option α) : Routine (World K) ε Status α := do
  match ← .view f with
  | some a => pure a
  | none => .finish .undefined

/-- Terminates the process with one status. -/
def exit (status : ExitCode) : Routine (World K) ε Status α := .finish (.exit status.get)

/-- Reports one terminal diagnostic and exits the process. -/
def terminate (message : String) (status : ExitCode) : Routine (World K) ε Status α := do
  record (.stderr message)
  exit status

/-! ## Panics -/

/-- What the hook that took control last does. -/
def hooked (log : List Panic.Event) : Routine (World K) ε Status α :=
  match log.getLast? with
  | some (.lost _) | some (.terminal _) =>
    terminate "unwinder returned without a request handler\n" .lost
  | some .foreign => terminate "foreign exception reached the Rust request boundary\n" .foreign
  | _ => .finish .undefined

/-- Runs code of the panic runtime. -/
def panics (x : Proc Panic.World α) : Routine (World K) ε Status α := do
  let result ← .step fun s =>
    let result := x.run ⟨s.heap, s.raised, []⟩
    (result, { s with heap := result.2.heap, raised := result.2.raised,
                      log := s.log ++ result.2.log.map .panic })
  match result.1 with
  | some a => pure a
  | none => hooked result.2.log

variable (p : Platform K)

/-- An object with other words in its header. -/
def note (words : ℕ × ℕ) : Panic.Object → Panic.Object
  | .packet serial packet owner =>
    let unwind := { packet.unwind with private1 := words.1, private2 := words.2 }
    .packet serial { packet with unwind := unwind } owner
  | object => object

/-- `_Unwind_RaiseException`: searches for a handler, notes it in the header and unwinds to it, or
comes back at the end of the stack. -/
def raiseException (exception : ℕ) : Code K ReasonCode := do
  let words ← call p.private_
  .modify fun s =>
    { s with heap := Function.update s.heap exception ((s.heap exception).map (note words)) }
  .raise exception
  pure .END

/-- Raises a panic packet and applies the terminal runtime policy on return. -/
def start (payload : Panic.Payload) : Code K α := do
  let address ← call p.alloc
  panics (Panic.raise.enter p.producers.runtime .start payload address)
  let reason ← raiseException p address
  let error ← panics (Panic.raise.leave reason address)
  panics (Panic.start.leave error)
  .finish .undefined

/-- The box of a fault. -/
def boxFault (request : ℕ) : Code K Panic.Payload := do
  let address ← call p.alloc
  .modify fun s => { s with faults := Function.update s.faults address (some request) }
  record (.boxed address request)
  pure ⟨address, p.vtable⟩

/-- Drops a payload. One of another type has nothing to drop that this process knows. -/
def dropPayload (payload : Panic.Payload) : Release K Unit :=
  if payload.vtable = p.vtable then do
    .modify fun s => { s with faults := Function.update s.faults payload.data none }
    record (.unboxed payload.data)
  else pure ()

/-- Handles language panics of the process. -/
def panic (can_unwind : Bool) : Code K α := do
  let request ← .view World.active
  match can_unwind, request with
  | true, 0 => terminate "panic occurred outside a recoverable request\n" .software
  | true, request + 1 => do
    let payload ← boxFault p (request + 1)
    start p payload
  | false, _ => do
    record (.stderr "non-unwindable panic reached the process runtime\n")
    .finish .abort

/-! ## Request scopes -/

namespace RequestScope

/-- Acquires the process-wide recoverable panic slot for one request. -/
def enter (request : ℕ) : Code K (Option ℕ) := .step fun s =>
  if s.active = 0 then (some request, { s with active := request }) else (none, s)

/-- `Drop` of the scope of a request. -/
def drop (request : ℕ) : Release K Unit := do
  let active ← .view World.active
  if active = request then .modify fun s => { s with active := 0 }
  else terminate "request scope invariant failed\n" .software

end RequestScope

/-! ## Requests -/

/-- Parses one application argument into a supported request command. -/
def Command.parse (argument : List UInt8) : Option Command :=
  if argument = [0x77, 0x6f, 0x72, 0x6b] then some .work
  else if argument = [0x70, 0x61, 0x6e, 0x69, 0x63] then some .panic
  else if argument = [0x74, 0x72, 0x61, 0x63, 0x65] then some .trace
  else none

namespace Mapping

/-- Acquires one page of request-local scratch storage. -/
def new : Code K (Except ServiceError ℕ) := do
  match ← call p.mmap with
  | some page => do
    record (.mapped page)
    pure (.ok page)
  | none => pure (.error .resource)

/-- Writes the request identity into owned scratch storage. -/
def touch (page request : ℕ) : Code K Unit := record (.touched page request)

/-- `Drop` of a mapping. -/
def drop (page : ℕ) : Release K Unit := do
  if ← call (p.munmap page) then do
    .modify fun s => { s with cleanups := Usize.wrappingAdd s.cleanups 1 }
    record (.unmapped page)
  else terminate "request mapping release failed\n" .software

end Mapping

/-- Innermost application frame, which captures and symbolizes the physical call stack. -/
def traceInner : Code K (Except BacktraceError Unit) := do
  let printed ← call p.print
  record .printed
  pure printed

/-- Produces the recoverable panic. -/
def simulatedPanic : Code K α := panic p true

/-- Executes one request while owning a resource that must unwind correctly. -/
def execute (request : Request) : Code K (Except ServiceError Unit) := do
  match ← Mapping.new p with
  | .error error => pure (.error error)
  | .ok resource => .owning (Mapping.drop p resource) do
    Mapping.touch resource request.id
    match request.command with
    | .work => pure (.ok ())
    | .panic => simulatedPanic p
    | .trace => do
      let printed ← traceInner p
      pure (printed.mapError .backtrace)

/-! ## The boundary -/

/-- The request under its scope. -/
def guarded (request : Request) : Option ℕ → Code K (Except ExecutionError Unit)
  | some scope => .owning (RequestScope.drop scope) do
    let executed ← execute p request
    pure (executed.mapError .service)
  | none => pure (.error .busy)

/-- Executes the request callback under one recoverable request scope. -/
def invoke (request : Request) : Code K Unit := do
  let scope ← RequestScope.enter request.id
  let executed ← guarded p request scope
  .modify fun s => { s with state := { s.state with result := some executed } }

/-- Consumes one caught panic into the callback payload slot. -/
def catch_ (exception : ℕ) : Code K Unit := do
  let payload ← panics (Panic.Heap.catch_ p.producers exception)
  .modify fun s => { s with state := { s.state with payload := some payload } }

/-- What a request that returned comes to. -/
def returned (executed : Except ExecutionError Unit) (released kept : Bool) :
    Except BoundaryError Outcome :=
  match executed, released, kept with
  | .ok (), true, _ => .ok .complete
  | .error (.service .resource), _, true => .ok .resource
  | .error (.service (.backtrace _)), true, _ => .ok .backtrace
  | .error .busy, _, _ => .error .busy
  | _, _, _ => .error .cleanup

/-- The request a payload was boxed for, if it is a fault. -/
def downcast (payload : Panic.Payload) : Code K (Option ℕ) :=
  if payload.vtable = p.vtable then do
    let request ← assume_init fun s => s.faults payload.data
    pure (some request)
  else pure none

/-- What a request that panicked comes to. -/
def recovered (request : Request) (fault : Option ℕ) (released : Bool) :
    Except BoundaryError Outcome :=
  match fault, released with
  | some fault, true => if fault = request.id then .ok .recovered else .error .payload
  | none, true => .error .payload
  | _, false => .error .cleanup

/-- Executes one request and converts the compiler catch protocol into an outcome. -/
def run (request : Request) : Code K (Except BoundaryError Outcome) := do
  let before ← .view World.cleanups
  match Usize.checkedAdd before 1 with
  | none => pure (.error .cleanup)
  | some expected => do
    .modify fun s => { s with state := ⟨none, none⟩ }
    let caught ← .catching (invoke p request) (catch_ p)
    let after ← .view World.cleanups
    if caught then do
      let payload ← assume_init fun s => s.state.payload
      .owning (dropPayload p payload) do
        let fault ← downcast p payload
        pure (recovered request fault (after = expected))
    else do
      let executed ← assume_init fun s => s.state.result
      pure (returned executed (after = expected) (after = before))

/-! ## The entry -/

/-- Reports command line usage and terminates. -/
def usage : Code K α := do
  record (.stderr "usage: desenredo-no-std-worker [work|panic|trace]...\n")
  exit .usage

/-- The operational message of a boundary outcome. -/
def Outcome.message : Outcome → Event
  | .complete => .stdout "request completed\n"
  | .recovered => .stdout "request panic recovered\n"
  | .resource => .stderr "request resource allocation failed\n"
  | .backtrace => .stderr "request backtrace failed\n"

/-- Converts one successful boundary outcome into an operational message. -/
def report (outcome : Outcome) : Code K Unit := record outcome.message

/-- Converts one catch-boundary invariant failure into terminal process policy. -/
def boundaryFailure : BoundaryError → Code K α
  | .busy => terminate "nested recoverable request rejected\n" .software
  | .payload => terminate "caught panic payload did not match request\n" .software
  | .cleanup => terminate "request cleanup contract failed\n" .software

/-- Advances one nonzero request identifier without permitting wraparound. -/
def next (id : ℕ) : Code K ℕ :=
  match Usize.checkedAdd id 1 with
  | some next => pure next
  | none => terminate "request identifier exhausted\n" .software

/-- One turn of the request loop, on an argument: the identifier of the next request. -/
def serve (id : ℕ) (argument : List UInt8) : Code K ℕ := do
  match Command.parse argument with
  | none => usage
  | some command => do
    match ← run p ⟨id, command⟩ with
    | .ok outcome => report outcome
    | .error error => boundaryFailure error
    next id

/-- The request loop and what follows it, with `n` turns for the scan of an argument. -/
def loop (m : Mem 64) (n : ℕ) : ℕ → Args → ℕ → Bool → Code K α
  | 0, _, _, _ => .finish .running
  | turns + 1, args, id, handled =>
    match args.next m n with
    | none => .finish .running
    | some none =>
      if handled then do
        record (.stdout "worker completed\n")
        exit .success
      else usage
    | some (some (argument, args)) => do
      let id ← serve p id argument
      loop m n turns args id true

/-- Process entry called with the initial stack pointer. -/
def entry (m : Mem 64) (n : ℕ) (stack : BitVec 64) : Code K α := do
  record (.stdout "desenredo no_std worker ready\n")
  match ProcessStack.fromEntry stack with
  | none => terminate "Linux process stack pointer was null\n" .software
  | some stack =>
    let args := stack.args m
    loop p m n (args.remaining + 1) args 1 false

end Desenredo.Worker
