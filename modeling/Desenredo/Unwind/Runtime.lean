import Desenredo.Library.Loop
import Desenredo.Unwind.Callback

/-!
# The level I runtime

The four loops of the unwinder over the frames of a stack: the search for a handler, the
cleanup phase towards it, forced unwinding and the backtrace walk. Each is a loop body for
`Loop.run` that logs the frames it resolves and the callbacks it makes. The entry points run
one pass or two of them and keep what a later resume needs in the exception header.
-/

namespace Desenredo.Unwind

variable [Gimli] {W : Type}

/-- Itanium personality protocol version supported by this adapter. -/
def VERSION : ℤ := 1

/-! ## Resume state -/

/-- Forced unwind state retained in the exception private words. -/
structure Forced where
  /-- Address of the stop function controlling the traversal. -/
  stop : ℕ
  /-- Opaque parameter forwarded to the stop function. -/
  parameter : ℕ
deriving DecidableEq, Repr

/-- Resume state encoded in the two private words of an exception. -/
inductive Resume where
  /-- Normal phase two using the handler selected during phase one. -/
  | normal (handler : Key)
  /-- Single-phase forced traversal controlled by a stop function. -/
  | forced (forced : Forced)
deriving DecidableEq, Repr

namespace Resume

/-- The private words of a resume state. -/
def words : Resume → ℕ × ℕ
  | .normal handler => (0, handler.get)
  | .forced f => (f.stop, f.parameter)

/-- The resume state the private words stand for. -/
def ofWords (words : ℕ × ℕ) : Resume :=
  if words.1 = 0 then .normal ⟨words.2⟩ else .forced ⟨words.1, words.2⟩

/-- Stores one resume state in the active exception object. -/
def write (resume : Resume) (exception : ℕ) (memory : Memory) : Memory :=
  Exception.writeWords memory exception resume.words

/-- Recovers the resume state stored by this unwinder. -/
def read (memory : Memory) (exception : ℕ) : Resume :=
  ofWords (Exception.load memory exception).words

end Resume

/-! ## Passes -/

/-- One active propagation pass: what its turns do not change. -/
structure Walk (W : Type) where
  unwinder : Unwinder
  code : Code W
  exception : ℕ
  class_ : ExceptionClass

/-- What the turns of a pass change. -/
structure Position (W : Type) where
  cursor : Cursor
  host : Host W

/-- One call of a personality routine or a stop function. -/
structure Call (W : Type) where
  args : Arguments
  host : Host W
  reply : Reply W

/-- What a pass does. -/
inductive Event (W : Type) where
  /-- It resolved the frame its cursor stands on. -/
  | frame (cursor : Cursor) (info : Info)
  | stop (call : Call W)
  | personality (call : Call W)
  /-- It called the function of a backtrace walk. -/
  | visit (callback : Callback) (reply : Reply W)

/-- How an entry point ends. -/
inductive Exit where
  | returned (reason : ReasonCode)
  /-- Control went to a landing pad with these registers. -/
  | installed (registers : Registers)
  | trapped

/-- How an entry point that must not return ends: returning is a trap. -/
def Exit.diverge : Exit → Exit
  | .returned _ => .trapped
  | exit => exit

/-- What calling the personality of a frame comes to. -/
structure Answer (W : Type) where
  log : List (Event W)
  result : Except UnwindError (Option ReasonCode)
  position : Position W

namespace Walk

/-- A pass for the exception at an address. -/
def new (U : Unwinder) (code : Code W) (exception : ℕ) (host : Host W) : Walk W :=
  ⟨U, code, exception, (Exception.load host.memory exception).class_⟩

variable (w : Walk W)

/-- The arguments of a call with the context of a cursor. -/
def args (cursor : Cursor) (frame : Option Info) (actions : Actions) : Arguments :=
  ⟨VERSION, actions, w.class_, w.exception, some ⟨cursor, frame⟩⟩

/-- One call of a function with the context of a position. -/
def call (s : Position W) (frame : Option Info) (actions : Actions) (f : PersonalityFn W) :
    Call W :=
  let args := w.args s.cursor frame actions
  ⟨args, s.host, f args s.host⟩

/-- The position after a callback returned. -/
def after (s : Position W) (frame : Option Info) (reply : Reply W) : Position W :=
  ⟨((Callback.mk s.cursor frame).replay reply.writes).cursor, reply.host⟩

/-- One call of the stop function of a forced traversal. -/
def stopCall (s : Position W) (frame : Option Info) (actions : Actions) (forced : Forced) :
    Call W :=
  w.call s frame actions fun args => w.code.stop forced.stop args forced.parameter

/-- The nonzero address of the personality routine of a frame, when it has one. -/
def routine (info : Info) : Except UnwindError (Option ℕ) := do
  match ← info.personality w.unwinder with
  | none => .ok none
  | some address => if address = 0 then .error .address else .ok (some address)

/-- Invokes the personality of the current frame. -/
def personality (s : Position W) (info : Info) (actions : Actions) : Answer W :=
  match w.routine info with
  | .error error => ⟨[], .error error, s⟩
  | .ok none => ⟨[], .ok none, s⟩
  | .ok (some address) =>
    let call := w.call s (some info) actions (w.code.personality address)
    ⟨[.personality call], .ok (some call.reply.reason), after s (some info) call.reply⟩

/-- Moves to the caller, or leaves with a result. -/
def advance {ρ : Type} (s : Position W) (log : List (Event W)) (info : Info) (failed : ρ) :
    Turn (Position W) (Event W) (ρ × Host W) :=
  match s.cursor.advance w.unwinder info with
  | (.ok (), cursor) => .again log ⟨cursor, s.host⟩
  | (.error _, _) => .done log (failed, s.host)

/-- Installs the landing pad a personality prepared. -/
def transfer (cursor : Cursor) (info : Info) : Exit :=
  match cursor.adjust info.args with
  | (.error _, _) => .returned .FATAL2
  | (.ok (), cursor) =>
    match cursor.take.install with
    | .error _ => .returned .FATAL2
    | .ok install => .installed install.registers

/-- One turn of the search for a handler. -/
def searchTurn (s : Position W) :
    Turn (Position W) (Event W) (Except ReasonCode Key × Host W) :=
  match s.cursor.current w.unwinder with
  | .error _ => .done [] (.error .FATAL1, s.host)
  | .ok none => .done [] (.error .END, s.host)
  | .ok (some info) =>
    let answer := w.personality s info .SEARCH
    let log := .frame s.cursor info :: answer.log
    match answer.result with
    | .ok none | .ok (some .CONTINUE) => w.advance answer.position log info (.error .FATAL1)
    | .ok (some .HANDLER) =>
      .done log (answer.position.cursor.key.mapError fun _ => .FATAL1, answer.position.host)
    | .ok (some _) | .error _ => .done log (.error .FATAL1, answer.position.host)

/-- The action mask of phase two for a frame with a key. -/
def mask (handler key : Key) : Actions := if key = handler then .CLEANUP ||| .HANDLER else .CLEANUP

/-- One turn of normal phase two. -/
def normalTurn (handler : Key) (s : Position W) :
    Turn (Position W) (Event W) (Exit × Host W) :=
  match s.cursor.current w.unwinder with
  | .ok none | .error _ => .done [] (.returned .FATAL2, s.host)
  | .ok (some info) =>
    match s.cursor.key with
    | .error _ => .done [.frame s.cursor info] (.returned .FATAL2, s.host)
    | .ok key =>
      let selected : Bool := key = handler
      let answer := w.personality s info (mask handler key)
      let log := .frame s.cursor info :: answer.log
      match selected, answer.result with
      | _, .ok (some .INSTALL) =>
        .done log (transfer answer.position.cursor info, answer.position.host)
      | false, .ok none | false, .ok (some .CONTINUE) =>
        w.advance answer.position log info (.returned .FATAL2)
      | true, .ok none | true, .ok (some .CONTINUE) | _, .ok (some _) | _, .error _ =>
        .done log (.returned .FATAL2, answer.position.host)

/-- The action mask of the stop function: with the end bit when no frame is left. -/
def stopMask (frame : Option Info) : Actions :=
  if frame.isSome then .FORCE ||| .CLEANUP else .FORCE ||| .CLEANUP ||| .END

/-- One turn of a forced cleanup pass. -/
def forceTurn (forced : Forced) (s : Position W) :
    Turn (Position W) (Event W) (Exit × Host W) :=
  match s.cursor.current w.unwinder with
  | .error _ => .done [] (.returned .FATAL2, s.host)
  | .ok info =>
    let stop := w.stopCall s info (stopMask info) forced
    let t := after s info stop.reply
    match stop.reply.reason, info with
    | .NONE, none => .done [.stop stop] (.returned .END, t.host)
    | .NONE, some info =>
      let answer := w.personality t info (.FORCE ||| .CLEANUP)
      let log := .frame s.cursor info :: .stop stop :: answer.log
      match answer.result with
      | .ok none | .ok (some .CONTINUE) =>
        w.advance answer.position log info (.returned .FATAL2)
      | .ok (some .INSTALL) =>
        .done log (transfer answer.position.cursor info, answer.position.host)
      | .ok (some _) | .error _ => .done log (.returned .FATAL2, answer.position.host)
    | _, info =>
      .done ((info.map (Event.frame s.cursor)).toList ++ [.stop stop]) (.returned .FATAL2, t.host)

variable (n : ℕ) (state : State) (host : Host W)

/-- Searches older physical frames for one handler, for at most `n` turns. -/
def search : List (Event W) × Option (Except ReasonCode Key × Host W) :=
  Loop.run w.searchTurn n ⟨.new state, host⟩

/-- Runs normal phase two from one physical root, for at most `n` turns. -/
def normal (handler : Key) : List (Event W) × Option (Exit × Host W) :=
  Loop.run (w.normalTurn handler) n ⟨.new state, host⟩

/-- Runs one forced cleanup pass from one physical root, for at most `n` turns. -/
def force (forced : Forced) : List (Event W) × Option (Exit × Host W) :=
  Loop.run (w.forceTurn forced) n ⟨.new state, host⟩

/-! ## Entry points -/

variable (U : Unwinder) (code : Code W) (exception : ℕ)

/-- Starts a fresh normal propagation, each phase for at most `n` turns. -/
def begin : List (Event W) × Option (Exit × Host W) :=
  let w := new U code exception host
  match w.search n state host with
  | (log, none) => (log, none)
  | (log, some (.error reason, host)) => (log, some (.returned reason, host))
  | (log, some (.ok handler, host)) =>
    let host := { host with memory := (Resume.normal handler).write exception host.memory }
    let pass := w.normal n state host handler
    (log ++ pass.1, pass.2)

/-- Starts normal two-phase exception propagation. -/
def raise : List (Event W) × Option (Exit × Host W) :=
  if exception = 0 then ([], some (.returned .FATAL1, host))
  else begin n state host U code exception

/-- Starts a forced single-phase unwind. -/
def forced (f : Forced) : List (Event W) × Option (Exit × Host W) :=
  if exception = 0 then ([], some (.returned .FATAL2, host))
  else
    let w := new U code exception host
    let host := { host with memory := (Resume.forced f).write exception host.memory }
    w.force n state host f

/-- Runs the pass a resume state asks for. -/
def continue_ : Resume → List (Event W) × Option (Exit × Host W)
  | .normal handler => w.normal n state host handler
  | .forced f => w.force n state host f

/-- Resumes the active unwind after one cleanup landing pad. It never returns. -/
def resume : List (Event W) × Option (Exit × Host W) :=
  if exception = 0 then ([], some (.trapped, host))
  else
    let w := new U code exception host
    let pass := w.continue_ n state host (Resume.read host.memory exception)
    (pass.1, pass.2.map fun result => (result.1.diverge, result.2))

/-- Resumes forced propagation or starts a fresh normal rethrow. -/
def rethrow : List (Event W) × Option (Exit × Host W) :=
  if exception = 0 then ([], some (.returned .FATAL2, host))
  else
    match Resume.read host.memory exception with
    | .normal _ => begin n state host U code exception
    | .forced f => (new U code exception host).force n state host f

/-- One turn of a backtrace walk. -/
def traceTurn (visit : TraceFn W) (parameter : ℕ) (s : Position W) :
    Turn (Position W) (Event W) (ReasonCode × Host W) :=
  match s.cursor.current U with
  | .ok none => .done [] (.END, s.host)
  | .error _ => .done [] (.FATAL1, s.host)
  | .ok (some info) =>
    let callback : Callback := ⟨s.cursor, some info⟩
    let reply := visit (some callback) parameter s.host
    let t := after s (some info) reply
    let log := [.frame s.cursor info, .visit callback reply]
    match reply.reason with
    | .NONE =>
      match t.cursor.advance U info with
      | (.ok (), cursor) => .again log ⟨cursor, t.host⟩
      | (.error _, _) => .done log (.FATAL1, t.host)
    | _ => .done log (.FATAL1, t.host)

/-- Walks physical frames without executing cleanup landing pads, for at most `n` turns. -/
def trace (visit : TraceFn W) (parameter : ℕ) :
    List (Event W) × Option (ReasonCode × Host W) :=
  Loop.run (traceTurn U visit parameter) n ⟨.new state, host⟩

end Walk

end Desenredo.Unwind
