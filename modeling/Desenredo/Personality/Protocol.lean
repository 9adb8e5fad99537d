import Desenredo.Personality.Context

/-!
# Typed personality dispatch

Raw callback arguments are validated once and turned into phase-specific invocations; what a
typed personality decides is turned back into the reason codes of the interface.
-/

namespace Desenredo.Personality

open Unwind

/-- A malformed personality invocation from the unwinder. -/
inductive ProtocolError where
  /-- The unwinder protocol version is unsupported. -/
  | unsupportedVersion
  /-- The exception pointer was null. -/
  | nullException
  /-- The context pointer was null. -/
  | nullContext
  /-- The action mask contained unknown bits. -/
  | unknownActions
  /-- Neither unwind phase was selected. -/
  | missingPhase
  /-- The action mask requested an impossible state. -/
  | invalidCombination
  /-- The callback class disagreed with the exception header. -/
  | classMismatch
deriving DecidableEq, Repr

/-- The only valid search-phase outcomes. -/
inductive SearchDecision where
  | continue_
  | handlerFound
  | fatal
deriving DecidableEq, Repr

/-- The valid non-handler cleanup outcomes. -/
inductive CleanupDecision where
  | continue_
  | install (context : InstalledContext)
  | fatal

/-- The valid selected-handler outcomes. -/
inductive HandlerDecision where
  | install (context : InstalledContext)
  | fatal

variable [Gimli]

/-- A search-phase personality invocation. -/
structure Search where
  frame : Frame
  exception : ExceptionRef
  class_ : ExceptionClass

/-- A non-handler cleanup-phase personality invocation. -/
structure Cleanup where
  frame : CleanupFrame
  exception : ExceptionRef
  class_ : ExceptionClass
  forced : Bool

/-- The cleanup invocation for the frame selected in phase one. -/
structure Handler where
  frame : CleanupFrame
  exception : ExceptionRef
  class_ : ExceptionClass

/-- What a cleanup-phase method does: its decision, the context it prepared and then dropped, if
it did, and the state `W` it leaves its runtime in. -/
structure Outcome (D W : Type) where
  decision : D
  dropped : Option InstalledContext
  world : W

end Desenredo.Personality

namespace Desenredo

open Personality in
/-- A language personality implemented with typed phase callbacks. -/
structure Personality [Unwind.Gimli] (W : Type) where
  search : Search → W → SearchDecision × W
  cleanup : Cleanup → W → Outcome CleanupDecision W
  handler : Handler → W → Outcome HandlerDecision W

end Desenredo

namespace Desenredo.Personality

open Unwind

variable [Gimli]

/-- One validated personality invocation. -/
inductive Invocation where
  | search (call : Search)
  | cleanup (call : Cleanup)
  | handler (call : Handler)

/-- Validates the raw unwind callback state. -/
def decode (args : Arguments) (memory : Memory) : Except ProtocolError Invocation :=
  if args.version ≠ 1 then .error .unsupportedVersion
  else if args.exception = 0 then .error .nullException
  else
    match args.context with
    | none => .error .nullContext
    | some context =>
      let exception : ExceptionRef := ⟨args.exception, memory⟩
      if exception.class_ ≠ args.class_ then .error .classMismatch
      else if ¬args.actions.known then .error .unknownActions
      else
        match args.actions.has .SEARCH, args.actions.has .CLEANUP, args.actions.has .HANDLER,
          args.actions.has .FORCE with
        | false, false, _, _ => .error .missingPhase
        | true, true, _, _ => .error .invalidCombination
        | true, false, _, true => .error .invalidCombination
        | true, false, true, false => .error .invalidCombination
        | true, false, false, false => .ok (.search ⟨⟨context⟩, exception, args.class_⟩)
        | false, true, true, true => .error .invalidCombination
        | false, true, true, false => .ok (.handler ⟨⟨context⟩, exception, args.class_⟩)
        | false, true, false, forced =>
          .ok (.cleanup ⟨⟨context⟩, exception, args.class_, forced⟩)

variable {W : Type}

/-- The register writes of a context that may have been prepared. -/
def prepared (context : Option InstalledContext) : List (ℤ × ℕ) :=
  (context.map InstalledContext.writes).getD []

/-- The reason code of a search decision. -/
def SearchDecision.reason : SearchDecision → ReasonCode
  | .continue_ => .CONTINUE
  | .handlerFound => .HANDLER
  | .fatal => .FATAL1

/-- The reason code of a cleanup decision. -/
def CleanupDecision.reason : CleanupDecision → ReasonCode
  | .continue_ => .CONTINUE
  | .install _ => .INSTALL
  | .fatal => .FATAL2

/-- The context a cleanup decision hands over. -/
def CleanupDecision.context : CleanupDecision → Option InstalledContext
  | .install context => some context
  | _ => none

/-- A handler decision among those of the cleanup phase. -/
def HandlerDecision.cleanup : HandlerDecision → CleanupDecision
  | .install context => .install context
  | .fatal => .fatal

/-- The reply to a raw callback for the outcome of a cleanup-phase method. -/
def Outcome.reply (o : Outcome CleanupDecision W) (memory : Memory) : Reply W :=
  ⟨o.decision.reason, prepared o.dropped ++ prepared o.decision.context, ⟨memory, o.world⟩⟩

/-- Dispatches one raw personality callback to a typed implementation. -/
def dispatch (P : Personality W) : PersonalityFn W := fun args host =>
  match decode args host.memory with
  | .ok (.search call) =>
    let (decision, world) := P.search call host.world
    ⟨decision.reason, [], ⟨host.memory, world⟩⟩
  | .ok (.cleanup call) => (P.cleanup call host.world).reply host.memory
  | .ok (.handler call) =>
    let outcome := P.handler call host.world
    Outcome.reply ⟨outcome.decision.cleanup, outcome.dropped, outcome.world⟩ host.memory
  | .error _ => ⟨if args.actions.has .CLEANUP then .FATAL2 else .FATAL1, [], host⟩

end Desenredo.Personality
