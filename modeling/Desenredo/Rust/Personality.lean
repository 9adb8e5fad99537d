import Desenredo.Personality.Protocol
import Desenredo.Personality.Source
import Desenredo.Rust.Action

/-!
# The Rust personality

The policy requests cleanup landing pads for Rust and foreign exceptions alike: whose exception
it is matters to the payload of a catch and not to the selection of a landing pad.
-/

namespace Desenredo.Rust

open Personality
open Unwind (Gimli Unwinder)

variable [Gimli] [PointerEncoding] {E W : Type} (U : Unwinder) (S : Source E)

namespace Policy

/-- Resolves the action for one live unwind frame. -/
def action (frame : Personality.Frame) : Except Unit Action := do
  match ← S.table U frame with
  | none => .ok .none
  | some lsda => (scan lsda frame.ip.site).mapError fun _ => ()

omit [PointerEncoding] in
/-- Prepares the phase two context for one validated landing pad. -/
def install (frame : CleanupFrame) (exception : ExceptionRef) (pad : Pad) : InstalledContext :=
  frame.install ⟨pad.addr⟩ exception ⟨0⟩

/-- Phase one stops at catch and filter landing pads. -/
def search (call : Search) : SearchDecision :=
  match action U S call.frame with
  | .ok .none | .ok (.cleanup _) => .continue_
  | .ok (.catch _) | .ok (.filter _) => .handlerFound
  | .ok .terminate | .error () => .fatal

/-- Cleanup runs every landing pad; forced unwinding passes over filters. -/
def cleanup (call : Cleanup) : CleanupDecision :=
  match action U S call.frame.frame, call.forced with
  | .ok .none, _ => .continue_
  | .ok (.filter _), true => .continue_
  | .ok (.cleanup pad), _ | .ok (.catch pad), _ | .ok (.filter pad), false =>
    .install (install call.frame call.exception pad)
  | .ok .terminate, _ | .error (), _ => .fatal

/-- The selected frame runs its catch or filter landing pad. -/
def handler (call : Handler) : HandlerDecision :=
  match action U S call.frame.frame with
  | .ok (.catch pad) | .ok (.filter pad) => .install (install call.frame call.exception pad)
  | _ => .fatal

end Policy

/-- Rust personality policy backed by one table source. It keeps no state. -/
def policy : Personality W where
  search call world := (Policy.search U S call, world)
  cleanup call world := ⟨Policy.cleanup U S call, none, world⟩
  handler call world := ⟨Policy.handler U S call, none, world⟩

end Desenredo.Rust
