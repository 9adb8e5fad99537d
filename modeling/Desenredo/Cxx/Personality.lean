import Desenredo.Cxx.Scan
import Desenredo.Personality.Protocol
import Desenredo.Personality.Source

/-!
# The C++ personality

The policy over one table source and one runtime matcher. Looking for cleanup work needs no
matching; both searching for a handler and restoring it scan the clauses of the call site.
-/

namespace Desenredo.Cxx

open Personality
open Unwind (Gimli Unwinder)

variable [Gimli] [PointerEncoding] {E F W : Type} (U : Unwinder) (S : Source E) (M : Matcher W F)

namespace Policy

/-- Bounds and parses the table attached to one live frame. -/
def lsda (frame : Personality.Frame) : Except Unit (Option Lsda) := S.table U frame

omit [PointerEncoding] in
/-- Prepares one selected landing pad for phase two installation. -/
def install (frame : CleanupFrame) (exception : ExceptionRef) (pad : Pad) (selector : Selector) :
    InstalledContext :=
  frame.install ⟨pad.addr⟩ exception selector

/-- Phase one stops at a clause that matches. -/
def search (call : Search) (world : W) : SearchDecision × W :=
  match lsda U S call.frame with
  | .ok none => (.continue_, world)
  | .error () => (.fatal, world)
  | .ok (some lsda) =>
    match Cxx.search M lsda call.frame.ip.site call.exception call.class_ world with
    | (.ok .none, world) | (.ok (.cleanup _), world) => (.continue_, world)
    | (.ok (.handler _ _), world) => (.handlerFound, world)
    | (.ok .terminate, world) | (.error _, world) => (.fatal, world)

/-- Cleanup runs landing pads with cleanup work, with selector zero. -/
def cleanup (call : Cleanup) : CleanupDecision :=
  match lsda U S call.frame.frame with
  | .ok none => .continue_
  | .error () => .fatal
  | .ok (some lsda) =>
    match clean lsda call.frame.frame.ip.site with
    | .ok .none => .continue_
    | .ok (.cleanup pad) => .install (install call.frame call.exception pad ⟨0⟩)
    | .ok (.handler _ _) | .ok .terminate | .error _ => .fatal

/-- The selected frame runs the landing pad of the clause that matches. -/
def handler (call : Handler) (world : W) : HandlerDecision × W :=
  match lsda U S call.frame.frame with
  | .ok (some lsda) =>
    match Cxx.handler M lsda call.frame.frame.ip.site call.exception call.class_ world with
    | (.ok (.handler pad selector), world) =>
      (.install (install call.frame call.exception pad selector), world)
    | (_, world) => (.fatal, world)
  | .ok none | .error () => (.fatal, world)

end Policy

/-- C++ personality policy backed by one table source and one runtime matcher. -/
def policy : Personality W where
  search := Policy.search U S M
  cleanup call world := ⟨Policy.cleanup U S call, none, world⟩
  handler call world :=
    let outcome := Policy.handler U S M call world
    ⟨outcome.1, none, outcome.2⟩

end Desenredo.Cxx
