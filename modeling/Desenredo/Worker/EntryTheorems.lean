import Desenredo.Worker.ServiceTheorems

/-!
# Whole runs of the worker

From the initial stack to the end of the process: the worker serves the requests its arguments ask
for, one after the other up to the first that asks for none, and ends with the status that says
whether there was such a one.
-/

namespace Desenredo.Worker

open Routine

variable {K α : Type} {p : Platform K} {s t : World K} {handled : Bool} {id serial n turns : ℕ}
  {m : Mem 64} {cursor stack : BitVec 64} {argument : List UInt8}
  {arguments argv : List (List UInt8)}

/-! ## What is asked for -/

/-- The requests of the arguments in front of the first that asks for none. -/
def commands : List (List UInt8) → List Command
  | [] => []
  | argument :: arguments =>
    match Command.parse argument with
    | some command => command :: commands arguments
    | none => []

/-- There are requests, and every argument asks for one. -/
def Proper (handled : Bool) (arguments : List (List UInt8)) : Prop :=
  (handled ∨ arguments ≠ []) ∧ ∀ argument ∈ arguments, (Command.parse argument).isSome

instance (handled : Bool) (arguments : List (List UInt8)) : Decidable (Proper handled arguments) :=
  inferInstanceAs (Decidable (_ ∧ _))

/-- The status of a process with these arguments. -/
def status (handled : Bool) (arguments : List (List UInt8)) : ExitCode :=
  if Proper handled arguments then .success else .usage

/-- The last message of a process with these arguments. -/
def farewell (handled : Bool) (arguments : List (List UInt8)) : Event :=
  if Proper handled arguments then .stdout "worker completed\n"
  else .stderr "usage: desenredo-no-std-worker [work|panic|trace]...\n"

/-- What serving requests one after the other does, the first with an identifier and with a number
of panics before it. -/
inductive Transcript : ℕ → ℕ → List Command → List Event → Prop
  | nil (id serial : ℕ) : Transcript id serial [] []
  | cons {id serial : ℕ} {command : Command} {outcome : Outcome} {log rest : List Event}
      {commands : List Command} : Served ⟨id, command⟩ serial outcome log →
      Transcript (id + 1) (serial + outcome.panics) commands rest →
      Transcript id serial (command :: commands) (log ++ outcome.message :: rest)

theorem proper_cons {command : Command} (h : Command.parse argument = some command)
    (handled : Bool) (arguments : List (List UInt8)) :
    Proper handled (argument :: arguments) ↔ Proper true arguments := by
  simp [Proper, h]

/-- One request was served and reported. -/
structure Turned (s : World K) (id : ℕ) (command : Command) (next : ℕ) (t : World K) : Prop where
  next : next = id + 1
  idle : Idle t
  cleanups : t.cleanups ≤ s.cleanups + 1
  served : ∃ outcome log, Served ⟨id, command⟩ s.raised.length outcome log ∧
    t.raised.length = s.raised.length + outcome.panics ∧
    t.log = s.log ++ (log ++ [outcome.message])

/-- What the loop leaves when the process is over. -/
def Over (s : World K) (handled : Bool) (id : ℕ) (arguments : List (List UInt8))
    (ended : Status) (t : World K) : Prop :=
  Idle t ∧ ended = .exit (status handled arguments).get ∧ ∃ log,
    Transcript id s.raised.length (commands arguments) log ∧
    t.log = s.log ++ (log ++ [farewell handled arguments])

/-- What is over behind a request is over from it on. -/
theorem Over.cons {command : Command} {next : ℕ} {ended : Status} {u : World K}
    (hparse : Command.parse argument = some command) (hturned : Turned s id command next t)
    (h : Over t true next arguments ended u) :
    Over s handled id (argument :: arguments) ended u := by
  obtain ⟨rfl, -, -, outcome, log, hserved, hraised, hlog⟩ := hturned
  obtain ⟨hover, hended, last, htranscript, hlast⟩ := h
  have hproper := proper_cons hparse handled arguments
  refine ⟨hover, by rw [hended, status, status]; simp only [hproper],
    log ++ outcome.message :: last, ?_, ?_⟩
  · rw [commands, hparse]
    exact .cons hserved (hraised ▸ htranscript)
  · rw [hlast, hlog, farewell, farewell]
    simp only [hproper, List.append_assoc, List.cons_append, List.nil_append]

/-- The world in front of the first request. -/
def World.ready (kernel : K) : World K :=
  { World.new kernel with log := [.stdout "desenredo no_std worker ready\n"] }

end Desenredo.Worker
