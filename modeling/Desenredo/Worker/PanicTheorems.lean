import Desenredo.Personality.ScopeTheorems
import Desenredo.Worker.ServiceTheorems

/-!
# The panic of a request in the unwinder

The process is told that its boundary takes the panic of a request. In the machine the unwinder goes
from one landing pad to the next. When the frames around the panic have the scopes of the request,
the landing pads of every propagation do to the process what the boundary says.
-/

namespace Desenredo.Worker

open Routine (Scope catching owning nest quiet raising run_bind_of_value)
open Personality Unwind

variable {K : Type} {p : Platform K} {s t : World K} {request : Request} {page exception : ℕ}

/-- The world of a request that is about to panic: its scope is entered and its page written. -/
def World.running (p : Platform K) (request : Request) (page : ℕ) (s : World K) : World K :=
  { s with active := request.id, kernel := (p.mmap s.kernel).2,
           log := s.log ++ [.mapped page] ++ [.touched page request.id] }

/-- The scopes around the panic of a request. -/
def scopes (p : Platform K) (request : Request) (page : ℕ) : List (Scope (World K) ℕ Status) :=
  [.owning (Mapping.drop p page), .owning (RequestScope.drop request.id), .catching (catch_ p)]

/-- A request that panics leaves its callback as code does that raises in its scopes. -/
theorem invoke_escapes (hcommand : request.command = .panic) (hactive : s.active = 0)
    (hmap : (p.mmap s.kernel).1 = some page)
    (hraise : (simulatedPanic p : Code K (Except ServiceError Unit)).run true
      (s.running p request page) = (.raised exception, t)) :
    Routine.Escapes ((invoke p request).run true s)
      ((owning (RequestScope.drop request.id) (owning (Mapping.drop p page)
        (raising (pure ()) exception (pure ())))).run true t) := by
  let entered : World K := { s with active := request.id }
  let mapped : World K := { entered with kernel := (p.mmap s.kernel).2,
                                         log := s.log ++ [.mapped page] }
  have henter : (RequestScope.enter request.id : Code K (Option ℕ)).run true s =
      (.value (some request.id), entered) := by
    simp only [RequestScope.enter, Routine.step, hactive, if_true, entered]
  have hnew : (Mapping.new p : Code K (Except ServiceError ℕ)).run true entered =
      (.value (.ok page), mapped) := by
    have hcall : (call p.mmap : Code K (Option ℕ)).run true entered =
        (.value (some page), { entered with kernel := (p.mmap s.kernel).2 }) := by
      rw [← hmap]
      rfl
    rw [Mapping.new, run_bind_of_value hcall]
    rfl
  have htouch : (Mapping.touch page request.id : Code K Unit).run true mapped =
      (.value (), s.running p request page) := rfl
  rw [invoke, run_bind_of_value henter]
  refine .bind (.owning (.bind ?_))
  rw [execute, run_bind_of_value hnew]
  refine .owning ?_
  rw [run_bind_of_value htouch, hcommand]
  exact hraise ▸ .raised exception t

/-- What acts behind the handler of a panicking request is nothing. -/
theorem older_passes {inner older frames : List (Scope (World K) ℕ Status)}
    {handler : ℕ → Code K Unit} (hframes : frames.filter Scope.acts = scopes p request page)
    (h : frames = inner ++ .catching handler :: older) : older.filter Scope.acts = [] := by
  have hcatch : (Scope.catching handler :: older).filter Scope.acts =
      .catching handler :: older.filter Scope.acts := rfl
  rw [h, List.filter_append, hcatch, scopes] at hframes
  -- the catch is the last of the three that act
  generalize inner.filter Scope.acts = acting at hframes
  rcases acting with _ | ⟨first, _ | ⟨second, _ | ⟨third, inner⟩⟩⟩
  · simp at hframes
  · simp at hframes
  · simp only [List.cons_append, List.nil_append, List.cons.injEq] at hframes
    exact hframes.2.2.2
  · simp at hframes

/-- **Panics.** A request panics on a stack whose frames have the scopes around the panic and
otherwise pass. In every propagation of its exception the landing pads gone to so far, the one a
pass goes to and those to come, run one after the other, do to the process what the request does
under its boundary: the page is released, the scope of the request is left and the packet taken. -/
theorem panic_lands [Gimli] [PointerEncoding] {W : Type} {w : Walk W} {key : Key}
    {first as : List Activation} {taken : List (Key × LandingPad × Selector)} {exit : Exit}
    {host : Host W} {code : LandingPad → ℕ → Code K Unit}
    {frames : List (Scope (World K) ℕ Status)} (hstandard : PointerEncoding.Standard)
    (hp : w.exception ≠ 0) (hcommand : request.command = .panic) (hactive : s.active = 0)
    (hmap : (p.mmap s.kernel).1 = some page)
    (hraise : (simulatedPanic p : Code K (Except ServiceError Unit)).run true
      (s.running p request page) = (.raised w.exception, t))
    (hframes : frames.filter Scope.acts = scopes p request page)
    (hlowers : Lowers code frames first) (hcourse : Course w key first taken as exit host) :
    ∃ landing rest, landings as = landing :: rest ∧
      landing.Taken ⟨w.exception, host.memory⟩ exit ∧
      ∀ handled, (do let _ ← catching (invoke p request) (catch_ p)
                     pure () : Code K Unit).run handled s =
        (runPads code w.exception (taken.map (fun mark => mark.2.1) ++
          landing.pad :: rest.map Landing.pad)).run handled t := by
  obtain ⟨landing, rest, hlanded⟩ := hcourse.landed hstandard hp
  refine ⟨landing, rest, hlanded.stack, hlanded.went, fun handled => ?_⟩
  let body : Code K Unit := raising (pure ()) w.exception (pure ())
  obtain ⟨inner, handler, older, last, hinner, -, -, hrun⟩ :=
    nest_lands hlowers hcourse.sought (pure ()) w.exception (pure ()) handled
  rw [pads_of_marks hlanded.marks] at hrun
  have hescapes := invoke_escapes hcommand hactive hmap hraise
  have hcaught : (catching (invoke p request) (catch_ p)).run handled s =
      (catching (owning (RequestScope.drop request.id) (owning (Mapping.drop p page) body))
        (catch_ p)).run handled t := hescapes.catching
  calc (do let _ ← catching (invoke p request) (catch_ p)
           pure () : Code K Unit).run handled s
      = (nest (scopes p request page) body).run handled t := by
        simp only [scopes, nest, bind, hcaught]
    _ = (nest frames body).run handled t := by rw [← hframes, Routine.nest_filter]
    _ = _ := by
        rw [hrun, ← Routine.nest_filter, older_passes hframes hinner]
        rfl

namespace Recovery

attribute [local instance] Gimli.decoded PointerEncoding.bits

/-- Three calls of a function: two that own something and, around them, one that catches. -/
def table : ExceptionTable where
  types := [0x5000]
  specifications := []
  nodes := [⟨.catch 0, none⟩]
  regions := [⟨0, 5, 0x50, none⟩, ⟨5, 5, 0x54, none⟩, ⟨10, 5, 0x58, some 0⟩]
  listed := by decide
  purposed := by decide
  earlier := by
    rintro (_ | i) node hnode
    all_goals cases hnode
    decide
  acted := by decide

theorem fits : TableEncoding.relative.Fits table (.new 0x1000 0x2000) [0x00] [0x07] where
  slice := by decide
  space := by decide
  landing := nofun
  regions := by
    unfold TableEncoding.Holds
    decide
  types := by
    rintro (_ | i) addr haddr
    all_goals cases haddr
    decide

/-- The function that raises has no personality. -/
def bare : Fde := ⟨⟨8, false, 1⟩, 0x3000, false, none, none⟩

def rows : ℕ → Option (Fde × Row)
  | 0x3002 => some (bare, Recursion.row 0x2003)
  | 0x2002 => some (Recursion.fde, Recursion.row 0x2007)
  | 0x2006 => some (Recursion.fde, Recursion.row 0x200c)
  | 0x200b => some (Recursion.fde, Recursion.row 0)
  | _ => none

def unwinder : Unwinder := .decoded rows

def source : Source Unit where
  bytes _ := .ok (some (0x1000,
    TableEncoding.relative.write table (.new 0x1000 0x2000) [0x00] [0x07]))
  text _ := none
  data _ := none

def code : Unwind.Code Unit :=
  ⟨fun _ => dispatch (Rust.policy unwinder source), fun _ _ _ host => ⟨.NONE, [], host⟩⟩

/-- A pass for the packet of the panic. -/
def walk : Walk Unit := .new unwinder code 4096 Recursion.host

def info (site : ℕ) (fde : Fde) (back : ℕ) : Info where
  image := ⟨rows, ⟨some 0, some 0, none⟩, 0, Usize.size, none, Recursion.image_range,
    Recursion.image_text, Recursion.image_got⟩
  fde := fde
  row := Recursion.row back
  instruction := site

/-- The call around another. -/
def around (a : Activation) (site back key : ℕ) (verdict : Verdict) : Activation :=
  ⟨(a.cursor.advance unwinder a.info).2, info site Recursion.fde back, ⟨key⟩, verdict⟩

/-- The landing pads of the function. -/
def pagePad : LandingPad := ⟨⟨0x2050, by decide⟩⟩

def scopePad : LandingPad := ⟨⟨0x2054, by decide⟩⟩

def catchPad : LandingPad := ⟨⟨0x2058, by decide⟩⟩

def raiser : Activation :=
  ⟨.new (Recursion.state 0x3003), info 0x3002 bare 0x2003, ⟨1000⟩, .pass⟩

def mapper : Activation := around raiser 0x2002 0x2007 1008 (.cleanup pagePad)

def invoker : Activation := around mapper 0x2006 0x200c 1016 (.cleanup scopePad)

def boundary : Activation := around invoker 0x200b 0 1024 (.handler catchPad ⟨0⟩)

/-- A frame of the function has what its table gives. -/
theorem compiled {a : Activation} (hlsda : a.frame.lsda unwinder = some ⟨0x1000, by decide⟩)
    (hroutine : walk.routine a.info = .ok (some 500)) (hstart : a.frame.start = 0x2000)
    (hinside : 0x2000 ≤ a.frame.ip.site)
    (hverdict : a.verdict = (table.rustAction 0x2000 (a.frame.ip.site - 0x2000)).verdict) :
    Compiled walk a := by
  have hbases : source.bases a.frame 0x1000 = .new 0x1000 0x2000 := by
    rw [← hstart]
    rfl
  have hlanding : source.landingBase .relative ⟨0x1000, by decide⟩ a.frame = 0x2000 := hstart
  refine .rust (F := .relative) hroutine rfl
    ⟨hlsda, ⟨_, _, rfl, hbases ▸ fits⟩, rfl, ⟨by decide, by decide⟩, hstart ▸ hinside⟩ ?_
  rw [Activation.offset, hstart, hlanding, hverdict]

theorem raised :
    Program walk [raiser, mapper, invoker, boundary] (Recursion.state 0x3003) where
  stacked := .frame rfl (Cursor.key_new rfl (by decide)) rfl (.frame rfl rfl rfl
    (.frame rfl rfl rfl (.frame rfl rfl rfl (.bottom rfl))))
  compiled := List.forall_mem_cons.2 ⟨.bare rfl rfl, List.forall_mem_cons.2
    ⟨compiled rfl rfl rfl (by decide) rfl, List.forall_mem_cons.2
      ⟨compiled rfl rfl rfl (by decide) rfl, List.forall_mem_singleton.2
        (compiled rfl rfl rfl (by decide) rfl)⟩⟩⟩
  nodup := by decide

end Recovery

open Recovery in
/-- The page of a request is released, then its scope, and then the packet is taken. -/
theorem panic_lands_recovery :
    let _ := Gimli.decoded
    let _ := PointerEncoding.bits
    let p : Platform ℕ := ⟨fun k => (some 8192, k), fun _ k => (true, k), fun k => (k, k + 16),
      fun k => ((0, 0), k), fun k => (.ok (), k), 5, ⟨⟨1, 2, 3⟩, fun _ => true, by decide⟩⟩
    ∃ exit host t, Course walk ⟨1024⟩ [raiser, mapper, invoker, boundary] []
        [raiser, mapper, invoker, boundary] exit host ∧
      (do let _ ← catching (invoke p ⟨7, .panic⟩) (catch_ p)
          pure () : Code ℕ Unit).run false (.new 4080) = (.value (), t) ∧
      t.active = 0 ∧ t.log = [.mapped 8192, .touched 8192 7, .boxed 4080 7, .unmapped 8192,
        .panic (.released 0)] := by
  intro _ _ p
  have hp : walk.exception ≠ 0 := by decide
  have hstart : Live walk Recursion.host := rfl
  obtain ⟨log, exit, host, -, -, hbegin, -⟩ :=
    (begin_lands (n := 5) PointerEncoding.standard_bits hp raised hstart (by decide)).2 _ rfl
  have hcourse := Course.raise (n := 5) hstart raised rfl (by decide) ((if_neg hp).trans hbegin)
  let pads (pad : LandingPad) : ℕ → Code ℕ Unit :=
    if pad = pagePad then fun _ => quiet (Mapping.drop p 8192)
    else if pad = scopePad then fun _ => quiet (RequestScope.drop 7)
    else catch_ p
  have hlowers : Lowers pads (.pass :: scopes p ⟨7, .panic⟩ 8192)
      [raiser, mapper, invoker, boundary] :=
    .cons .pass (.cons (.owning fun _ => rfl) (.cons (.owning fun _ => rfl)
      (.cons (.catching rfl) .nil)))
  obtain ⟨landing, rest, hlandings, -, hrun⟩ :=
    panic_lands (p := p) (s := .new 4080) PointerEncoding.standard_bits hp
      (rfl : Request.command ⟨7, .panic⟩ = .panic) rfl rfl rfl rfl hlowers hcourse
  obtain ⟨rfl, rfl⟩ := List.cons.inj hlandings
  exact ⟨exit, host, _, hcourse, (hrun false).trans rfl, rfl, rfl⟩

end Desenredo.Worker
