import Desenredo.Cxx.Personality
import Desenredo.Cxx.TableTheorems
import Desenredo.Personality.LandingTheorems
import Desenredo.Personality.SiteTheorems
import Desenredo.Rust.TableTheorems
import Desenredo.Unwind.ResumeTheorems

/-!
# The course of an exception

On a stack of Rust and C++ frames with written tables an exception takes the landing pads the tables
say, whatever the mixture: one pass after the other, each resumed by the landing pad the last one
went to.
-/

namespace Desenredo

open Personality Unwind

/-- The verdict of a Rust frame. -/
def Rust.Action.verdict : Rust.Action → Personality.Verdict
  | .none => .pass
  | .cleanup pad => .cleanup ⟨pad.addr⟩
  | .catch pad | .filter pad => .handler ⟨pad.addr⟩ ⟨0⟩
  | .terminate => .terminate

/-- The verdict of a C++ frame. -/
def Cxx.Action.verdict : Cxx.Action → Personality.Verdict
  | .none => .pass
  | .cleanup pad => .cleanup ⟨pad.addr⟩
  | .handler pad selector => .handler ⟨pad.addr⟩ selector
  | .terminate => .terminate

namespace Personality

section

variable [Gimli] [PointerEncoding] {E G W : Type} {U : Unwinder} {S : Source E} {F : TableEncoding}
  {T : ExceptionTable} {origin : NonZeroUsize} {frame : Personality.Frame} {a : Activation} {p : ℕ}
  {class_ : ExceptionClass}

/-! ## Written tables -/

/-- The table of a frame is a written one. -/
structure Carries (U : Unwinder) (S : Source E) (F : TableEncoding) (T : ExceptionTable)
    (origin : NonZeroUsize) (frame : Personality.Frame) : Prop where
  located : frame.lsda U = some origin
  written : ∃ gap tail, S.bytes frame =
      .ok (some (origin, F.write T (S.bases frame origin) gap tail)) ∧
    F.Fits T (S.bases frame origin) gap tail
  endian : F.endian = ENDIAN
  ordered : T.Ordered
  /-- The frame stands in its function. -/
  inside : frame.start ≤ frame.ip.site

/-- The landing base of the table of a frame. -/
def Source.landingBase (S : Source E) (F : TableEncoding) (origin : NonZeroUsize)
    (frame : Personality.Frame) : ℕ :=
  F.landingBase (S.bases frame origin)

/-- A personality gets what the table says. -/
theorem Carries.table_obeys (hstandard : PointerEncoding.Standard)
    (h : Carries U S F T origin frame) : ∃ lsda, S.table U frame = .ok (some lsda) ∧
      lsda.Says T (S.landingBase F origin frame) F.types.encoding.isIndirect ∧
      lsda.bases.function = frame.start := by
  obtain ⟨gap, tail, hbytes, hfits⟩ := h.written
  have hnew := TableEncoding.new_write hstandard hfits
  rw [h.endian] at hnew
  have htable : S.table U frame =
      .ok (some (F.parsed T (S.bases frame origin) gap tail)) := by
    simp only [Source.table, h.located, hbytes, hnew, decide_true]
    rfl
  exact ⟨_, htable, TableEncoding.says_write hstandard hfits, Source.table_function htable⟩

/-- The Rust action of a frame is that of its table. -/
theorem Carries.rust_action (hstandard : PointerEncoding.Standard)
    (h : Carries U S F T origin a.frame) : Rust.Policy.action U S a.frame =
      .ok (T.rustAction (S.landingBase F origin a.frame) a.offset) := by
  obtain ⟨lsda, htable, hsays, hfunction⟩ := h.table_obeys hstandard
  have hscan := Rust.scan_obeys hsays h.ordered (hfunction ▸ h.inside)
  rw [Rust.Policy.action, htable, Except.bind_ok]
  dsimp only
  rw [hscan, hfunction]
  rfl

/-- The Rust policy decides by the table of the frame. -/
theorem Carries.rust_decides (hstandard : PointerEncoding.Standard)
    (h : Carries U S F T origin a.frame)
    (hverdict : a.verdict = (T.rustAction (S.landingBase F origin a.frame) a.offset).verdict) :
    Decides (Rust.policy U S : Personality W) p class_ a := by
  have haction := h.rust_action hstandard
  generalize T.rustAction _ a.offset = action at hverdict haction
  refine ⟨fun memory world => ?_, fun hnone memory world => ⟨?_, rfl⟩,
    fun pad selector hhandler memory world => ⟨?_, rfl⟩⟩
  · simp only [Rust.policy, Rust.Policy.search, haction, hverdict]
    cases action <;> rfl
  · simp only [Rust.policy, Rust.Policy.cleanup, a.frame_cleanupFrame, haction]
    rw [hverdict] at hnone ⊢
    cases action with
    | «catch» pad | filter pad => exact absurd rfl (hnone _ _)
    | _ => rfl
  · simp only [Rust.policy, Rust.Policy.handler, a.frame_cleanupFrame, haction]
    rw [hverdict] at hhandler
    cases action <;> cases hhandler <;> rfl

/-- The cleanup work of a C++ frame is that of its table. -/
theorem Carries.cxx_clean (hstandard : PointerEncoding.Standard)
    (h : Carries U S F T origin a.frame) : ∃ lsda, S.table U a.frame = .ok (some lsda) ∧
      Cxx.clean lsda a.frame.ip.site =
        .ok (T.cxxAction (S.landingBase F origin a.frame) (fun _ => false) a.offset) := by
  obtain ⟨lsda, htable, hsays, hfunction⟩ := h.table_obeys hstandard
  have hclean := Cxx.clean_obeys hsays h.ordered (hfunction ▸ h.inside)
  rw [hfunction] at hclean
  exact ⟨lsda, htable, hclean⟩

/-- The C++ policy decides by the table of the frame and the types of the exception. -/
theorem Carries.cxx_decides (hstandard : PointerEncoding.Standard)
    (h : Carries U S F T origin a.frame) {M : Cxx.Matcher W G} {is : Target → Bool}
    (hM : ∀ memory lsda, M.Decides ⟨p, memory⟩ class_ lsda is)
    (hverdict : a.verdict = (T.cxxAction (S.landingBase F origin a.frame)
      (T.takes F.types.encoding.isIndirect is) a.offset).verdict) :
    Decides (Cxx.policy U S M : Personality W) p class_ a := by
  obtain ⟨lsda, htable, hsays, hfunction⟩ := h.table_obeys hstandard
  have hinside : lsda.bases.function ≤ a.frame.ip.site := hfunction ▸ h.inside
  have hscan (stage : Cxx.Stage) (memory : Memory) (world : W) :=
    Cxx.scan_obeys stage hsays h.ordered (hM memory lsda) hinside world
  simp only [hfunction] at hscan
  change ∀ stage memory world, _ = Except.ok (T.cxxAction _ _ a.offset) at hscan
  refine ⟨fun memory world => ?_, fun hnone memory world => ⟨?_, rfl⟩,
    fun pad selector hhandler memory world => ⟨?_, rfl⟩⟩
  · specialize hscan .search memory world
    simp only [Cxx.policy, Cxx.Policy.search, Cxx.Policy.lsda, htable, Cxx.search]
    generalize Cxx.scan M .search ⟨p, memory⟩ class_ lsda a.frame.ip.site world = found at hscan
    obtain ⟨result, world'⟩ := found
    obtain rfl : result = _ := hscan
    rw [hverdict]
    cases T.cxxAction _ _ a.offset <;> rfl
  · obtain ⟨lsda, htable, hclean⟩ := h.cxx_clean hstandard
    -- a frame that does not take the exception does what its cleanups do
    have hsame := ExceptionTable.cxxAction_of_not_handler _
      fun pad selector haction => hnone ⟨pad.addr⟩ selector (by rw [hverdict, haction]; rfl)
    simp only [Cxx.policy, Cxx.Policy.cleanup, Cxx.Policy.lsda, a.frame_cleanupFrame, htable,
      hclean, hsame]
    rw [hverdict] at hnone ⊢
    cases haction : T.cxxAction _ _ a.offset with
    | handler pad selector => exact absurd (by rw [haction]; rfl) (hnone ⟨pad.addr⟩ selector)
    | _ => rfl
  · specialize hscan .handler memory world
    simp only [Cxx.policy, Cxx.Policy.handler, Cxx.Policy.lsda, a.frame_cleanupFrame, htable,
      Cxx.handler]
    generalize Cxx.scan M .handler ⟨p, memory⟩ class_ lsda a.frame.ip.site world = found at hscan
    obtain ⟨result, world'⟩ := found
    obtain rfl : result = _ := hscan
    rw [hverdict] at hhandler
    cases haction : T.cxxAction _ _ a.offset <;> rw [haction] at hhandler <;> cases hhandler
    rfl

/-- A frame of a program: one without a personality, or a Rust or C++ frame with a written table,
which gives its verdict. -/
inductive Compiled (w : Walk W) (a : Activation) : Prop
  | bare : w.routine a.info = .ok none → a.verdict = .pass → Compiled w a
  | rust {E : Type} {S : Source E} {F : TableEncoding} {T : ExceptionTable}
      {origin : NonZeroUsize} {address : ℕ} : w.routine a.info = .ok (some address) →
      w.code.personality address = dispatch (Rust.policy w.unwinder S) →
      Carries w.unwinder S F T origin a.frame →
      a.verdict = (T.rustAction (S.landingBase F origin a.frame) a.offset).verdict → Compiled w a
  | cxx {E G : Type} {S : Source E} {M : Cxx.Matcher W G} {is : Target → Bool}
      {F : TableEncoding} {T : ExceptionTable} {origin : NonZeroUsize} {address : ℕ} :
      w.routine a.info = .ok (some address) →
      w.code.personality address = dispatch (Cxx.policy w.unwinder S M) →
      Carries w.unwinder S F T origin a.frame →
      (∀ memory lsda, M.Decides ⟨w.exception, memory⟩ w.class_ lsda is) →
      a.verdict = (T.cxxAction (S.landingBase F origin a.frame)
        (T.takes F.types.encoding.isIndirect is) a.offset).verdict → Compiled w a

variable {w : Walk W} {as : List Activation} {key : Key} {n : ℕ} {state : State}
  {host : Host W}

theorem Compiled.obeys (hstandard : PointerEncoding.Standard) (hp : w.exception ≠ 0)
    (h : Compiled w a) : Obeys w a := by
  cases h with
  | bare hroutine hverdict => exact obeys_of_absent hroutine hverdict
  | rust hroutine hcode hcarries hverdict =>
    exact obeys_of_decides hp hroutine hcode (hcarries.rust_decides hstandard hverdict)
  | cxx hroutine hcode hcarries hM hverdict =>
    exact obeys_of_decides hp hroutine hcode (hcarries.cxx_decides hstandard hM hverdict)

/-! ## Raising -/

/-- A stack of compiled frames with different keys. -/
structure Program (w : Walk W) (as : List Activation) (state : State) : Prop where
  stacked : Stacked w.unwinder as (.new state)
  compiled : ∀ a ∈ as, Compiled w a
  nodup : (as.map Activation.key).Nodup

omit [PointerEncoding] in
/-- A pass for an exception is the same for every host that has its class. -/
theorem Live.new_eq (h : Live w host) : Walk.new w.unwinder w.code w.exception host = w := by
  rw [Walk.new, h]

omit [PointerEncoding] in
/-- Recording a resume state leaves the class alone. -/
theorem Live.write {host' : Host W} (h : Live w host) (resume : Resume)
    (hmemory : host'.memory = resume.write w.exception host.memory) : Live w host' := by
  rw [Live, hmemory]
  have hclass : w.exception ∉ privateWords w.exception := by
    rintro (hword | hword)
    · exact absurd hword (Nat.ne_of_lt (Nat.lt_add_of_pos_right (by decide)))
    · exact absurd hword (Nat.ne_of_lt (Nat.lt_add_of_pos_right (by decide)))
  exact (congrArg ExceptionClass.mk (Resume.write_eqOn resume _ _ hclass)).trans h

/-- Raising an exception goes to the first landing pad of the stack, and leaves behind who
is to have it. -/
theorem begin_lands (hstandard : PointerEncoding.Standard) (hp : w.exception ≠ 0)
    (hprogram : Program w as state) (hlive : Live w host) (hn : as.length < n) :
    (∀ reason, sought as = .error reason → ∃ log host',
      Walk.begin n state host w.unwinder w.code w.exception =
        (log, some (.returned reason, host'))) ∧
    ∀ key, sought as = .ok key → ∃ log exit host' landing rest,
      Walk.begin n state host w.unwinder w.code w.exception = (log, some (exit, host')) ∧
      landings as = landing :: rest ∧ landing.Taken ⟨w.exception, host'.memory⟩ exit ∧
      host'.memory = (Resume.normal key).write w.exception host.memory := by
  have hobeys : ∀ a ∈ as, Obeys w a := fun a ha => (hprogram.compiled a ha).obeys hstandard hp
  obtain ⟨found, host', hsearch, hmemory⟩ :=
    search_sought hprogram.stacked hobeys hlive hn
  have hsearch : w.search n state host = (found, some (sought as, host')) := hsearch
  constructor
  · intro reason hsought
    rw [hsought] at hsearch
    exact ⟨found, host', by simp only [Walk.begin, hlive.new_eq, hsearch]⟩
  · intro key hsought
    rw [hsought] at hsearch
    let marked : Host W := ⟨(Resume.normal key).write w.exception host'.memory, host'.world⟩
    have hmarked : Live w marked := hlive.write (.normal key) (by rw [← hmemory])
    obtain ⟨log, exit, last, landing, rest, hrun, hlast, hlandings, htaken⟩ :=
      normal_lands hprogram.stacked hobeys hprogram.nodup hsought hmarked hn.le
    have hnormal : w.normal n state marked key = (log, some (exit, last)) := hrun
    refine ⟨found ++ log, exit, last, landing, rest, ?_, hlandings, htaken, ?_⟩
    · simp only [Walk.begin, hlive.new_eq, hsearch]
      exact congrArg (fun pass => (found ++ pass.1, pass.2)) hnormal
    · rw [hlast, ← hmemory]

/-! ## Propagations -/

/-- The passes of a propagation: the landing pads gone to before a pass, the stack the pass starts
on, how it ends and the host it leaves.

The first pass is the one a raise starts. A pass that went to the landing pad of a cleanup is
followed by the pass the landing pad resumes, from a place where its own frame has nothing left to
do and on older frames with the keys and verdicts they had, with the header of the exception as it
was. -/
inductive Course (w : Walk W) (key : Key) (first : List Activation) :
    List (Key × LandingPad × Selector) → List Activation → Exit → Host W → Prop
  | raise {n : ℕ} {state : State} {host host' : Host W} {log : List (Event W)} {exit : Exit} :
      Live w host → Program w first state → sought first = .ok key → first.length < n →
      Walk.raise n state host w.unwinder w.code w.exception = (log, some (exit, host')) →
      Course w key first [] first exit host'
  | resume {n : ℕ} {state : State} {host host' host'' : Host W} {registers : Registers}
      {taken : List (Key × LandingPad × Selector)} {as older : List Activation} {a : Activation}
      {landing : Landing} {rest : List Landing} {log : List (Event W)} {exit : Exit} :
      Course w key first taken as (.installed registers) host →
      landings as = landing :: rest → landing.activation.verdict = .cleanup landing.pad →
      Exception.load host'.memory w.exception = Exception.load host.memory w.exception →
      Program w (a :: older) state → a.verdict = .pass →
      older.map Activation.settled = landing.older.map Activation.settled →
      older.length + 1 < n →
      Walk.resume n state host' w.unwinder w.code w.exception = (log, some (exit, host'')) →
      Course w key first (taken ++ [landing.mark]) (a :: older) exit host''

/-- What is so at the end of every pass: it went to a landing pad of its stack, which with those
before and those to come makes up the landing pads of the first stack, and the header still says
who is to have the exception. -/
structure Course.Landed (w : Walk W) (key : Key) (first : List Activation)
    (taken : List (Key × LandingPad × Selector)) (as : List Activation) (exit : Exit)
    (host : Host W) (landing : Landing) (rest : List Landing) : Prop where
  stack : landings as = landing :: rest
  went : landing.Taken ⟨w.exception, host.memory⟩ exit
  marks : (landings first).map Landing.mark = taken ++ landing.mark :: rest.map Landing.mark
  target : sought as = .ok key
  live : Live w host
  recorded : Resume.read host.memory w.exception = .normal key
  nodup : (as.map Activation.key).Nodup

/-- A pass that is resumed goes to the first landing pad of its stack. -/
theorem resume_lands (hstandard : PointerEncoding.Standard) (hp : w.exception ≠ 0)
    (hprogram : Program w as state) (hlive : Live w host)
    (hread : Resume.read host.memory w.exception = .normal key) (hsought : sought as = .ok key)
    (hn : as.length < n) :
    ∃ log exit host' landing rest,
      Walk.resume n state host w.unwinder w.code w.exception = (log, some (exit, host')) ∧
      landings as = landing :: rest ∧ landing.Taken ⟨w.exception, host'.memory⟩ exit ∧
      host'.memory = host.memory := by
  have hobeys : ∀ a ∈ as, Obeys w a := fun a ha => (hprogram.compiled a ha).obeys hstandard hp
  obtain ⟨log, exit, last, landing, rest, hrun, hlast, hlandings, htaken⟩ :=
    normal_lands hprogram.stacked hobeys hprogram.nodup hsought hlive hn.le
  have hnormal : w.normal n state host key = (log, some (exit, last)) := hrun
  refine ⟨log, exit.diverge, last, landing, rest, ?_, hlandings, htaken.diverge, hlast⟩
  simp only [Walk.resume, if_neg hp, hlive.new_eq, hread, Walk.continue_, hnormal, Option.map_some]

theorem Course.landed (hstandard : PointerEncoding.Standard) (hp : w.exception ≠ 0)
    {first : List Activation} {taken : List (Key × LandingPad × Selector)} {exit : Exit}
    (h : Course w key first taken as exit host) :
    ∃ landing rest, Landed w key first taken as exit host landing rest := by
  induction h with
  | raise hlive hprogram hsought hn hraise =>
    obtain ⟨log, exit, host', landing, rest, hbegin, hlandings, htaken, hmemory⟩ :=
      (begin_lands hstandard hp hprogram hlive hn).2 _ hsought
    rw [Walk.raise, if_neg hp, hbegin] at hraise
    obtain ⟨rfl, hresult⟩ := Prod.mk.inj hraise
    obtain ⟨rfl, rfl⟩ := Prod.mk.inj (Option.some.inj hresult)
    refine ⟨landing, rest, hlandings, htaken, ?_, hsought, hlive.write _ hmemory, ?_,
      hprogram.nodup⟩
    · rw [hlandings]
      rfl
    · rw [hmemory]
      exact Resume.read_write (fun f h => by cases h) _ _
  | @resume n state host host' host'' registers taken as older a landing rest log exit _ hstack
      hcleanup hheader hprogram hpass hsettled hn hresume ih =>
    obtain ⟨landing', rest', hlanded⟩ := ih
    obtain ⟨rfl, rfl⟩ := List.cons.inj (hlanded.stack.symm.trans hstack)
    obtain ⟨hrest, htarget⟩ := landings_older hlanded.stack hcleanup
    -- the header is the one the last pass left
    have hlive : Live w host' := by
      rw [Live, hheader]
      exact hlanded.live
    have hread : Resume.read host'.memory w.exception = .normal key := by
      rw [Resume.read, hheader]
      exact hlanded.recorded
    have hsought : sought (a :: older) = .ok key := by
      rw [sought_of_passes (by rw [hpass]; rfl), (settled_congr hsettled).1, ← htarget,
        hlanded.target]
    obtain ⟨log', exit', last, next, others, hrun, hlandings, htaken, hmemory⟩ :=
      resume_lands hstandard hp hprogram hlive hread hsought hn
    rw [hrun] at hresume
    obtain ⟨rfl, hresult⟩ := Prod.mk.inj hresume
    obtain ⟨rfl, rfl⟩ := Prod.mk.inj (Option.some.inj hresult)
    refine ⟨next, others, hlandings, htaken, ?_, hsought, hlive.of_memory hmemory, ?_,
      hprogram.nodup⟩
    · have hmarks := (settled_congr hsettled).2
      rw [← landings_pass hpass, hlandings, ← hrest] at hmarks
      rw [hlanded.marks, ← hmarks, List.append_assoc]
      rfl
    · rw [hmemory, hread]

end

/-! ## A function that calls itself -/

namespace Recursion

attribute [local instance] Gimli.decoded PointerEncoding.bits

/-- Two calls of a function: one where a landing pad cleans up and, below it, one where a filter
takes the exception. The cleanup resumes where the function has no landing pad. -/
def fde : Fde := ⟨⟨8, false, 1⟩, 0x2000, false, some (.direct 0x1000), some (.direct 500)⟩

def row (back : ℕ) : Row := ⟨.registerAndOffset .RSP 8, [(.RA, .constant back)], 0⟩

def rows : ℕ → Option (Fde × Row)
  | 0x2002 | 0x2015 => some (fde, row 0x2007)
  | 0x2006 => some (fde, row 0)
  | _ => none

def unwinder : Unwinder := .decoded rows

def source : Source Unit where
  bytes _ := .ok (some (0x1000,
    TableEncoding.relative.write .nested (.new 0x1000 0x2000) [0x00] [0x07]))
  text _ := none
  data _ := none

def code : Code Unit :=
  ⟨fun _ => dispatch (Rust.policy unwinder source), fun _ _ _ host => ⟨.NONE, [], host⟩⟩

def host : Host Unit := ⟨fun _ => 7, ()⟩

/-- The state in a call of the function. -/
def state (ip : ℕ) : State := .captured ⟨fun slot => if slot = .ra then ip else 1000⟩

theorem image_range : 0 < Usize.size := Nat.two_pow_pos 64

theorem image_text : (BaseAddresses.mk (some 0) (some 0) none).text = some 0 := rfl

theorem image_got : (BaseAddresses.mk (some 0) (some 0) none).got = none := rfl

def info (site back : ℕ) : Info where
  image := ⟨rows, ⟨some 0, some 0, none⟩, 0, Usize.size, none, image_range, image_text, image_got⟩
  fde := fde
  row := row back
  instruction := site

def inner (ip : ℕ) (verdict : Verdict) : Activation :=
  ⟨.new (state ip), info (ip - 1) 0x2007, ⟨1000⟩, verdict⟩

def outer (ip : ℕ) (verdict : Verdict) : Activation :=
  ⟨((Cursor.new (state ip)).advance unwinder (info (ip - 1) 0x2007)).2, info 0x2006 0, ⟨1008⟩,
    verdict⟩

/-- The landing pads of the function. -/
def cleanupPad : LandingPad := ⟨⟨0x2040, by decide⟩⟩

def filterPad : LandingPad := ⟨⟨0x2048, by decide⟩⟩

/-- A pass for the exception of the sample. -/
def walk : Walk Unit := .new unwinder code 4096 host

/-- A frame of the function has its table. -/
theorem carries {a : Activation} (hlsda : a.frame.lsda unwinder = some ⟨0x1000, by decide⟩)
    (hstart : a.frame.start = 0x2000) (hinside : 0x2000 ≤ a.frame.ip.site) :
    Carries unwinder source .relative .nested ⟨0x1000, by decide⟩ a.frame := by
  have hbases : source.bases a.frame 0x1000 = .new 0x1000 0x2000 := by
    rw [← hstart]
    rfl
  exact ⟨hlsda, ⟨_, _, rfl, hbases ▸ TableEncoding.relative_fits_nested⟩, rfl,
    ⟨by decide, by decide⟩, hstart ▸ hinside⟩

theorem landingBase_eq {a : Activation} (hstart : a.frame.start = 0x2000) :
    source.landingBase .relative ⟨0x1000, by decide⟩ a.frame = 0x2000 := hstart

/-- A frame of the function has what its table gives. -/
theorem compiled {a : Activation} (hlsda : a.frame.lsda unwinder = some ⟨0x1000, by decide⟩)
    (hroutine : walk.routine a.info = .ok (some 500)) (hstart : a.frame.start = 0x2000)
    (hinside : 0x2000 ≤ a.frame.ip.site)
    (hverdict : a.verdict =
      (ExceptionTable.nested.rustAction 0x2000 (a.frame.ip.site - 0x2000)).verdict) :
    Compiled walk a := by
  refine .rust hroutine rfl (carries hlsda hstart hinside) ?_
  rw [Activation.offset, hstart, landingBase_eq hstart, hverdict]

theorem raised : Program walk
    [inner 0x2003 (.cleanup cleanupPad), outer 0x2003 (.handler filterPad ⟨0⟩)] (state 0x2003) where
  stacked := .frame rfl (Cursor.key_new rfl (by decide)) rfl (.frame rfl rfl rfl (.bottom rfl))
  compiled := List.forall_mem_cons.2 ⟨compiled rfl rfl rfl (by decide) rfl,
    List.forall_mem_singleton.2 (compiled rfl rfl rfl (by decide) rfl)⟩
  nodup := by decide

end Recursion

end Personality

end Desenredo
