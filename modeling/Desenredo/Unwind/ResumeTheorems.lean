import Desenredo.Panic.Object
import Desenredo.Unwind.WalkTheorems
import Mathlib.Data.Set.Function

/-!
# The resume state of an exception header

The two private words of a header over any sequence of entry calls: they always hold the mode
and the handler or stop function recorded last, and nothing else of the exception changes.
-/

namespace Desenredo.Unwind

/-! ## Words -/

/-- The addresses of the words of a header. -/
def header (p : ℕ) : Set ℕ := {p, p + 8, p + 16, p + 24}

/-- The addresses of the private words of a header. -/
def privateWords (p : ℕ) : Set ℕ := {p + 16, p + 24}

theorem privateWords_subset {p : ℕ} {R : Set ℕ} (hheader : header p ⊆ R) : privateWords p ⊆ R := by
  refine Set.Subset.trans ?_ hheader
  rintro a (rfl | rfl)
  · exact .inr (.inr (.inl rfl))
  · exact .inr (.inr (.inr rfl))

namespace Resume

/-- What was written is read back; a stop function has a nonzero address. -/
theorem read_write {resume : Resume} (h : ∀ f, resume = .forced f → f.stop ≠ 0) (p : ℕ)
    (m : Memory) : read (resume.write p m) p = resume := by
  cases resume with
  | normal handler =>
    simp [read, write, Exception.load, Exception.words, Exception.writeWords, words, ofWords]
  | forced f =>
    simp [read, write, Exception.load, Exception.words, Exception.writeWords, words, ofWords,
      h f rfl]

theorem write_eqOn (resume : Resume) (p : ℕ) (m : Memory) :
    (privateWords p).compl.EqOn (resume.write p m) m := by
  intro a ha
  have h16 : a ≠ p + 16 := fun h => ha (.inl h)
  have h24 : a ≠ p + 24 := fun h => ha (.inr h)
  simp only [write, Exception.writeWords, Function.update_of_ne h16, Function.update_of_ne h24]

theorem read_congr {m m' : Memory} {p : ℕ} (h : (privateWords p).EqOn m' m) :
    read m' p = read m p := by
  simp only [read, Exception.load, Exception.words, h (.inl rfl), h (.inr rfl)]

end Resume

/-- What an entry call leaves in memory: the private words of a resume state, and nothing else
of the spared addresses changed. -/
structure Recorded (p : ℕ) (R : Set ℕ) (before after : Memory) (mark : Resume) : Prop where
  read : Resume.read after p = mark
  eqOn : (R \ privateWords p).EqOn after before

theorem Recorded.of_eqOn {p : ℕ} {R : Set ℕ} (hheader : header p ⊆ R) {before after : Memory}
    (h : R.EqOn after before) : Recorded p R before after (Resume.read before p) :=
  ⟨Resume.read_congr (h.mono (privateWords_subset hheader)), h.mono Set.sdiff_subset⟩

theorem Recorded.of_write {p : ℕ} {R : Set ℕ} (hheader : header p ⊆ R) {resume : Resume}
    (hvalid : ∀ f, resume = .forced f → f.stop ≠ 0) {before mid after : Memory}
    (hmid : R.EqOn mid before) (h : R.EqOn after (resume.write p mid)) :
    Recorded p R before after resume where
  read := (Resume.read_congr (h.mono (privateWords_subset hheader))).trans
    (Resume.read_write hvalid p mid)
  eqOn := (h.mono Set.sdiff_subset).trans
    (((Resume.write_eqOn resume p mid).mono fun _ ha => ha.2).trans (hmid.mono Set.sdiff_subset))

section

variable [Gimli] {W : Type}

/-- Callbacks leave the memory at some addresses as it is. -/
structure Code.Spares (code : Code W) (R : Set ℕ) : Prop where
  stop : ∀ address args parameter host,
    R.EqOn (code.stop address args parameter host).host.memory host.memory
  personality : ∀ address args host,
    R.EqOn (code.personality address args host).host.memory host.memory

/-! ## Passes -/

namespace Walk

variable {w : Walk W} {s : Position W} {R : Set ℕ}

theorem Answered.spares (hspares : w.code.Spares R) {info : Info} {actions : Actions}
    {answer : Answer W} (h : w.Answered s info actions answer) :
    R.EqOn answer.position.host.memory s.host.memory := by
  cases h with
  | failed | absent => exact Set.eqOn_refl _ _
  | called _ hcall =>
    subst hcall
    exact hspares.personality _ _ _

theorem stopCall_spares (hspares : w.code.Spares R) (frame : Option Info) (actions : Actions)
    (forced : Forced) :
    R.EqOn (w.stopCall s frame actions forced).reply.host.memory s.host.memory :=
  hspares.stop _ _ _ _

/-- The host of a turn: where the loop goes on, or what it leaves with. -/
def turnHost {ρ : Type} : Turn (Position W) (Event W) (ρ × Host W) → Host W
  | .again _ next => next.host
  | .done _ result => result.2

theorem SearchTurn.spares (hspares : w.code.Spares R)
    {turn : Turn (Position W) (Event W) (Except ReasonCode Key × Host W)}
    (h : w.SearchTurn s turn) : R.EqOn (turnHost turn).memory s.host.memory := by
  cases h with
  | lost | fin => exact Set.eqOn_refl _ _
  | continues _ hanswer | stuck _ hanswer | found _ hanswer | refused _ hanswer =>
    exact hanswer.spares hspares

theorem NormalTurn.spares (hspares : w.code.Spares R) {handler : Key}
    {turn : Turn (Position W) (Event W) (Exit × Host W)} (h : w.NormalTurn s handler turn) :
    R.EqOn (turnHost turn).memory s.host.memory := by
  cases h with
  | lost | keyless => exact Set.eqOn_refl _ _
  | installs _ _ hanswer | continues _ _ hanswer | stuck _ _ hanswer | refused _ _ hanswer =>
    exact hanswer.spares hspares

theorem ForceTurn.spares (hspares : w.code.Spares R) {forced : Forced}
    {turn : Turn (Position W) (Event W) (Exit × Host W)} (h : w.ForceTurn s forced turn) :
    R.EqOn (turnHost turn).memory s.host.memory := by
  cases h with
  | lost => exact Set.eqOn_refl _ _
  | fin _ hstop | halted _ hstop =>
    subst hstop
    exact stopCall_spares hspares _ _ _
  | installs _ hstop _ hanswer | continues _ hstop _ hanswer | stuck _ hstop _ hanswer
  | refused _ hstop _ hanswer =>
    subst hstop
    exact (hanswer.spares hspares).trans (stopCall_spares hspares _ _ _)

/-- What every turn spares a whole run spares. -/
theorem run_spares {ρ : Type} {body : Position W → Turn (Position W) (Event W) (ρ × Host W)}
    (hbody : ∀ s, R.EqOn (turnHost (body s)).memory s.host.memory) {n : ℕ} {log : List (Event W)}
    {result : ρ × Host W} (h : Loop.run body n s = (log, some result)) :
    R.EqOn result.2.memory s.host.memory := by
  refine Loop.Leaves.induction (motive := fun s _ result => R.EqOn result.2.memory s.host.memory)
    ?_ ?_ (.of_run h)
  · intro s log result hturn
    have hspared := hbody s
    rwa [hturn] at hspared
  · intro s log next rest result hturn _ ih
    have hspared := hbody s
    rw [hturn] at hspared
    exact ih.trans hspared

variable {n : ℕ} {state : State} {host host' : Host W} {log : List (Event W)}

theorem search_spares (hspares : w.code.Spares R) {result : Except ReasonCode Key}
    (h : w.search n state host = (log, some (result, host'))) :
    R.EqOn host'.memory host.memory :=
  run_spares (fun _ => searchTurn_cases.spares hspares) h

theorem normal_spares (hspares : w.code.Spares R) {handler : Key} {exit : Exit}
    (h : w.normal n state host handler = (log, some (exit, host'))) :
    R.EqOn host'.memory host.memory :=
  run_spares (fun _ => (normalTurn_cases handler).spares hspares) h

theorem force_spares (hspares : w.code.Spares R) {forced : Forced} {exit : Exit}
    (h : w.force n state host forced = (log, some (exit, host'))) :
    R.EqOn host'.memory host.memory :=
  run_spares (fun _ => (forceTurn_cases forced).spares hspares) h

end Walk

/-! ## Entry calls -/

/-- One call of an entry point on an exception. -/
inductive Entry where
  | raise (state : State)
  | force (state : State) (forced : Forced)
  | resume (state : State)
  | rethrow (state : State)

namespace Entry

/-- Function pointers passed to an entry point are not null. -/
def Valid : Entry → Prop
  | .force _ forced => forced.stop ≠ 0
  | _ => True

variable (U : Unwinder) (code : Code W) (p n : ℕ) (host : Host W)

/-- Runs a call, every phase for at most `n` turns. -/
def run : Entry → List (Event W) × Option (Exit × Host W)
  | .raise state => Walk.raise n state host U code p
  | .force state forced => Walk.forced n state host U code p forced
  | .resume state => Walk.resume n state host U code p
  | .rethrow state => Walk.rethrow n state host U code p

/-- The key phase one returns when it is run from a state. -/
def phaseOne (state : State) : Option Key :=
  match ((Walk.new U code p host).search n state host).2 with
  | some (.ok key, _) => some key
  | _ => none

/-- The resume state after a call that began in another one: a forced call records its stop
function, a phase one that completes records its key. -/
def mark (before : Resume) : Entry → Resume
  | .raise state => ((phaseOne U code p n host state).map .normal).getD before
  | .force _ forced => .forced forced
  | .resume _ => before
  | .rethrow state =>
    match before with
    | .normal _ => ((phaseOne U code p n host state).map .normal).getD before
    | .forced _ => before

end Entry

/-- A sequence of calls on one fresh header: the host it started in, the resume state recorded
last, and the host it has come to. Between the calls the program may do anything that spares
the addresses of a set. -/
inductive History (U : Unwinder) (code : Code W) (p : ℕ) (R : Set ℕ) (first : Host W) :
    Resume → Host W → Prop
  | new {class_ : ExceptionClass} {cleanup : ℕ} :
      Exception.load first.memory p = .new class_ cleanup →
      History U code p R first (.normal ⟨0⟩) first
  | call {before : Resume} {host host' : Host W} {n : ℕ} {entry : Entry} {log : List (Event W)}
      {exit : Exit} : History U code p R first before host → entry.Valid →
      entry.run U code p n host = (log, some (exit, host')) →
      History U code p R first (entry.mark U code p n host before) host'
  | between {mark : Resume} {host host' : Host W} : History U code p R first mark host →
      R.EqOn host'.memory host.memory → History U code p R first mark host'

section

variable {U : Unwinder} {code : Code W} {p n : ℕ} {R : Set ℕ} {state : State}
  {host host' : Host W} {log : List (Event W)} {exit : Exit}

/-- A fresh propagation fails in phase one, or records the key it found and goes on. -/
theorem begin_cases (h : Walk.begin n state host U code p = (log, some (exit, host'))) :
    (∃ found reason, exit = .returned reason ∧
      (Walk.new U code p host).search n state host = (found, some (.error reason, host'))) ∨
    ∃ found key mid rest,
      (Walk.new U code p host).search n state host = (found, some (.ok key, mid)) ∧
      (Walk.new U code p host).normal n state
        { mid with memory := (Resume.normal key).write p mid.memory } key =
        (rest, some (exit, host')) := by
  unfold Walk.begin at h
  dsimp only at h
  split at h
  · cases h
  · rename_i found reason mid hsearch
    simp only [Prod.mk.injEq, Option.some.injEq] at h
    obtain ⟨-, rfl, rfl⟩ := h
    exact .inl ⟨found, reason, rfl, hsearch⟩
  · rename_i found key mid hsearch
    exact .inr ⟨found, key, mid, _, hsearch, Prod.ext rfl (Prod.mk.inj h).2⟩

theorem begin_recorded (hspares : code.Spares R) (hheader : header p ⊆ R)
    (h : Walk.begin n state host U code p = (log, some (exit, host'))) :
    Recorded p R host.memory host'.memory
      (((Entry.phaseOne U code p n host state).map .normal).getD
        (Resume.read host.memory p)) := by
  obtain ⟨found, reason, -, hsearch⟩ | ⟨found, key, mid, rest, hsearch, hnormal⟩ := begin_cases h
  -- phase one fails before anything is written
  · rw [Entry.phaseOne, hsearch]
    exact .of_eqOn hheader (Walk.search_spares hspares hsearch)
  -- the key is written between the two phases
  · rw [Entry.phaseOne, hsearch]
    exact .of_write hheader (by simp) (Walk.search_spares hspares hsearch)
      (Walk.normal_spares hspares hnormal)

theorem forced_recorded (hp : p ≠ 0) (hspares : code.Spares R) (hheader : header p ⊆ R) {f : Forced}
    (hstop : f.stop ≠ 0) (h : Walk.forced n state host U code p f = (log, some (exit, host'))) :
    Recorded p R host.memory host'.memory (.forced f) := by
  rw [Walk.forced, if_neg hp] at h
  refine .of_write hheader ?_ (Set.eqOn_refl _ _) (Walk.force_spares hspares h)
  rintro _ ⟨⟩
  exact hstop

theorem continue_spares {w : Walk W} (hspares : w.code.Spares R) {resume : Resume}
    (h : w.continue_ n state host resume = (log, some (exit, host'))) :
    R.EqOn host'.memory host.memory := by
  cases resume with
  | normal handler => exact Walk.normal_spares hspares h
  | forced f => exact Walk.force_spares hspares h

theorem resume_recorded (hp : p ≠ 0) (hspares : code.Spares R) (hheader : header p ⊆ R)
    (h : Walk.resume n state host U code p = (log, some (exit, host'))) :
    Recorded p R host.memory host'.memory (Resume.read host.memory p) := by
  rw [Walk.resume, if_neg hp] at h
  obtain ⟨⟨exit', host''⟩, hpass, hresult⟩ := Option.map_eq_some_iff.1 (Prod.mk.inj h).2
  obtain rfl : host'' = host' := (Prod.mk.inj hresult).2
  exact .of_eqOn hheader (continue_spares hspares (Prod.ext rfl hpass))

/-- An entry call records the resume state it is said to. -/
theorem entry_recorded (hp : p ≠ 0) (hspares : code.Spares R) (hheader : header p ⊆ R)
    {entry : Entry} (hvalid : entry.Valid)
    (h : entry.run U code p n host = (log, some (exit, host'))) :
    Recorded p R host.memory host'.memory
      (entry.mark U code p n host (Resume.read host.memory p)) := by
  cases entry with
  | raise state =>
    rw [Entry.run, Walk.raise, if_neg hp] at h
    exact begin_recorded hspares hheader h
  | force state f => exact forced_recorded hp hspares hheader hvalid h
  | resume state => exact resume_recorded hp hspares hheader h
  | rethrow state =>
    rw [Entry.run, Walk.rethrow, if_neg hp] at h
    cases hread : Resume.read host.memory p with
    | normal handler =>
      rw [hread] at h
      rw [Entry.mark, ← hread]
      exact begin_recorded hspares hheader h
    | forced f =>
      rw [hread] at h
      rw [Entry.mark, ← hread]
      exact .of_eqOn hheader (Walk.force_spares hspares h)

/-- **Header invariant.** After every sequence of calls the header holds the resume state recorded
last, and nothing else of the spared addresses has changed. -/
theorem History.recorded (hp : p ≠ 0) (hspares : code.Spares R) (hheader : header p ⊆ R)
    {first : Host W} {mark : Resume} (h : History U code p R first mark host) :
    Recorded p R first.memory host.memory mark := by
  induction h with
  | @new class_ cleanup hnew =>
    refine ⟨?_, Set.eqOn_refl _ _⟩
    rw [Resume.read, hnew]
    rfl
  | call _ hvalid hrun ih =>
    obtain ⟨hread, heqOn⟩ := entry_recorded hp hspares hheader hvalid hrun
    -- the call reads the state the calls before it have recorded
    rw [ih.read] at hread
    exact ⟨hread, heqOn.trans ih.eqOn⟩
  | between _ hspared ih =>
    exact ⟨(Resume.read_congr (hspared.mono (privateWords_subset hheader))).trans ih.read,
      (hspared.mono Set.sdiff_subset).trans ih.eqOn⟩

end

end

section

attribute [local instance] Gimli.decoded

/-! ## Calls on one packet -/

namespace Calls

/-- The outer function has a handler. The inner one lets the search go on; it goes to a landing
pad when it is asked to clean up, and has nothing more to do when that resumes. -/
def delivering : Code Bool where
  personality address args host :=
    let searches := args.actions.has .SEARCH
    if address = 600 ∧ searches then ⟨.HANDLER, [], host⟩
    else if address = 500 ∧ (searches || host.world) then ⟨.CONTINUE, [], host⟩
    else ⟨.INSTALL, [((Register.RAX.raw : ℕ), args.exception), ((Register.RDX.raw : ℕ), 0),
      ((Register.RA.raw : ℕ), 140)], ⟨host.memory, true⟩⟩
  stop _ _ _ host := ⟨.NONE, [], host⟩

/-- A panic packet at 4096 that nobody has raised yet. -/
def packet : Memory
  | 4096 => Panic.CLASS.bits
  | 4104 => 2
  | 4128 => 1
  | 4136 => 10
  | 4144 => 11
  | 4152 => 3
  | _ => 0

def host : Host Bool := ⟨packet, false⟩

/-- The packet in phase two, after the inner call has cleaned up. -/
def raised : Host Bool := ⟨(Resume.normal ⟨1008⟩).write 4096 packet, true⟩

/-- The packet when it is then forced to the end. -/
def forced : Host Bool := ⟨(Resume.forced ⟨600, 7⟩).write 4096 raised.memory, true⟩

theorem search : ∃ found, (Walk.new unwinder delivering 4096 host).search 3 (state 100) host =
    (found, some (.ok ⟨1008⟩, host)) := by
  have hfound : ∃ found, (Walk.new unwinder delivering 4096 host).search 3 (state 100) host =
      (found, some ((outer 100).key.mapError fun _ => .FATAL1, host)) := ⟨_, rfl⟩
  rwa [key_outer.1] at hfound

theorem raise : ∃ log exit, Walk.raise 3 (state 100) host unwinder delivering 4096 =
    (log, some (exit, raised)) := by
  obtain ⟨found, hfound⟩ := search
  rw [Walk.raise, if_neg (by decide), Walk.begin, hfound]
  exact ⟨_, _, rfl⟩

end Calls

end

end Desenredo.Unwind
