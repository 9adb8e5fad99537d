import Desenredo.Cxx.Personality
import Desenredo.Cxx.ScanTheorems
import Desenredo.Personality.TwoPhase
import Desenredo.Rust.ActionTheorems
import Desenredo.Rust.Personality

/-!
# Two phases over Rust and C++ frames

Both language policies keep the two-phase contract, the C++ one for a matcher whose answers in
the handler stage are those of the search stage. So phase two after a search is sound over every
mix of Rust and C++ frames.
-/

namespace Desenredo

open Personality
open Unwind (Gimli Unwinder)

section

variable [Gimli] [PointerEncoding]

/-- An address is the landing pad of the call site that covers a frame. -/
def Personality.Source.Lands {E : Type} (U : Unwinder) (S : Source E) (frame : Personality.Frame)
    (pad : ℕ) : Prop :=
  ∃ lsda site, S.table U frame = .ok (some lsda) ∧ lsda.site frame.ip.site = .ok (some site) ∧
    site.land = some pad

/-! ## Rust -/

namespace Rust

variable {E W : Type} (U : Unwinder) (S : Source E)

/-- An action with a landing pad has that of the covering call site. -/
theorem Policy.action_lands {frame : Personality.Frame} {action : Action} {pad : Pad}
    (h : Policy.action U S frame = .ok action) (hpad : action.pad = some pad) :
    S.Lands U frame pad.addr := by
  obtain ⟨table, htable, h⟩ := Except.bind_eq_ok_iff.1 h
  cases table with
  | none =>
    cases h
    cases hpad
  | some lsda =>
    obtain ⟨rfl, -⟩ | ⟨site, hsite, -, hland⟩ := scan_eq_ok (Except.mapError_eq_ok.1 h)
    · cases hpad
    · exact ⟨lsda, site, htable, hsite, hland pad hpad⟩

/-- The Rust policy keeps the two-phase contract. -/
theorem policy_twoPhase (I : W → Prop) (R : Set ℕ) (p : ℕ) :
    TwoPhase (policy U S) I R p (S.Lands U) where
  search_keeps _ _ hI := hI
  cleanup_keeps _ _ hI := hI
  cleanup_prepares _ _ := rfl
  handler_prepares _ _ := rfl
  cleanup_of_continue context class_ m m' world world' _ _ _ h := by
    simp only [policy, Policy.search, Policy.cleanup, CleanupFrame.frame] at h ⊢
    cases haction : Policy.action U S ⟨context⟩ with
    | error error => simp [haction] at h
    | ok action => cases action <;> simp_all
  handler_of_found context class_ m m' world world' _ _ _ h := by
    simp only [policy, Policy.search, Policy.handler, CleanupFrame.frame] at h ⊢
    cases haction : Policy.action U S ⟨context⟩ with
    | error error => simp [haction] at h
    | ok action =>
      have hlands (pad : Pad) (hpad : action.pad = some pad) :=
        Policy.action_lands U S haction hpad
      cases action with
      | none | cleanup | terminate => simp [haction] at h
      | «catch» pad | filter pad => exact ⟨_, rfl, hlands pad rfl⟩

end Rust

/-! ## C++ -/

namespace Cxx

variable {E F W : Type} (U : Unwinder) (S : Source E) (M : Matcher W F)

variable {U S M} {call : Search} {world : W}

theorem Policy.search_keeps {I : W → Prop} {R : Set ℕ} {p : ℕ} (hM : M.Steady I R p)
    (hI : I world) : I (Policy.search U S M call world).2 := by
  unfold Policy.search
  split
  · exact hI
  · exact hI
  · rename_i lsda _
    have hkeeps := scan_keeps call.class_ lsda hM hI .search call.exception call.frame.ip.site
    split <;> rename_i hsearch <;> rw [Cxx.search] at hsearch <;> rw [hsearch] at hkeeps <;>
      exact hkeeps

theorem Policy.search_continue (h : (Policy.search U S M call world).1 = .continue_) :
    Policy.lsda U S call.frame = .ok none ∨
      ∃ lsda action, Policy.lsda U S call.frame = .ok (some lsda) ∧
        (Cxx.search M lsda call.frame.ip.site call.exception call.class_ world).1 = .ok action ∧
        (action = .none ∨ ∃ pad, action = .cleanup pad) := by
  unfold Policy.search at h
  split at h
  · exact .inl ‹_›
  · cases h
  · rename_i lsda htable
    split at h
    · exact .inr ⟨lsda, _, htable, by rw [‹Cxx.search _ _ _ _ _ _ = _›], .inl rfl⟩
    · exact .inr ⟨lsda, _, htable, by rw [‹Cxx.search _ _ _ _ _ _ = _›], .inr ⟨_, rfl⟩⟩
    · cases h
    · cases h
    · cases h

theorem Policy.search_found (h : (Policy.search U S M call world).1 = .handlerFound) :
    ∃ lsda pad selector, Policy.lsda U S call.frame = .ok (some lsda) ∧
      (Cxx.search M lsda call.frame.ip.site call.exception call.class_ world).1 =
        .ok (.handler pad selector) := by
  unfold Policy.search at h
  split at h
  · cases h
  · cases h
  · rename_i lsda htable
    split at h
    · cases h
    · cases h
    · exact ⟨lsda, _, _, htable, by rw [‹Cxx.search _ _ _ _ _ _ = _›]⟩
    · cases h
    · cases h

/-- The C++ policy keeps the two-phase contract. -/
theorem policy_twoPhase {I : W → Prop} {R : Set ℕ} {p : ℕ} (hM : M.Steady I R p) :
    TwoPhase (policy U S M) I R p (S.Lands U) where
  search_keeps _ _ hI := Policy.search_keeps hM hI
  cleanup_keeps _ _ hI := hI
  cleanup_prepares _ _ := rfl
  handler_prepares _ _ := rfl
  cleanup_of_continue context class_ m m' world world' _ _ _ h := by
    simp only [policy, Policy.cleanup, CleanupFrame.frame]
    obtain htable | ⟨lsda, action, htable, hsearch, haction⟩ := Policy.search_continue h
    · rw [htable]
      simp
    · have hclean : clean lsda (Frame.mk context).ip.site = .ok action :=
        clean_of_scan hsearch (by rcases haction with rfl | ⟨pad, rfl⟩ <;> simp)
      rw [htable]
      simp only [hclean]
      rcases haction with rfl | ⟨pad, rfl⟩ <;> simp
  handler_of_found context class_ m m' world world' hm hI hI' h := by
    simp only [policy, Policy.handler, CleanupFrame.frame]
    obtain ⟨lsda, pad, selector, htable, hsearch⟩ := Policy.search_found h
    have hhandler := handler_eq_search class_ lsda hM hm hI hI' (Frame.mk context).ip.site
    rw [hsearch] at hhandler
    rw [htable]
    cases hscan : Cxx.handler M lsda (Frame.mk context).ip.site ⟨p, m'⟩ class_ world' with
    | mk result world'' =>
      rw [hscan] at hhandler
      obtain rfl : result = .ok (.handler pad selector) := hhandler
      obtain ⟨site, hsite, hland⟩ := scan_lands hsearch
      simp only [hscan]
      exact ⟨_, rfl, lsda, site, htable, hsite, hland⟩

end Cxx

/-! ## Mixed stacks -/

namespace Personality

/-- A personality routine is that of the Rust policy, or of the C++ policy with a steady matcher.
The landing pads of a frame are those of its source. -/
inductive Policied {W : Type} (U : Unwinder) (I : W → Prop) (R : Set ℕ) (p : ℕ) :
    Unwind.PersonalityFn W → (Frame → ℕ → Prop) → Prop
  | rust {E : Type} (S : Source E) : Policied U I R p (dispatch (Rust.policy U S)) (S.Lands U)
  | cxx {E F : Type} (S : Source E) (M : Cxx.Matcher W F) : M.Steady I R p →
      Policied U I R p (dispatch (Cxx.policy U S M)) (S.Lands U)

theorem Policied.twoPhase {W : Type} {U : Unwinder} {I : W → Prop} {R : Set ℕ} {p : ℕ}
    {f : Unwind.PersonalityFn W} {lands : Frame → ℕ → Prop} (h : Policied U I R p f lands) :
    ∃ P, f = dispatch P ∧ TwoPhase P I R p lands := by
  cases h with
  | rust S => exact ⟨_, rfl, Rust.policy_twoPhase U S I R p⟩
  | cxx S M hM => exact ⟨_, rfl, Cxx.policy_twoPhase hM⟩

open Unwind

/-- **Two-phase guarantee.** Over any mix of frames without a personality, of Rust frames and of
C++ frames with different keys, phase two after a search that succeeded never fails on what a
personality answers: frames younger than the handler's let it go on or install, the handler's
frame installs the landing pad of the call site it found the handler at, and a pass that returns
has tried an installation or could not read the key of a frame.

Between the phases the memory at `R`, which holds the class of the exception, and the state `I`
of the runtimes do not change. -/
theorem two_phase_guarantee {W : Type} {w : Walk W} {I : W → Prop} {R : Set ℕ}
    (hp : w.exception ∈ R)
    {n : ℕ} {state : State} {host host' last : Host W} {found : List (Event W)} {key : Key}
    (hsearch : w.search n state host = (found, some (.ok key, last)))
    (hpolicied : ∀ c info address, .frame c info ∈ found → w.routine info = .ok (some address) →
      ∃ lands, Policied w.unwinder I R w.exception (w.code.personality address) lands)
    (hkeys : (visited found).Nodup) (hmemory : R.EqOn host'.memory host.memory)
    (hI : I host.world) (hI' : I host'.world) (m : ℕ) {log : List (Event W)}
    {exit : Option (Exit × Host W)} (hnormal : w.normal m state host' key = (log, exit)) :
    (∀ call, .personality call ∈ log → ∃ callback k, call.args.context = some callback ∧
      callback.cursor.key = .ok k ∧
      (k ≠ key → call.reply.reason = .CONTINUE ∨ call.reply.reason = .INSTALL) ∧
      (k = key → call.reply.reason = .INSTALL ∧
        ∃ earlier info address lands installed, .personality earlier ∈ found ∧
          earlier.args.context = some callback ∧ earlier.reply.reason = .HANDLER ∧
          callback.frame = some info ∧ w.routine info = .ok (some address) ∧
          Policied w.unwinder I R w.exception (w.code.personality address) lands ∧
          call.reply.writes = InstalledContext.writes installed ∧
          lands ⟨callback⟩ installed.landingPad.address)) ∧
    ∀ reason host'', exit = some (.returned reason, host'') →
      (∃ before c info call, log = before ++ [.frame c info, .personality call] ∧
        call.reply.reason = .INSTALL ∧
        .returned reason =
          Walk.transfer (Walk.after ⟨c, call.host⟩ (some info) call.reply).cursor info) ∨
      ∃ before c info error, log = before ++ [.frame c info] ∧ c.key = .error error := by
  let lands (address : ℕ) (frame : Frame) (pad : ℕ) : Prop :=
    ∃ L, Policied w.unwinder I R w.exception (w.code.personality address) L ∧ L frame pad
  have hkeeps : Keeps w I R lands found := by
    intro c info hframe address hroutine
    obtain ⟨L, hL⟩ := hpolicied c info address hframe hroutine
    obtain ⟨P, hcode, hP⟩ := hL.twoPhase
    exact ⟨P, hcode, hP.mono fun frame pad hpad => ⟨L, hL, hpad⟩⟩
  have hsound := sound_of_search (s := ⟨.new state, host⟩) (t := ⟨.new state, host'⟩) hkeeps hp
    (Loop.Leaves.of_run hsearch) rfl hkeys ⟨rfl, hmemory, hI, hI'⟩ m
  rw [← Walk.normal, hnormal] at hsound
  refine ⟨fun call hcall => ?_, fun reason host'' hexit => ?_⟩
  · obtain ⟨callback, k, hcontext, hkey, hyounger, hhandler⟩ := hsound.calls call hcall
    refine ⟨callback, k, hcontext, hkey, hyounger, fun hk => ?_⟩
    obtain ⟨hinstall, earlier, info, address, installed, hmem, hearlier, hreason, hframe,
      hroutine, hwrites, L, hL, hpad⟩ := hhandler hk
    exact ⟨hinstall, earlier, info, address, L, installed, hmem, hearlier, hreason, hframe,
      hroutine, hL, hwrites, hpad⟩
  · rcases hsound.ends _ hexit with h | ⟨before, c, info, error, hlog, hkey, -⟩
    · exact .inl h
    · exact .inr ⟨before, c, info, error, hlog, hkey⟩

end Personality

end

open Personality Unwind

section

attribute [local instance] Gimli.decoded PointerEncoding.bits

/-! ## A C++ function called from a Rust one -/

namespace Personality.Mixed

def fde (start lsda routine : ℕ) : Fde :=
  ⟨⟨8, false, 1⟩, start, false, some (.direct lsda), some (.direct routine)⟩

/-- The C++ function is called before 100, the Rust one before 200. -/
def rows : ℕ → Option (Fde × Row)
  | 99 => some (fde 90 2000 500, Calls.row 200)
  | 199 => some (fde 190 3000 600, Calls.row 0)
  | _ => none

def unwinder : Unwinder := .decoded rows

/-- The C++ function cleans up at 100, the Rust one catches at 200. -/
def source : Source Unit where
  bytes frame := .ok (some (if frame.start = 90
    then (2000, [0xff, 0xff, 0x01, 0x04, 0x00, 0x10, 0x0a, 0x00])
    else (3000, [0xff, 0xff, 0x01, 0x04, 0x00, 0x10, 0x0a, 0x01, 0x01, 0x00])))
  text _ := none
  data _ := none

def matcher : Cxx.Matcher Unit Unit := ⟨fun _ _ _ _ _ _ world => (.ok true, world)⟩

def code : Code Unit where
  personality address :=
    if address = 500 then dispatch (Cxx.policy unwinder source matcher)
    else dispatch (Rust.policy unwinder source)
  stop _ _ _ host := ⟨.NONE, [], host⟩

def host : Host Unit := ⟨fun _ => 7, ()⟩

def walk : Walk Unit := .new unwinder code 4096 host

def outer : Cursor := ((Cursor.new (Calls.state 100)).step unwinder).2

theorem key_outer : outer.key = .ok ⟨1008⟩ := by
  have hkey : (Cursor.new outer.state).key = .ok ⟨1008⟩ := Cursor.key_new rfl (by decide)
  exact hkey

theorem search : ∃ found, walk.search 3 (Calls.state 100) host =
    (found, some (.ok ⟨1008⟩, host)) ∧ visited found = [⟨1000⟩, ⟨1008⟩] := by
  have hfound : ∃ found, walk.search 3 (Calls.state 100) host =
      (found, some (outer.key.mapError fun _ => .FATAL1, host)) ∧
        visited found = [⟨1000⟩, ⟨1008⟩] := ⟨_, rfl, rfl⟩
  rwa [key_outer] at hfound

theorem policied (address : ℕ) : ∃ lands, Policied unwinder (fun _ => True) Set.univ 4096
    (code.personality address) lands := by
  by_cases haddress : address = 500
  · rw [code, haddress]
    exact ⟨_, .cxx source matcher ⟨fun _ _ _ _ _ _ _ h => h, fun _ _ _ _ _ _ _ _ _ _ _ => rfl⟩⟩
  · simp only [code, haddress, if_false]
    exact ⟨_, .rust source⟩

end Personality.Mixed

open Personality.Mixed in
/-- The C++ function is to clean up, and the Rust one has the handler. -/
theorem Personality.two_phase_guarantee_mixed :
    ∃ found, walk.search 3 (Calls.state 100) host = (found, some (.ok ⟨1008⟩, host)) ∧
      ∀ m log exit, walk.normal m (Calls.state 100) host ⟨1008⟩ = (log, exit) →
        ∀ call, .personality call ∈ log →
          call.reply.reason = .CONTINUE ∨ call.reply.reason = .INSTALL := by
  obtain ⟨found, hsearch, hvisited⟩ := Mixed.search
  refine ⟨found, hsearch, fun m log exit hnormal call hcall => ?_⟩
  have hkeys : (visited found).Nodup := by
    rw [hvisited]
    decide
  obtain ⟨callback, k, -, -, hyounger, hhandler⟩ :=
    (two_phase_guarantee (I := fun _ => True) (R := Set.univ) (Set.mem_univ _) hsearch
      (fun _ _ address _ _ => policied address) hkeys (Set.eqOn_refl _ _) trivial trivial m
      hnormal).1 call hcall
  by_cases hk : k = ⟨1008⟩
  · exact .inr (hhandler hk).1
  · exact hyounger hk

end

end Desenredo
