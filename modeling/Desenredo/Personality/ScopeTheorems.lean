import Desenredo.Library.Unwinding
import Desenredo.Personality.CourseTheorems

/-!
# Landing pads and scopes

In the text of a program an exception runs through the scopes around the place that raised it. In
the machine it runs through landing pads that the tables give. When the landing pad of every frame
runs the code of its scope, both are the same: the passes of a propagation do to the state of the
program what its scopes say.
-/

namespace Desenredo.Personality

open Routine (Scope nest takes quiet raising)
open Unwind

variable {σ ε κ : Type}

/-- The landing pads of a frame run the code of its scope. -/
inductive Lowered (code : LandingPad → ε → Routine σ ε κ Unit) : Scope σ ε κ → Verdict → Prop
  | pass : Lowered code .pass .pass
  | owning {release : Routine σ Empty κ Unit} {pad : LandingPad} :
      (∀ exception, code pad exception = quiet release) →
      Lowered code (.owning release) (.cleanup pad)
  | catching {handler : ε → Routine σ ε κ Unit} {pad : LandingPad} {selector : Selector} :
      code pad = handler → Lowered code (.catching handler) (.handler pad selector)

/-- A stack of frames that has the scopes of a program, the innermost first. -/
def Lowers [Gimli] (code : LandingPad → ε → Routine σ ε κ Unit) (scopes : List (Scope σ ε κ))
    (as : List Activation) : Prop :=
  List.Forall₂ (fun scope a => Lowered code scope a.verdict) scopes as

/-- Landing pads one after the other. -/
def runPads (code : LandingPad → ε → Routine σ ε κ Unit) (exception : ε) :
    List LandingPad → Routine σ ε κ Unit
  | [] => pure ()
  | pad :: pads => do
    code pad exception
    runPads code exception pads

section

variable [Gimli] {code : LandingPad → ε → Routine σ ε κ Unit} {scopes : List (Scope σ ε κ)}
  {as : List Activation} {key : Key}

/-- The search finds a handler where a scope takes exceptions. -/
theorem takes_lowers (h : Lowers code scopes as) :
    (∃ key, sought as = .ok key) ∧ takes scopes = true ∨
      sought as = .error .END ∧ takes scopes = false := by
  induction h with
  | nil => exact .inr ⟨rfl, rfl⟩
  | @cons scope a scopes as hscope _ ih =>
    generalize hverdict : a.verdict = verdict at hscope
    cases hscope with
    | pass => simpa only [sought, hverdict, takes] using ih
    | owning _ => simpa only [sought, hverdict, takes] using ih
    | catching _ => exact .inl ⟨⟨a.key, by rw [sought, hverdict]⟩, rfl⟩

/-- A body that raises runs the landing pads down to the handler, and what is around the handler
goes on. -/
theorem nest_lands (h : Lowers code scopes as) (hsought : sought as = .ok key)
    (before : Routine σ Empty κ Unit) (exception : ε) (after : Routine σ ε κ Unit)
    (handled : Bool) : ∃ inner handler older landing,
      scopes = inner ++ .catching handler :: older ∧
      (landings as).getLast? = some landing ∧ Lowers code older landing.older ∧
      (nest scopes (raising before exception after)).run handled =
        (nest older (do
          quiet before
          runPads code exception ((landings as).map Landing.pad))).run handled := by
  induction h generalizing before with
  | nil => cases hsought
  | @cons scope a scopes as hscope hscopes ih =>
    generalize hverdict : a.verdict = verdict at hscope
    cases hscope with
    | pass =>
      rw [landings_pass hverdict]
      rw [sought, hverdict] at hsought
      obtain ⟨inner, handler, older, landing, hinner, h⟩ := ih hsought before
      exact ⟨.pass :: inner, handler, older, landing, congrArg _ hinner, h⟩
    | @owning release pad hcode =>
      rw [sought, hverdict] at hsought
      have htakes : takes scopes = true := by
        rcases takes_lowers hscopes with ⟨-, htakes⟩ | ⟨hend, -⟩
        · exact htakes
        · cases hend.symm.trans hsought
      obtain ⟨inner, handler, older, landing, hinner, hlast, holder, hrun⟩ :=
        ih hsought (do before; release)
      refine ⟨.owning release :: inner, handler, older, landing, congrArg _ hinner, ?_, holder, ?_⟩
      · rw [landings_cleanup hverdict, List.getLast?_cons, hlast]
        rfl
      · -- the scope is released behind what was released before
        calc (nest scopes (Routine.owning release (raising before exception after))).run handled
            = (nest scopes (raising (do before; release) exception after)).run handled :=
              Routine.nest_congr (by rw [htakes, Bool.or_true]; exact Routine.owning_raising)
          _ = _ := hrun
          _ = _ := by
              rw [landings_cleanup hverdict, List.map_cons, runPads, hcode, Routine.quiet_seq]
    | @catching handler pad selector hcode =>
      have hlandings := landings_handler hverdict as
      refine ⟨[], handler, scopes, ⟨a, pad, selector, as⟩, rfl, by rw [hlandings]; rfl, hscopes, ?_⟩
      rw [nest]
      apply Routine.nest_congr
      rw [Routine.catching_raising, hlandings, List.map_cons, runPads, List.map_nil, runPads, hcode,
        Routine.bind_unit]

end

/-- A propagation is on its way to the handler the search of the first stack found. -/
theorem Course.sought [Gimli] [PointerEncoding] {W : Type} {w : Walk W} {key : Key}
    {first as : List Activation} {taken : List (Key × LandingPad × Selector)} {exit : Exit}
    {host : Host W} (h : Course w key first taken as exit host) : sought first = .ok key := by
  induction h with
  | raise _ _ hsought _ _ => exact hsought
  | resume _ _ _ _ _ _ _ _ _ ih => exact ih

/-- The landing pads of a propagation, gone to and to come. -/
theorem pads_of_marks [Gimli] {first : List Activation} {taken : List (Key × LandingPad × Selector)}
    {landing : Landing} {rest : List Landing}
    (h : (landings first).map Landing.mark = taken ++ landing.mark :: rest.map Landing.mark) :
    (landings first).map Landing.pad =
      taken.map (fun mark => mark.2.1) ++ landing.pad :: rest.map Landing.pad := by
  have hpads := congrArg (List.map fun mark => mark.2.1) h
  rw [List.map_map, List.map_append, List.map_cons, List.map_map] at hpads
  exact hpads

end Desenredo.Personality
