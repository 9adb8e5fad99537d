import Mathlib.Data.List.Basic
import Mathlib.Data.Nat.Notation
import Mathlib.Logic.Relation
import Mathlib.Tactic.Common

/-!
# Loops that log what they do

A loop body takes one state to a `Turn`: another turn from a next state, or the value the
loop leaves with. Either way it says what the turn did, as a list of events. `run` executes
a loop for at most `n` turns, so it is total and computable; a loop that never leaves still
has a log after every number of turns.

The rules below are what the proofs about a particular loop use:

* `run_induction`, for a property of what every run has done so far, left or not;
* `Leaves.induction`, for a property of the runs that leave;
* `Path`, the turns a run takes before it is at some state.
-/

/-- One turn of a loop: what it logged, and either the next state or the result. -/
inductive Turn (σ ε ρ : Type*) where
  | again (log : List ε) (state : σ)
  | done (log : List ε) (result : ρ)

/-- What a turn logged. -/
def Turn.log {σ ε ρ : Type*} : Turn σ ε ρ → List ε
  | .again log _ | .done log _ => log

/-- What a turn comes to: the next state, or a view of the result. -/
def Turn.outcome {σ ε ρ τ : Type*} (view : ρ → τ) : Turn σ ε ρ → σ ⊕ τ
  | .again _ state => .inl state
  | .done _ result => .inr (view result)

namespace Loop

variable {σ ε ρ : Type*}

/-- At most `n` turns of the loop: the log, and the result if the loop has left. -/
def run (body : σ → Turn σ ε ρ) : ℕ → σ → List ε × Option ρ
  | 0, _ => ([], none)
  | n + 1, s =>
    match body s with
    | .again log t => (log ++ (run body n t).1, (run body n t).2)
    | .done log r => (log, some r)

/-- The loop leaves from `s` with result `r`, having logged `log`. -/
def Leaves (body : σ → Turn σ ε ρ) (s : σ) (log : List ε) (r : ρ) : Prop :=
  ∃ n, run body n s = (log, some r)

/-- Whole turns of the loop lead from one state to another. -/
inductive Path (body : σ → Turn σ ε ρ) : σ → List ε → σ → Prop
  | nil (s : σ) : Path body s [] s
  | cons {s t u : σ} {log rest : List ε} :
      body s = .again log t → Path body t rest u → Path body s (log ++ rest) u

/-- The steps of a function lead from `s` to a state it has a result at. -/
def Halts {τ : Type*} (step : σ → σ ⊕ τ) (s : σ) (v : τ) : Prop :=
  ∃ t, Relation.ReflTransGen (fun s t => step s = .inl t) s t ∧ step t = .inr v

variable {body : σ → Turn σ ε ρ}

/-! ## Running -/

@[simp] theorem run_zero (s : σ) : run body 0 s = ([], none) := rfl

theorem run_succ_again {s t : σ} {log : List ε} (h : body s = .again log t) (n : ℕ) :
    run body (n + 1) s = (log ++ (run body n t).1, (run body n t).2) := by
  simp only [run, h]

theorem run_succ_done {s : σ} {log : List ε} {r : ρ} (h : body s = .done log r) (n : ℕ) :
    run body (n + 1) s = (log, some r) := by
  simp only [run, h]

theorem run_one (s : σ) : (run body 1 s).1 = (body s).log := by
  cases h : body s with
  | again log t => rw [run_succ_again h, run_zero, List.append_nil, Turn.log]
  | done log r => rw [run_succ_done h, Turn.log]

/-- What a run logs is logged by one that takes a turn first. -/
theorem mem_run_succ {s t : σ} {log : List ε} (h : body s = .again log t) {n : ℕ} {event : ε}
    (hevent : event ∈ (run body n t).1) : event ∈ (run body (n + 1) s).1 := by
  rw [run_succ_again h]
  exact List.mem_append_right log hevent

/-- A loop that has left stays left, with the same log and result. -/
theorem run_mono {n m : ℕ} {s : σ} {log : List ε} {r : ρ}
    (h : run body n s = (log, some r)) (hnm : n ≤ m) : run body m s = (log, some r) := by
  induction n generalizing m s log with
  | zero => simp at h
  | succ n ih =>
    obtain ⟨m, rfl⟩ : ∃ k, m = k + 1 := ⟨m - 1, by omega⟩
    cases hb : body s with
    | again log' t =>
      rw [run_succ_again hb] at h ⊢
      obtain ⟨hlog, hr⟩ := Prod.mk.inj h
      have ht : run body n t = ((run body n t).1, some r) := Prod.ext rfl hr
      rw [ih ht (by omega), ← hlog]
    | done log' r' =>
      rw [run_succ_done hb] at h ⊢
      exact h

/-! ## Leaving -/

theorem Leaves.of_run {n : ℕ} {s : σ} {log : List ε} {r : ρ}
    (h : run body n s = (log, some r)) : Leaves body s log r := ⟨n, h⟩

theorem Leaves.unique {s : σ} {log log' : List ε} {r r' : ρ}
    (h : Leaves body s log r) (h' : Leaves body s log' r') : log = log' ∧ r = r' := by
  obtain ⟨n, hn⟩ := h
  obtain ⟨m, hm⟩ := h'
  have hn' := run_mono hn (Nat.le_max_left n m)
  rw [run_mono hm (Nat.le_max_right n m)] at hn'
  simp only [Prod.mk.injEq, Option.some.injEq] at hn'
  exact ⟨hn'.1.symm, hn'.2.symm⟩

theorem leaves_done {s : σ} {log log' : List ε} {r r' : ρ} (h : body s = .done log r) :
    Leaves body s log' r' ↔ log' = log ∧ r' = r := by
  have hone : Leaves body s log r := ⟨1, run_succ_done h 0⟩
  constructor
  · exact fun h' => h'.unique hone
  · rintro ⟨rfl, rfl⟩
    exact hone

theorem leaves_again {s t : σ} {log log' : List ε} {r : ρ} (h : body s = .again log t) :
    Leaves body s log' r ↔ ∃ rest, log' = log ++ rest ∧ Leaves body t rest r := by
  constructor
  · rintro ⟨_ | n, hn⟩
    · simp at hn
    · rw [run_succ_again h] at hn
      obtain ⟨hlog, hr⟩ := Prod.mk.inj hn
      exact ⟨_, hlog.symm, n, Prod.ext rfl hr⟩
  · rintro ⟨rest, rfl, n, hn⟩
    exact ⟨n + 1, by rw [run_succ_again h, hn]⟩

/-- **Leaving rule.** Induction over the turns of a run that leaves. -/
theorem Leaves.induction {motive : σ → List ε → ρ → Prop}
    (done : ∀ s log r, body s = .done log r → motive s log r)
    (again : ∀ s log t rest r, body s = .again log t → Leaves body t rest r →
      motive t rest r → motive s (log ++ rest) r)
    {s : σ} {log : List ε} {r : ρ} (h : Leaves body s log r) : motive s log r := by
  obtain ⟨n, hn⟩ := h
  induction n generalizing s log with
  | zero => simp at hn
  | succ n ih =>
    cases hb : body s with
    | again log' t =>
      rw [run_succ_again hb] at hn
      obtain ⟨hlog, hr⟩ := Prod.mk.inj hn
      have ht : run body n t = ((run body n t).1, some r) := Prod.ext rfl hr
      rw [← hlog]
      exact again s log' t _ r hb ⟨n, ht⟩ (ih ht)
    | done log' r' =>
      rw [run_succ_done hb] at hn
      obtain ⟨hlog, hr⟩ := Prod.mk.inj hn
      rw [← hlog, ← Option.some.inj hr]
      exact done s log' r' hb

/-! ## Paths -/

theorem Path.leaves {s t : σ} {log rest : List ε} {r : ρ}
    (h : Path body s log t) (h' : Leaves body t rest r) : Leaves body s (log ++ rest) r := by
  induction h with
  | nil s => exact h'
  | cons hb _ ih =>
    rw [List.append_assoc, leaves_again hb]
    exact ⟨_, rfl, ih h'⟩

/-- **Log rule.** What every turn logs from an invariant state a whole run logs. -/
theorem run_log {inv : σ → Prop} {good : ε → Prop}
    (hgood : ∀ s, inv s → ∀ event ∈ (body s).log, good event)
    (hinv : ∀ s log t, body s = .again log t → inv s → inv t) (n : ℕ) {s : σ} (hs : inv s) :
    ∀ event ∈ (run body n s).1, good event := by
  induction n generalizing s with
  | zero => simp
  | succ n ih =>
    have hturn := hgood s hs
    intro event hevent
    cases h : body s with
    | again log t =>
      rw [h] at hturn
      rw [run_succ_again h] at hevent
      rcases List.mem_append.1 hevent with hevent | hevent
      · exact hturn event hevent
      · exact ih (hinv s log t h hs) event hevent
    | done log r =>
      rw [h] at hturn
      rw [run_succ_done h] at hevent
      exact hturn event hevent

/-- What every turn logs from any state a whole run logs. -/
theorem run_log_always {good : ε → Prop} (hgood : ∀ s, ∀ event ∈ (body s).log, good event) (n : ℕ)
    (s : σ) : ∀ event ∈ (run body n s).1, good event :=
  run_log (fun s (_ : True) => hgood s) (fun _ _ _ _ _ => trivial) n trivial

/-- **Refinement rule.** A loop whose turns, from an invariant state, come to what a function
says leaves from a state exactly as the function halts from it. -/
theorem leaves_iff_steps {τ : Type*} {inv : σ → Prop} {step : σ → σ ⊕ τ} (view : ρ → τ)
    (hturn : ∀ s, inv s → (body s).outcome view = step s)
    (hinv : ∀ s log t, body s = .again log t → inv s → inv t) {s : σ} (hs : inv s) (v : τ) :
    (∃ log r, Leaves body s log r ∧ view r = v) ↔ Halts step s v := by
  constructor
  · rintro ⟨log, r, hleaves, rfl⟩
    revert hs
    refine Leaves.induction (motive := fun s _ r => inv s → Halts step s (view r)) ?_ ?_ hleaves
    · intro s log r h hs
      exact ⟨s, .refl, by rw [← hturn s hs, h, Turn.outcome]⟩
    · intro s log t rest r h _ ih hs
      have hst : step s = .inl t := by rw [← hturn s hs, h, Turn.outcome]
      obtain ⟨u, htu, hfin⟩ := ih (hinv s log t h hs)
      exact ⟨u, .head hst htu, hfin⟩
  · rintro ⟨t, hst, hfin⟩
    induction hst using Relation.ReflTransGen.head_induction_on with
    | refl =>
      have hbody := hturn t hs
      cases h : body t with
      | again log u => simp [h, hfin, Turn.outcome] at hbody
      | done log r =>
        rw [h, hfin, Turn.outcome] at hbody
        exact ⟨log, r, (leaves_done h).2 ⟨rfl, rfl⟩, Sum.inr.inj hbody⟩
    | @head s u hsu _ ih =>
      have hbody := hturn s hs
      cases h : body s with
      | done log r => simp [h, hsu, Turn.outcome] at hbody
      | again log u' =>
        rw [h, hsu, Turn.outcome] at hbody
        obtain rfl := Sum.inl.inj hbody
        obtain ⟨rest, r, hleaves, hr⟩ := ih (hinv _ _ _ h hs)
        exact ⟨log ++ rest, r, (leaves_again h).2 ⟨rest, rfl, hleaves⟩, hr⟩

end Loop
