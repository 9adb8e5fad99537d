import Mathlib.Data.List.Basic
import Mathlib.Tactic.Common

/-!
# Consultations

A party that keeps a state of its own is asked questions in order, until one of its answers is
not a refusal. `consult` is the log of what it was asked and answered, with the state that
leaves it in. The questions of the log are the first of the list, every answer but the last is a
refusal, and only an answer that is none ends a consultation early.
-/

namespace Consult

variable {Q A W : Type*} {ask : Q → W → A × W} {refuses : A → Bool}

/-- Puts questions in order until one is not refused. -/
def consult (ask : Q → W → A × W) (refuses : A → Bool) : List Q → W → List (Q × A) × W
  | [], w => ([], w)
  | q :: rest, w =>
    let (answer, w) := ask q w
    if refuses answer then
      let (log, w) := consult ask refuses rest w
      ((q, answer) :: log, w)
    else ([(q, answer)], w)

/-- A party that keeps a log next to its state. -/
def recorded (ask : Q → W → A × W) (q : Q) (s : W × List (Q × A)) : A × W × List (Q × A) :=
  let (answer, w) := ask q s.1
  (answer, w, s.2 ++ [(q, answer)])

section

variable {q : Q} {questions : List Q} {answer : A} {w w' : W}

theorem consult_refused (h : ask q w = (answer, w')) (hrefuses : refuses answer = true) :
    consult ask refuses (q :: questions) w =
      ((q, answer) :: (consult ask refuses questions w').1,
        (consult ask refuses questions w').2) := by
  simp only [consult, h, hrefuses, if_true]

theorem consult_answered (h : ask q w = (answer, w')) (hrefuses : refuses answer = false) :
    consult ask refuses (q :: questions) w = ([(q, answer)], w') := by
  simp only [consult, h, hrefuses, Bool.false_eq_true, if_false]

end

variable (questions : List Q) (w : W)

/-- Keeping a log changes no answer, and the log grows by the consultation. -/
theorem consult_recorded (log : List (Q × A)) :
    consult (recorded ask) refuses questions (w, log) =
      ((consult ask refuses questions w).1, (consult ask refuses questions w).2,
        log ++ (consult ask refuses questions w).1) := by
  induction questions generalizing w log with
  | nil => simp [consult]
  | cons q questions ih =>
    cases hask : ask q w with
    | mk answer w' =>
      have hrecorded : recorded ask q (w, log) = (answer, w', log ++ [(q, answer)]) := by
        simp only [recorded, hask]
      cases hrefuses : refuses answer with
      | true =>
        rw [consult_refused hrecorded hrefuses, consult_refused hask hrefuses, ih]
        simp
      | false => rw [consult_answered hrecorded hrefuses, consult_answered hask hrefuses]

/-- The questions of a consultation are the first of those there are. -/
theorem consult_initial : (consult ask refuses questions w).1.map Prod.fst <+: questions := by
  induction questions generalizing w with
  | nil => exact List.prefix_rfl
  | cons q questions ih =>
    cases hask : ask q w with
    | mk answer w' =>
      cases hrefuses : refuses answer with
      | true =>
        rw [consult_refused hask hrefuses, List.map_cons]
        exact List.cons_prefix_cons.2 ⟨rfl, ih w'⟩
      | false =>
        rw [consult_answered hask hrefuses]
        exact List.cons_prefix_cons.2 ⟨rfl, List.nil_prefix⟩

/-- Every answer but the last is a refusal. -/
theorem consult_dropLast :
    ∀ entry ∈ (consult ask refuses questions w).1.dropLast, refuses entry.2 = true := by
  induction questions generalizing w with
  | nil => simp [consult]
  | cons q questions ih =>
    cases hask : ask q w with
    | mk answer w' =>
      cases hrefuses : refuses answer with
      | true =>
        rw [consult_refused hask hrefuses]
        intro entry hentry
        cases hrest : (consult ask refuses questions w').1 with
        | nil => simp [hrest] at hentry
        | cons next log =>
          rw [hrest, List.dropLast_cons_cons, List.mem_cons] at hentry
          rcases hentry with rfl | hentry
          · exact hrefuses
          · exact ih w' entry (by rw [hrest]; exact hentry)
      | false =>
        rw [consult_answered hask hrefuses]
        simp

/-- A consultation ends with everything refused, or with one answer that is no refusal. -/
theorem consult_ends :
    (∀ entry ∈ (consult ask refuses questions w).1, refuses entry.2 = true) ∨
      ∃ before q answer, (consult ask refuses questions w).1 = before ++ [(q, answer)] ∧
        refuses answer = false ∧ ∀ entry ∈ before, refuses entry.2 = true := by
  have hdropLast : ∀ entry ∈ (consult ask refuses questions w).1.dropLast,
      refuses entry.2 = true := consult_dropLast questions w
  obtain hnil | ⟨before, ⟨q, answer⟩, hlog⟩ :=
    List.eq_nil_or_concat (consult ask refuses questions w).1
  · simp [hnil]
  · rw [List.concat_eq_append] at hlog
    rw [hlog, List.dropLast_concat] at hdropLast
    rw [hlog]
    cases hrefuses : refuses answer with
    | true =>
      refine .inl fun entry hentry => ?_
      rcases List.mem_append.1 hentry with hentry | hentry
      · exact hdropLast entry hentry
      · rw [List.mem_singleton.1 hentry, hrefuses]
    | false => exact .inr ⟨before, q, answer, rfl, hrefuses, hdropLast⟩

variable {questions w}

/-- When everything was refused every question has been put. -/
theorem consult_complete (h : ∀ entry ∈ (consult ask refuses questions w).1,
    refuses entry.2 = true) : (consult ask refuses questions w).1.map Prod.fst = questions := by
  induction questions generalizing w with
  | nil => rfl
  | cons q questions ih =>
    cases hask : ask q w with
    | mk answer w' =>
      cases hrefuses : refuses answer with
      | true =>
        rw [consult_refused hask hrefuses] at h ⊢
        rw [List.map_cons, ih fun entry hentry => h entry (List.mem_cons_of_mem _ hentry)]
      | false =>
        rw [consult_answered hask hrefuses] at h
        have hmem := h _ (List.mem_singleton_self _)
        rw [hrefuses] at hmem
        cases hmem

theorem consult_eq_nil : (consult ask refuses questions w).1 = [] ↔ questions = [] := by
  constructor
  · intro h
    cases questions with
    | nil => rfl
    | cons q questions =>
      simp only [consult] at h
      split at h <;> cases h
  · rintro rfl
    rfl

/-- When everything was refused the questions that follow are put as well. -/
theorem consult_append (h : ∀ entry ∈ (consult ask refuses questions w).1,
    refuses entry.2 = true) (more : List Q) :
    (consult ask refuses (questions ++ more) w).1 = (consult ask refuses questions w).1 ++
      (consult ask refuses more (consult ask refuses questions w).2).1 := by
  induction questions generalizing w with
  | nil => rfl
  | cons q questions ih =>
    cases hask : ask q w with
    | mk answer w' =>
      cases hrefuses : refuses answer with
      | true =>
        rw [consult_refused hask hrefuses] at h
        have hrest := ih fun entry hentry => h entry (List.mem_cons_of_mem _ hentry)
        rw [List.cons_append, consult_refused hask hrefuses, consult_refused hask hrefuses, hrest,
          List.cons_append]
      | false =>
        rw [consult_answered hask hrefuses] at h
        have hmem := h _ (List.mem_singleton_self _)
        rw [hrefuses] at hmem
        cases hmem

/-- Behind an answer that is no refusal nothing is asked. -/
theorem consult_append_answered (h : ¬∀ entry ∈ (consult ask refuses questions w).1,
    refuses entry.2 = true) (more : List Q) :
    consult ask refuses (questions ++ more) w = consult ask refuses questions w := by
  induction questions generalizing w with
  | nil => exact absurd (fun entry hentry => by cases hentry) h
  | cons q questions ih =>
    cases hask : ask q w with
    | mk answer w' =>
      cases hrefuses : refuses answer with
      | true =>
        rw [consult_refused hask hrefuses, List.forall_mem_cons, not_and] at h
        rw [List.cons_append, consult_refused hask hrefuses, consult_refused hask hrefuses,
          ih (h hrefuses)]
      | false =>
        rw [List.cons_append, consult_answered hask hrefuses, consult_answered hask hrefuses]

end Consult
