import Mathlib.Tactic.Common

/-!
# Programs over a stack

A program that pops values off a stack, pushes values onto it and asks its environment for
others. Values below those a run reaches do not matter to it: a run that does not fall below the
bottom of its stack is the same over any other bottom.
-/

namespace Stack

/-- A program over a stack of `α` that asks queries `Q`, is answered `A` and stops with `R`. -/
inductive Program (α Q A R : Type) where
  | stop (result : R)
  | pop (next : α → Program α Q A R)
  | push (value : α) (next : Program α Q A R)
  | ask (query : Q) (next : A → Program α Q A R)

namespace Program

variable {α Q A R E : Type}

section

variable (answer : Q → Except E A)

/-- The result of a run from a stack, its top first; popping an empty stack has a result of its
own. -/
def exec (underflow : R) : Program α Q A R → List α → Except E R
  | stop result, _ => .ok result
  | pop _, [] => .ok underflow
  | pop next, value :: stack => exec underflow (next value) stack
  | push value next, stack => exec underflow next (value :: stack)
  | ask query next, stack => do
    let value ← answer query
    exec underflow (next value) stack

/-- A run from a stack comes to pop an empty one. -/
def Underflows : Program α Q A R → List α → Prop
  | stop _, _ => False
  | pop _, [] => True
  | pop next, value :: stack => Underflows (next value) stack
  | push value next, stack => Underflows next (value :: stack)
  | ask query next, stack => ∃ value, answer query = .ok value ∧ Underflows (next value) stack

end

variable {answer : Q → Except E A} {underflow : R} {p : Program α Q A R} {stack : List α}

theorem exec_of_underflows (h : p.Underflows answer stack) :
    p.exec answer underflow stack = .ok underflow := by
  induction p generalizing stack with
  | stop result => cases h
  | pop next ih =>
    cases stack with
    | nil => rfl
    | cons value stack => exact ih value h
  | push value next ih => exact ih h
  | ask query next ih =>
    obtain ⟨value, hanswer, h⟩ := h
    rw [exec, hanswer]
    exact ih value h

/-- What lies below the reach of a run does not matter. -/
theorem exec_append (h : ¬p.Underflows answer stack) (bottom : List α) :
    p.exec answer underflow (stack ++ bottom) = p.exec answer underflow stack := by
  induction p generalizing stack with
  | stop result => rfl
  | pop next ih =>
    cases stack with
    | nil => exact absurd trivial h
    | cons value stack => exact ih value h
  | push value next ih => exact ih h
  | ask query next ih =>
    rw [exec, exec]
    cases hanswer : answer query with
    | error error => rfl
    | ok value => exact ih value fun hunder => h ⟨value, hanswer, hunder⟩

end Program

end Stack
