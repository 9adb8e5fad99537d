import Mathlib.Data.List.Basic
import Mathlib.Data.Int.Notation
import Mathlib.Data.Nat.Notation
import Mathlib.Tactic.Common

/-!
# Fallible computations

How `do` blocks in `Except` succeed and fail, and the step from an optional value to a
fallible one.
-/

namespace Except

universe u v

variable {ε : Type u} {α β : Type v}

@[simp] theorem bind_ok (a : α) (f : α → Except ε β) : (Except.ok a >>= f) = f a := rfl

@[simp] theorem bind_error (e : ε) (f : α → Except ε β) :
    (Except.error e >>= f) = Except.error e := rfl

/-- A sequence succeeds when both parts do. -/
theorem bind_eq_ok_iff {x : Except ε α} {f : α → Except ε β} {b : β} :
    (x >>= f) = .ok b ↔ ∃ a, x = .ok a ∧ f a = .ok b := by
  cases x <;> simp

/-- A sequence fails in its first part, or in its second after the first succeeded. -/
theorem bind_eq_error_iff {x : Except ε α} {f : α → Except ε β} {e : ε} :
    (x >>= f) = .error e ↔ x = .error e ∨ ∃ a, x = .ok a ∧ f a = .error e := by
  cases x <;> simp

theorem map_eq_ok {f : α → β} {x : Except ε α} {b : β} :
    x.map f = .ok b ↔ ∃ a, x = .ok a ∧ f a = b := by
  cases x <;> simp [Except.map]

theorem map_eq_error {f : α → β} {x : Except ε α} {e : ε} :
    x.map f = .error e ↔ x = .error e := by
  cases x <;> simp [Except.map]

@[simp] theorem toOption_ok (a : α) : (Except.ok a : Except ε α).toOption = some a := rfl

@[simp] theorem toOption_error (e : ε) : (Except.error e : Except ε α).toOption = none := rfl

theorem toOption_eq_some {x : Except ε α} {a : α} : x.toOption = some a ↔ x = .ok a := by
  cases x <;> simp

theorem toOption_bind (x : Except ε α) (f : α → Except ε β) :
    (x >>= f).toOption = x.toOption.bind fun a => (f a).toOption := by
  cases x <;> rfl

@[simp] theorem mapError_eq_ok {ε' : Type*} {f : ε → ε'} {x : Except ε α} {a : α} :
    x.mapError f = .ok a ↔ x = .ok a := by
  cases x <;> simp [Except.mapError]

/-- A list of computations that succeed, succeeds with their values. -/
theorem mapM_map_eq_ok {γ : Type*} {h : γ → α} {f : α → Except ε β} {g : γ → β} {xs : List γ}
    (hf : ∀ x ∈ xs, f (h x) = .ok (g x)) : (xs.map h).mapM f = .ok (xs.map g) := by
  induction xs with
  | nil => rfl
  | cons x xs ih =>
    obtain ⟨hx, hxs⟩ := List.forall_mem_cons.1 hf
    rw [List.map_cons, List.mapM_cons, hx, bind_ok, ih hxs]
    rfl

/-- Both computations succeed with related values, or both fail with the same error. -/
inductive Rel (R : α → β → Prop) : Except ε α → Except ε β → Prop
  | ok {a : α} {b : β} : R a b → Rel R (.ok a) (.ok b)
  | error (e : ε) : Rel R (.error e) (.error e)

section

universe w

variable {γ : Type v} {δ : Type v} {R : α → β → Prop} {S : γ → δ → Prop}
  {x : Except ε α} {y : Except ε β}

/-- Related computations go on to related computations. -/
theorem Rel.bind {f : α → Except ε γ} {g : β → Except ε δ} (h : Rel R x y)
    (hfg : ∀ a b, x = .ok a → y = .ok b → R a b → Rel S (f a) (g b)) :
    Rel S (x >>= f) (y >>= g) := by
  cases h with
  | ok hab => exact hfg _ _ rfl rfl hab
  | error e => exact .error e

theorem Rel.refl (x : Except ε α) : Rel Eq x x := by
  cases x with
  | ok a => exact .ok rfl
  | error e => exact .error e

theorem Rel.isOk (h : Rel R x y) : (∃ a, x = .ok a) ↔ ∃ b, y = .ok b := by
  cases h <;> simp

theorem Rel.of_ok {a : α} {b : β} (h : Rel R (.ok a : Except ε α) (.ok b)) : R a b := by
  cases h
  assumption

end

/-- The second list of results agrees with the first up to the first error of the first. -/
inductive Agree : List (Except ε α) → List (Except ε α) → Prop
  | nil : Agree [] []
  | ok (a : α) {as bs : List (Except ε α)} : Agree as bs → Agree (.ok a :: as) (.ok a :: bs)
  | error (e : ε) (as bs : List (Except ε α)) : Agree (.error e :: as) bs

/-- Without an error the lists are equal. -/
theorem Agree.eq_of_ok {as : List α} {bs : List (Except ε α)} (h : Agree (as.map .ok) bs) :
    bs = as.map .ok := by
  induction as generalizing bs with
  | nil => cases h; rfl
  | cons a as ih =>
    cases h with
    | ok _ h => rw [ih h, List.map_cons]

end Except

/-- The value of an option, or the error for its absence. -/
def Option.okOr {ε α : Type*} (o : Option α) (e : ε) : Except ε α :=
  match o with
  | some a => .ok a
  | none => .error e

namespace Option

variable {ε α : Type*}

@[simp] theorem okOr_some (a : α) (e : ε) : (some a).okOr e = .ok a := rfl

@[simp] theorem okOr_none (e : ε) : (none : Option α).okOr e = .error e := rfl

@[simp] theorem okOr_eq_ok {o : Option α} {e : ε} {a : α} : o.okOr e = .ok a ↔ o = some a := by
  cases o <;> simp

@[simp] theorem okOr_eq_error {o : Option α} {e e' : ε} :
    o.okOr e = .error e' ↔ o = none ∧ e = e' := by
  cases o <;> simp

end Option
