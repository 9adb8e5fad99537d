import Mathlib.Tactic.Common

/-!
# Scopes that own values

Computations over a state that may hand control away for good. A value owned by a scope is
released where the scope ends. A computation that does not come back never reaches that end, so
what its scopes own stays unreleased.
-/

/-- A computation over a state: its value if it comes back, and the state either way. -/
structure Proc (σ α : Type) where
  run : σ → Option α × σ

namespace Proc

variable {σ α β : Type}

instance : Monad (Proc σ) where
  pure a := ⟨fun s => (some a, s)⟩
  bind x f := ⟨fun s =>
    match x.run s with
    | (some a, t) => (f a).run t
    | (none, t) => (none, t)⟩

/-- Changes the state. -/
def modify (f : σ → σ) : Proc σ Unit := ⟨fun s => (some (), f s)⟩

/-- Reads a part of the state that may not be there; reading what is not there does not come
back. -/
def view (f : σ → Option α) : Proc σ α := ⟨fun s => (f s, s)⟩

/-- Hands control away. -/
def diverge : Proc σ α := ⟨fun s => (none, s)⟩

/-- A body whose scope owns a value: the value is released where the body has come to its end. -/
def owning (release : Proc σ Unit) (body : Proc σ α) : Proc σ α := do
  let a ← body
  release
  pure a

@[simp] theorem run_pure (a : α) (s : σ) : (pure a : Proc σ α).run s = (some a, s) := rfl

@[simp] theorem run_view (f : σ → Option α) (s : σ) : (view f).run s = (f s, s) := rfl

theorem run_bind_of_some {x : Proc σ α} {f : α → Proc σ β} {s t : σ} {a : α}
    (h : x.run s = (some a, t)) : (x >>= f).run s = (f a).run t := by
  show (match x.run s with | (some a, t) => (f a).run t | (none, t) => (none, t)) = _
  rw [h]

theorem run_bind_of_none {x : Proc σ α} {f : α → Proc σ β} {s t : σ} (h : x.run s = (none, t)) :
    (x >>= f).run s = (none, t) := by
  show (match x.run s with | (some a, t) => (f a).run t | (none, t) => (none, t)) = _
  rw [h]

/-- The scope of a body that comes back releases what it owns. -/
theorem owning_of_some {release : Proc σ Unit} {body : Proc σ α} {s t u : σ} {a : α}
    (hbody : body.run s = (some a, t)) (hrelease : release.run t = (some (), u)) :
    (owning release body).run s = (some a, u) := by
  rw [owning, run_bind_of_some hbody, run_bind_of_some hrelease, run_pure]

/-- The scope of a body that does not come back releases nothing. -/
theorem owning_of_none {release : Proc σ Unit} {body : Proc σ α} {s t : σ}
    (hbody : body.run s = (none, t)) : (owning release body).run s = (none, t) := by
  rw [owning, run_bind_of_none hbody]

end Proc
