import Mathlib.Data.List.Forall2
import Mathlib.Data.List.Nodup
import Mathlib.Logic.Function.Basic
import Mathlib.Tactic.Common

/-!
# Assigning a list of pairs

A function with the pairs of a list assigned to it one after the other. A key without a pair
keeps its value. When no key has two pairs, every key with one gets the value of its pair, so the
order of the list does not matter.
-/

namespace Assign

variable {κ ν : Type*} [DecidableEq κ] {f g : κ → ν} {l l' : List (κ × ν)}

/-- A function with the pairs of a list assigned to it in order. -/
def run (f : κ → ν) : List (κ × ν) → κ → ν
  | [] => f
  | p :: l => run (Function.update f p.1 p.2) l

@[simp] theorem run_nil (f : κ → ν) : run f [] = f := rfl

@[simp] theorem run_cons (f : κ → ν) (p : κ × ν) (l : List (κ × ν)) :
    run f (p :: l) = run (Function.update f p.1 p.2) l := rfl

theorem run_of_notMem {k : κ} (h : k ∉ l.map Prod.fst) : run f l k = f k := by
  induction l generalizing f with
  | nil => rfl
  | cons p l ih =>
    rw [List.map_cons, List.mem_cons, not_or] at h
    rw [run_cons, ih h.2, Function.update_of_ne h.1]

theorem run_of_mem (hl : (l.map Prod.fst).Nodup) {p : κ × ν} (hp : p ∈ l) :
    run f l p.1 = p.2 := by
  induction l generalizing f with
  | nil => cases hp
  | cons q l ih =>
    rw [List.map_cons, List.nodup_cons] at hl
    rcases List.mem_cons.1 hp with rfl | hp
    · -- the pairs behind have other keys
      rw [run_cons, run_of_notMem hl.1, Function.update_self]
    · exact ih hl.2 hp

/-- With distinct keys the assignment is given key by key. -/
theorem eq_run_iff (hl : (l.map Prod.fst).Nodup) :
    g = run f l ↔ (∀ p ∈ l, g p.1 = p.2) ∧ ∀ k ∉ l.map Prod.fst, g k = f k := by
  constructor
  · rintro rfl
    exact ⟨fun p hp => run_of_mem hl hp, fun k hk => run_of_notMem hk⟩
  · rintro ⟨hin, hout⟩
    funext k
    by_cases hk : k ∈ l.map Prod.fst
    · obtain ⟨p, hp, rfl⟩ := List.mem_map.1 hk
      rw [hin p hp, run_of_mem hl hp]
    · rw [hout k hk, run_of_notMem hk]

/-! ## Lists related element by element -/

section

variable {α β : Type*} {R : α → β → Prop}

theorem forall₂_exists {l : List α} (h : ∀ a ∈ l, ∃ b, R a b) : ∃ l', List.Forall₂ R l l' := by
  induction l with
  | nil => exact ⟨[], .nil⟩
  | cons a l ih =>
    obtain ⟨b, hb⟩ := h a List.mem_cons_self
    obtain ⟨l', hl'⟩ := ih fun a ha => h a (List.mem_cons_of_mem _ ha)
    exact ⟨b :: l', .cons hb hl'⟩

theorem forall₂_mem {l : List α} {l' : List β} (h : List.Forall₂ R l l') {a : α} (ha : a ∈ l) :
    ∃ b ∈ l', R a b := by
  induction h with
  | nil => cases ha
  | @cons a' b l l' hb _ ih =>
    rcases List.mem_cons.1 ha with rfl | ha
    · exact ⟨b, List.mem_cons_self, hb⟩
    · obtain ⟨b', hmem, hb'⟩ := ih ha
      exact ⟨b', List.mem_cons_of_mem _ hmem, hb'⟩

end

end Assign
