import Mathlib.Data.Finset.Card
import Mathlib.Order.Interval.Finset.Nat
import Mathlib.Tactic.Common

/-!
# Orbits of a partial function

The orbit of a point follows a partial function as long as it is defined. An orbit that comes
back to a point never ends, and an orbit in a finite set that is long enough comes back to a
point; so in a finite set the orbits without an end are the ones that revisit a point, and the
others are no longer than the set.
-/

variable {α : Type*}

/-- The point `k` steps of `f` lead to from `a`. -/
def Orbit (f : α → Option α) (a : α) : ℕ → Option α
  | 0 => some a
  | k + 1 => (Orbit f a k).bind f

namespace Orbit

/-- The orbit comes back to a point. -/
def Revisits (f : α → Option α) (a : α) : Prop :=
  ∃ i j b, i < j ∧ Orbit f a i = some b ∧ Orbit f a j = some b

variable {f : α → Option α} {a : α}

@[simp] theorem zero : Orbit f a 0 = some a := rfl

theorem succ_eq_some {k : ℕ} {c : α} :
    Orbit f a (k + 1) = some c ↔ ∃ b, Orbit f a k = some b ∧ f b = some c := by
  rw [Orbit, Option.bind_eq_some_iff]

/-- An orbit goes on as that of its second point does. -/
theorem succ_of_eq_some {b : α} (h : f a = some b) (k : ℕ) : Orbit f a (k + 1) = Orbit f b k := by
  induction k with
  | zero => exact h
  | succ k ih => rw [Orbit, ih, Orbit]

/-- An orbit that goes on for `k` steps has gone on for fewer. -/
theorem isSome_of_le {j k : ℕ} (hjk : j ≤ k) (h : (Orbit f a k).isSome) :
    (Orbit f a j).isSome := by
  induction k with
  | zero => rwa [Nat.le_zero.1 hjk]
  | succ k ih =>
    rcases Nat.lt_or_ge j (k + 1) with hlt | hge
    · obtain ⟨c, hc⟩ := Option.isSome_iff_exists.1 h
      obtain ⟨b, hb, -⟩ := succ_eq_some.1 hc
      exact ih (Nat.le_of_lt_succ hlt) (by rw [hb]; rfl)
    · rwa [Nat.le_antisymm hjk hge]

theorem eq_none_of_le {j k : ℕ} (hjk : j ≤ k) (h : Orbit f a j = none) :
    Orbit f a k = none := by
  by_contra hk
  have := isSome_of_le hjk (Option.isSome_iff_ne_none.2 hk)
  rw [h] at this
  cases this

/-- Equal points have equal futures. -/
theorem add_eq_of_eq {i j : ℕ} (h : Orbit f a i = Orbit f a j) (k : ℕ) :
    Orbit f a (i + k) = Orbit f a (j + k) := by
  induction k with
  | zero => exact h
  | succ k ih => rw [← Nat.add_assoc, ← Nat.add_assoc, Orbit, Orbit, ih]

/-- An orbit that comes back to a point never ends. -/
theorem Revisits.isSome (h : Revisits f a) (k : ℕ) : (Orbit f a k).isSome := by
  obtain ⟨i, j, b, hij, hi, hj⟩ := h
  induction k using Nat.strong_induction_on with
  | _ k ih =>
    rcases Nat.lt_or_ge k j with hlt | hge
    · exact isSome_of_le hlt.le (by rw [hj]; rfl)
    · have hback := add_eq_of_eq (hi.trans hj.symm) (k - j)
      rw [Nat.add_sub_cancel' hge] at hback
      rw [← hback]
      exact ih _ (by omega)

/-- An orbit inside a finite set that goes on for as many steps as the set has points comes
back to a point. -/
theorem revisits_of_isSome {s : Finset α} (hs : ∀ k b, Orbit f a k = some b → b ∈ s)
    (h : (Orbit f a s.card).isSome) : Revisits f a := by
  let point (k : ℕ) : α := (Orbit f a k).getD a
  have hpoint : ∀ k ∈ Finset.range (s.card + 1), Orbit f a k = some (point k) := by
    intro k hk
    have hsome := isSome_of_le (Nat.le_of_lt_succ (Finset.mem_range.1 hk)) h
    obtain ⟨b, hb⟩ := Option.isSome_iff_exists.1 hsome
    simp only [point, hb, Option.getD_some]
  have hmaps : ∀ k ∈ Finset.range (s.card + 1), point k ∈ s :=
    fun k hk => hs k _ (hpoint k hk)
  have hcard : s.card < (Finset.range (s.card + 1)).card := by simp
  obtain ⟨i, hi, j, hj, hne, heq⟩ :=
    Finset.exists_ne_map_eq_of_card_lt_of_maps_to hcard hmaps
  rcases Nat.lt_or_gt_of_ne hne with hij | hji
  · exact ⟨i, j, _, hij, hpoint i hi, by rw [hpoint j hj, heq]⟩
  · exact ⟨j, i, _, hji, hpoint j hj, by rw [hpoint i hi, heq]⟩

/-- Below `n`, the orbits that come back to a point are those that go on for `n` steps. -/
theorem revisits_iff {f : ℕ → Option ℕ} {a n : ℕ}
    (hn : ∀ k b, Orbit f a k = some b → b < n) : Revisits f a ↔ (Orbit f a n).isSome := by
  constructor
  · exact fun h => h.isSome n
  · intro h
    refine revisits_of_isSome (s := Finset.range n) ?_ (by rwa [Finset.card_range])
    exact fun k b hb => Finset.mem_range.2 (hn k b hb)

end Orbit
