import Desenredo.Library.Except

/-!
# Pull iterators

An iterator is a function `next` from a state to the item one call yields, if any, and the
state the call leaves. `Yields next s items` says what every call from `s` on returns: the
items in order, and nothing on every later call. `items` computes the list; it is the right
one (`yields_items`) as soon as every item uses up some measure of the state.
-/

namespace Iter

variable {σ α : Type*} {next : σ → Option α × σ}

/-- What call number `k` of `next` yields, counting from zero. -/
def call (next : σ → Option α × σ) : σ → ℕ → Option α
  | s, 0 => (next s).1
  | s, k + 1 => call next (next s).2 k

/-- The state `k` calls leave. -/
def state (next : σ → Option α × σ) (s : σ) : ℕ → σ
  | 0 => s
  | k + 1 => (next (state next s k)).2

/-- The calls from `s` on yield exactly `items`, in order, and nothing ever after. -/
def Yields (next : σ → Option α × σ) (s : σ) (items : List α) : Prop :=
  ∀ k, call next s k = items[k]?

/-- The items of at most `n` calls, up to the first call that yields nothing. -/
def items (next : σ → Option α × σ) : ℕ → σ → List α
  | 0, _ => []
  | n + 1, s =>
    match next s with
    | (none, _) => []
    | (some a, t) => a :: items next n t

theorem state_next (s : σ) (k : ℕ) : state next (next s).2 k = state next s (k + 1) := by
  induction k with
  | zero => rfl
  | succ k ih => rw [state, ih]; rfl

/-- A call yields what `next` yields in the state the earlier calls leave. -/
theorem call_eq (s : σ) (k : ℕ) : call next s k = (next (state next s k)).1 := by
  induction k generalizing s with
  | zero => rfl
  | succ k ih => rw [call, ih, state_next]

/-- A call that yields nothing is followed only by calls that yield nothing. -/
def Fused (next : σ → Option α × σ) : Prop :=
  ∀ s, (next s).1 = none → (next (next s).2).1 = none

theorem Fused.call_eq_none (h : Fused next) {s : σ} (hs : (next s).1 = none) (k : ℕ) :
    call next s k = none := by
  induction k generalizing s with
  | zero => exact hs
  | succ k ih => exact ih (h s hs)

theorem Fused.yields_nil (h : Fused next) {s : σ} (hs : (next s).1 = none) :
    Yields next s [] := by
  intro k
  rw [h.call_eq_none hs k, List.getElem?_nil]

theorem yields_cons {s t : σ} {a : α} {as : List α} (h : next s = (some a, t)) :
    Yields next s (a :: as) ↔ Yields next t as := by
  constructor
  · intro hy k
    have hk := hy (k + 1)
    rw [call, h, List.getElem?_cons_succ] at hk
    exact hk
  · rintro hy (_ | k)
    · rw [call, h, List.getElem?_cons_zero]
    · rw [call, h, List.getElem?_cons_succ]
      exact hy k

/-- The items an iterator yields are determined by its calls. -/
theorem Yields.unique {s : σ} {as bs : List α} (ha : Yields next s as)
    (hb : Yields next s bs) : as = bs :=
  List.ext_getElem? fun k => (ha k).symm.trans (hb k)

theorem Yields.length_le (measure : σ → ℕ)
    (hdec : ∀ s a t, next s = (some a, t) → measure t < measure s) {s : σ} {as : List α}
    (h : Yields next s as) : as.length ≤ measure s := by
  induction as generalizing s with
  | nil => exact Nat.zero_le _
  | cons a as ih =>
    have hs : next s = (some a, (next s).2) := Prod.ext (h 0) rfl
    have hlt := hdec _ _ _ hs
    have hle := ih ((yields_cons hs).1 h)
    rw [List.length_cons]
    omega

/-- An iterator whose every item uses up `measure` yields what `items` computes. -/
theorem yields_items (hfused : Fused next) (measure : σ → ℕ)
    (hdec : ∀ s a t, next s = (some a, t) → measure t < measure s) {n : ℕ} {s : σ}
    (hn : measure s < n) : Yields next s (items next n s) := by
  induction n generalizing s with
  | zero => omega
  | succ n ih =>
    cases hs : next s with
    | mk item t =>
      cases item with
      | none =>
        simp only [items, hs]
        exact hfused.yields_nil (by rw [hs])
      | some a =>
        simp only [items, hs]
        rw [yields_cons hs]
        exact ih (by have := hdec s a t hs; omega)

/-! ## Two iterators side by side -/

section

variable {τ β : Type*} {next' : τ → Option β × τ} {R : σ → τ → Prop} {S : α → β → Prop}

/-- Related states that one call keeps related. -/
def Bisimilar (next : σ → Option α × σ) (next' : τ → Option β × τ) (R : σ → τ → Prop)
    (S : α → β → Prop) : Prop :=
  ∀ s t, R s t → Option.Rel S (next s).1 (next' t).1 ∧ R (next s).2 (next' t).2

theorem Bisimilar.call (h : Bisimilar next next' R S) {s : σ} {t : τ} (hst : R s t) (k : ℕ) :
    Option.Rel S (Iter.call next s k) (Iter.call next' t k) := by
  induction k generalizing s t with
  | zero => exact (h s t hst).1
  | succ k ih => exact ih (h s t hst).2

theorem Bisimilar.items (h : Bisimilar next next' R S) {s : σ} {t : τ} (hst : R s t) (n : ℕ) :
    List.Forall₂ S (Iter.items next n s) (Iter.items next' n t) := by
  induction n generalizing s t with
  | zero => exact .nil
  | succ n ih =>
    obtain ⟨hitem, hnext⟩ := h s t hst
    cases hs : next s with
    | mk a s' =>
      cases ht : next' t with
      | mk b t' =>
        rw [hs, ht] at hitem hnext
        cases hitem with
        | none =>
          simp only [Iter.items, hs, ht]
          exact .nil
        | some hab =>
          simp only [Iter.items, hs, ht]
          exact .cons hab (ih hnext)

end

section

variable {τ ε : Type*} {β : Type*} {next : σ → Option (Except ε β) × σ}
  {next' : τ → Option (Except ε β) × τ} {R : σ → τ → Prop}

/-- An iterator that follows another one as long as it yields no error. -/
structure Follows (next : σ → Option (Except ε β) × σ) (next' : τ → Option (Except ε β) × τ)
    (R : σ → τ → Prop) : Prop where
  ok : ∀ s t b s', R s t → next s = (some (.ok b), s') →
    ∃ t', next' t = (some (.ok b), t') ∧ R s' t'
  stop : ∀ s t, R s t → (next s).1 = none → (next' t).1 = none

theorem Follows.agree (h : Follows next next' R) {s : σ} {t : τ} (hst : R s t)
    {as bs : List (Except ε β)} (ha : Yields next s as) (hb : Yields next' t bs) :
    Except.Agree as bs := by
  induction as generalizing s t bs with
  | nil =>
    have hnone := h.stop s t hst (ha 0)
    have hfirst := (hb 0).symm.trans hnone
    rw [List.getElem?_eq_none_iff, Nat.le_zero, List.length_eq_zero_iff] at hfirst
    rw [hfirst]
    exact .nil
  | cons a as ih =>
    cases a with
    | error e => exact .error e as bs
    | ok b =>
      have hs : next s = (some (.ok b), (next s).2) := Prod.ext (ha 0) rfl
      obtain ⟨t', ht, hst'⟩ := h.ok s t b _ hst hs
      have hfirst : bs[0]? = some (.ok b) := by
        rw [← hb 0, call, ht]
      obtain ⟨c, bs, rfl⟩ := List.exists_cons_of_ne_nil (l := bs) (by rintro rfl; simp at hfirst)
      obtain rfl : c = .ok b := by simpa using hfirst
      exact .ok b (ih hst' ((yields_cons hs).1 ha) ((yields_cons ht).1 hb))

end

end Iter
