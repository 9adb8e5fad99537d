import Mathlib.Data.List.Induction
import Mathlib.Data.Nat.Notation
import Mathlib.Tactic.Common

/-!
# Items laid out back to back

A writer appends the octets of one item after the other, and an item may refer to where the items
before it begin. `emit` lays out a list and keeps the offsets; `emit_split` finds an item in what
was laid out.
-/

namespace Layout

/-- The octets of an item, given where the items before it begin and where it begins itself. -/
abbrev Writer (α β : Type) := List ℕ → ℕ → α → List β

variable {α β : Type} (write : Writer α β)

/-- Appends an item to what has been laid out. -/
def append (out : List ℕ × List β) (item : α) : List ℕ × List β :=
  (out.1 ++ [out.2.length], out.2 ++ write out.1 out.2.length item)

/-- The offsets and the octets of some items. -/
def emit (items : List α) : List ℕ × List β := items.foldl (append write) ([], [])

/-- Where an item begins. -/
def start (items : List α) (i : ℕ) : ℕ := (emit write (items.take i)).2.length

/-- The octets of an item in its place. -/
def octets (items : List α) (i : ℕ) (item : α) : List β :=
  write (emit write (items.take i)).1 (start write items i) item

variable {write} {items : List α} {item : α} {i j : ℕ}

theorem emit_concat (items : List α) (item : α) :
    emit write (items ++ [item]) = append write (emit write items) item := by
  rw [emit, List.foldl_append]
  rfl

@[simp] theorem length_offsets (write : Writer α β) (items : List α) :
    (emit write items).1.length = items.length := by
  induction items using List.reverseRecOn with
  | nil => rfl
  | append_singleton items item ih =>
    rw [emit_concat, append, List.length_append, List.length_append, ih]
    rfl

theorem take_concat (h : i ≤ items.length) : (items ++ [item]).take i = items.take i :=
  List.take_append_of_le_length h

/-- The offsets kept are where the items begin. -/
theorem offsets_get (h : i < items.length) :
    (emit write items).1[i]? = some (start write items i) := by
  induction items using List.reverseRecOn with
  | nil => exact absurd h (Nat.not_lt_zero _)
  | append_singleton items item ih =>
    rw [List.length_append, List.length_singleton] at h
    have hle : i ≤ items.length := Nat.le_of_lt_succ h
    have hstart : start write (items ++ [item]) i = start write items i := by
      rw [start, start, take_concat hle]
    rw [hstart, emit_concat, append]
    rcases Nat.lt_or_eq_of_le hle with hlt | rfl
    · rw [List.getElem?_append_left (by rwa [length_offsets])]
      exact ih hlt
    · have hlength := length_offsets write items
      rw [List.getElem?_append_right (Nat.le_of_eq hlength), hlength, Nat.sub_self, start,
        List.take_length]
      rfl

/-- An item is found where it begins. -/
theorem emit_split (write : Writer α β) (h : items[i]? = some item) :
    ∃ after, (emit write items).2 =
      (emit write (items.take i)).2 ++ (octets write items i item ++ after) := by
  induction items using List.reverseRecOn with
  | nil => cases h
  | append_singleton items last ih =>
    obtain ⟨hlt, -⟩ := List.getElem?_eq_some_iff.1 h
    rw [List.length_append, List.length_singleton] at hlt
    have hle : i ≤ items.length := Nat.le_of_lt_succ hlt
    have hoctets : octets write (items ++ [last]) i item = octets write items i item := by
      rw [octets, octets, start, start, take_concat hle]
    rw [hoctets, take_concat hle, emit_concat, append]
    rcases Nat.lt_or_eq_of_le hle with hlt | rfl
    · rw [List.getElem?_append_left hlt] at h
      obtain ⟨after, hafter⟩ := ih h
      refine ⟨after ++ write (emit write items).1 (emit write items).2.length last, ?_⟩
      dsimp only
      rw [hafter, List.append_assoc, List.append_assoc]
    · rw [List.getElem?_append_right (Nat.le_refl _), Nat.sub_self] at h
      obtain rfl := Option.some.inj h
      refine ⟨[], ?_⟩
      rw [octets, start, List.take_length, List.append_nil]

theorem take_take (h : j ≤ i) : (items.take i).take j = items.take j := by
  rw [List.take_take, Nat.min_eq_left h]

/-- An item sees where the ones before it begin. -/
theorem offsets_before (hlt : j < i) (hle : i ≤ items.length) :
    (emit write (items.take i)).1[j]? = some (start write items j) := by
  rw [offsets_get (by rw [List.length_take]; omega), start, start, take_take (Nat.le_of_lt hlt)]

/-- Items do not overlap. -/
theorem start_le_start (write : Writer α β) (h : items[j]? = some item) (hlt : j < i) :
    start write items j + (octets write items j item).length ≤ start write items i := by
  have htake : (items.take i)[j]? = some item := by rw [List.getElem?_take_of_lt hlt, h]
  obtain ⟨after, hafter⟩ := emit_split write htake
  have hoctets : octets write (items.take i) j item = octets write items j item := by
    rw [octets, octets, start, start, take_take (Nat.le_of_lt hlt)]
  rw [take_take (Nat.le_of_lt hlt), hoctets] at hafter
  rw [start, start, hafter, List.length_append, List.length_append]
  omega

/-- Items that are not empty begin ever later. -/
theorem le_start (hpos : ∀ starts here item, 0 < (write starts here item).length)
    (h : i ≤ items.length) : i ≤ start write items i := by
  induction i with
  | zero => exact Nat.zero_le _
  | succ i ih =>
    have hget : items[i]? = some items[i] := List.getElem?_eq_getElem h
    have hnext := start_le_start write hget (Nat.lt_add_one i)
    have hlength := hpos (emit write (items.take i)).1 (start write items i) items[i]
    have hle := ih (Nat.le_of_succ_le h)
    rw [octets] at hnext
    omega

theorem start_le_length (write : Writer α β) (h : items[i]? = some item) :
    start write items i + (octets write items i item).length ≤ (emit write items).2.length := by
  obtain ⟨after, hafter⟩ := emit_split write h
  rw [hafter, List.length_append, List.length_append, start]
  omega

end Layout
