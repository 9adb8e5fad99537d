import Desenredo.Library.Orbit
import Desenredo.Lsda.TableTheorems

/-!
# Action chains follow their links

An action record stands at an offset of the table; its link leads to the offset of the next
record. What a record says depends on how its two signed fields are read, so everything here is
stated for a reader of fields. The records of a chain are the orbit of `Lsda.link` from the first
offset. The iterator yields those the parser reads in order and one at a time, and its progress
budget runs out exactly on the orbits that come back to an offset.
-/

namespace Desenredo

open Usize

/-! ## Records and their links -/

/-- The fields of the action record at one offset. -/
structure ActionRecord where
  index : ℤ
  /-- The offset of the link field. -/
  link : ℕ
  /-- The displacement the link field stores. -/
  delta : ℤ
deriving DecidableEq

/-- A reader of signed fields: what follows a field, and its number. -/
abbrev Field := List UInt8 → Option (List UInt8 × ℤ)

/-- The parser's own reader. -/
def Field.read : Field := fun input => (sleb input).toOption

theorem Field.read_eq_some {input rest : List UInt8} {v : ℤ} :
    Field.read input = some (rest, v) ↔ sleb input = .ok (rest, v) := Except.toOption_eq_some

namespace Lsda

/-- The action record at one offset. -/
def record (lsda : Lsda) (field : Field) (offset : ℕ) : Option ActionRecord := do
  let input := lsda.bytes.drop offset
  let (link, index) ← field input
  let (_, delta) ← field link
  some ⟨index, offset + (input.length - link.length), delta⟩

/-- An offset at which an action record may begin. -/
def InActions (lsda : Lsda) (offset : ℤ) : Prop :=
  lsda.actionOffset ≤ offset ∧ offset < lsda.bytes.length

instance (lsda : Lsda) (offset : ℤ) : Decidable (lsda.InActions offset) := by
  unfold InActions
  infer_instance

/-- The offset the record at `offset` links to. -/
def link (lsda : Lsda) (field : Field) (offset : ℕ) : Option ℕ :=
  match lsda.record field offset with
  | some r =>
    if r.delta ≠ 0 ∧ lsda.InActions (r.link + r.delta) then some (r.link + r.delta).toNat
    else none
  | none => none

/-- The offset of the first record of a chain. -/
def first (lsda : Lsda) (action : Action) : ℕ := lsda.actionOffset + action.raw - 1

/-- The offsets a chain visits, in order. -/
abbrev path (lsda : Lsda) (field : Field) (action : Action) : ℕ → Option ℕ :=
  Orbit (lsda.link field) (lsda.first action)

end Lsda

/-- The kind a record's index stands for: positive indices name a catch type, negative ones
an exception specification. -/
def Kind.ofIndex (index : ℤ) : Kind :=
  if h : index = 0 then .cleanup
  else if 0 < index then .catch ⟨index.natAbs, Int.natAbs_ne_zero.2 h⟩
  else .filter ⟨index.natAbs, Int.natAbs_ne_zero.2 h⟩

theorem Kind.new_eq {index : ℤ} (hlow : -2 ^ 63 ≤ index) (hhigh : index < 2 ^ 63) :
    Kind.new index = .ok (.ofIndex index) := by
  have hfit : tryFromInt index.natAbs = some index.natAbs :=
    tryFromInt_eq_some.2 ⟨rfl, by rw [size]; omega⟩
  by_cases hzero : index = 0
  · rw [Kind.new, ofIndex, if_pos hzero, dif_pos hzero]
  have hnat := Int.natAbs_ne_zero.2 hzero
  have hnew : NonZeroUsize.new index.natAbs = some ⟨index.natAbs, hnat⟩ := dif_pos hnat
  rw [Kind.new, ofIndex, if_neg hzero, dif_neg hzero]
  split
  · rename_i hpos
    have hfit' : tryFromInt index = some index.natAbs := by
      rw [← hfit, Int.natAbs_of_nonneg hpos.le]
    simp only [hfit', hnew, Option.okOr_some, Except.bind_ok]
  · simp only [hfit, hnew, Option.okOr_some, Except.bind_ok]

/-! ## One record -/

theorem takeBytes_of_le {count : ℕ} {input : List UInt8} (h : count ≤ input.length) :
    takeBytes count input = .ok (input.drop count, input.take count) := if_pos h

namespace Lsda

variable {lsda : Lsda} {field : Field}

/-- The record at an offset can be decoded, and ends the chain or links into the action
table. -/
def Sound (lsda : Lsda) (field : Field) (offset : ℕ) : Prop :=
  ∃ r, lsda.record field offset = some r ∧ (r.delta = 0 ∨ lsda.InActions (r.link + r.delta))

theorem record_eq_some {offset : ℕ} {r : ActionRecord} :
    lsda.record field offset = some r ↔ ∃ link rest,
      field (lsda.bytes.drop offset) = some (link, r.index) ∧ field link = some (rest, r.delta) ∧
      r.link = offset + ((lsda.bytes.drop offset).length - link.length) := by
  simp only [record, Option.bind_eq_bind, Option.bind_eq_some_iff, Prod.exists]
  constructor
  · rintro ⟨link, index, hindex, rest, delta, hdelta, h⟩
    obtain rfl := Option.some.inj h
    exact ⟨link, rest, hindex, hdelta, rfl⟩
  · rintro ⟨link, rest, hindex, hdelta, hlink⟩
    exact ⟨link, r.index, hindex, rest, r.delta, hdelta, by rw [← hlink]⟩

theorem record_read {offset : ℕ} {r : ActionRecord} (h : lsda.record .read offset = some r) :
    ∃ link rest, sleb (lsda.bytes.drop offset) = .ok (link, r.index) ∧
      sleb link = .ok (rest, r.delta) ∧ position lsda.bytes link = .ok r.link := by
  obtain ⟨link, rest, hindex, hdelta, hlink⟩ := record_eq_some.1 h
  rw [Field.read_eq_some] at hindex hdelta
  refine ⟨link, rest, hindex, hdelta, ?_⟩
  have hconsumed := sleb_consumes _ _ _ hindex
  rw [List.length_drop] at hconsumed
  rw [position, Option.okOr_eq_ok, checkedSub_eq_some, hlink, List.length_drop]
  omega

theorem follow_eq {link : List UInt8} {offset : ℕ} {delta : ℤ}
    (hlen : lsda.bytes.length ≤ maxSlice) (hlink : position lsda.bytes link = .ok offset)
    (hdelta : delta ≠ 0) :
    Chain.follow lsda.bytes lsda.actionOffset link delta =
      if lsda.InActions (offset + delta) then
        .ok (some (lsda.bytes.drop (offset + delta).toNat))
      else .error .table := by
  rw [Chain.follow, if_neg hdelta, hlink, Except.bind_ok]
  by_cases hin : lsda.InActions (offset + delta)
  · obtain ⟨hfloor, hend⟩ := id hin
    have htarget : tryFromInt (offset + delta) = some (offset + delta).toNat :=
      tryFromInt_eq_some.2 ⟨by omega, by rw [size]; rw [maxSlice] at hlen; omega⟩
    rw [if_pos hin, htarget, Option.okOr_some, Except.bind_ok, if_pos (by omega),
      takeBytes_of_le (by omega)]
    rfl
  · rw [if_neg hin]
    cases htarget : tryFromInt (offset + delta) with
    | none => rfl
    | some target =>
      have hvalue := (tryFromInt_eq_some.1 htarget).1
      rw [Option.okOr_some, Except.bind_ok, if_neg]
      exact fun h => hin ⟨by omega, by omega⟩

theorem record_of_none {offset : ℕ} (h : lsda.record .read offset = none) :
    ∃ e, (e = .eof ∨ e = .overflow) ∧
      Chain.record lsda.bytes lsda.actionOffset (lsda.bytes.drop offset) = .error e := by
  cases hindex : sleb (lsda.bytes.drop offset) with
  | error e => exact ⟨e, sleb_error hindex, by simp only [Chain.record, hindex, Except.bind_error]⟩
  | ok found =>
    obtain ⟨link, index⟩ := found
    cases hdelta : sleb link with
    | error e =>
      exact ⟨e, sleb_error hdelta, by
        simp only [Chain.record, hindex, hdelta, Except.bind_ok, Except.bind_error]⟩
    | ok found =>
      have hsome := record_eq_some (r := ⟨index, _, found.2⟩).2
        ⟨link, found.1, Field.read_eq_some.2 hindex, Field.read_eq_some.2 hdelta, rfl⟩
      rw [h] at hsome
      cases hsome

theorem sound_of_link {offset target : ℕ} (h : lsda.link field offset = some target) :
    lsda.Sound field offset := by
  rw [Lsda.link] at h
  split at h
  · rename_i r hr
    split at h
    · rename_i hin
      exact ⟨r, hr, .inr hin.2⟩
    · cases h
  · cases h

theorem link_of_record {offset : ℕ} {r : ActionRecord} (h : lsda.record field offset = some r) :
    lsda.link field offset = if r.delta ≠ 0 ∧ lsda.InActions (r.link + r.delta)
      then some (r.link + r.delta).toNat else none := by
  rw [link, h]

/-- What the iterator makes of a sound record. -/
theorem record_of_sound (hlen : lsda.bytes.length ≤ maxSlice) {offset : ℕ} {r : ActionRecord}
    (h : lsda.record .read offset = some r)
    (hsound : r.delta = 0 ∨ lsda.InActions (r.link + r.delta)) :
    Chain.record lsda.bytes lsda.actionOffset (lsda.bytes.drop offset) =
      .ok (.ofIndex r.index, (lsda.link .read offset).map (lsda.bytes.drop ·)) := by
  obtain ⟨link, rest, hindex, hdelta, hlink⟩ := record_read h
  have hrange := sleb_range hindex
  simp only [Chain.record, hindex, hdelta, Except.bind_ok, Kind.new_eq hrange.1 hrange.2,
    link_of_record h]
  by_cases hzero : r.delta = 0
  · simp [Chain.follow, hzero]
  · have hin := hsound.resolve_left hzero
    rw [follow_eq hlen hlink hzero, if_pos hin, if_pos ⟨hzero, hin⟩]
    rfl

theorem link_of_not_sound {offset : ℕ} (h : ¬lsda.Sound field offset) :
    lsda.link field offset = none := by
  cases hlink : lsda.link field offset with
  | none => rfl
  | some target => exact absurd (sound_of_link hlink) h

/-- What the iterator makes of any other record. -/
theorem record_of_not_sound (hlen : lsda.bytes.length ≤ maxSlice) {offset : ℕ}
    (h : ¬lsda.Sound .read offset) : ∃ e, e ≠ .loop ∧
      Chain.record lsda.bytes lsda.actionOffset (lsda.bytes.drop offset) = .error e := by
  cases hrecord : lsda.record .read offset with
  | some r =>
    have hout : ¬(r.delta = 0 ∨ lsda.InActions (r.link + r.delta)) :=
      fun hsound => h ⟨r, hrecord, hsound⟩
    rw [not_or] at hout
    obtain ⟨link, rest, hindex, hdelta, hlink⟩ := record_read hrecord
    have hrange := sleb_range hindex
    refine ⟨.table, by decide, ?_⟩
    simp only [Chain.record, hindex, hdelta, Except.bind_ok, Kind.new_eq hrange.1 hrange.2,
      follow_eq hlen hlink hout.1, if_neg hout.2, Except.bind_error]
  | none =>
    obtain ⟨e, he, hnext⟩ := record_of_none hrecord
    refine ⟨e, ?_, hnext⟩
    rcases he with rfl | rfl <;> decide

end Lsda

/-! ## The iterator -/

namespace Chain

open Lsda

variable {lsda : Lsda}

/-- The iterator before the record at `offset`, with `fuel` records left to read. -/
def before (lsda : Lsda) (offset : Option ℕ) (fuel : ℕ) : Chain :=
  ⟨lsda.bytes, offset.map (lsda.bytes.drop ·), fuel, lsda.actionOffset⟩

theorem next_of_sound (hlen : lsda.bytes.length ≤ maxSlice) {offset fuel : ℕ} {r : ActionRecord}
    (h : lsda.record .read offset = some r)
    (hsound : r.delta = 0 ∨ lsda.InActions (r.link + r.delta)) :
    next (before lsda (some offset) (fuel + 1)) =
      (some (.ok (.ofIndex r.index)), before lsda (lsda.link .read offset) fuel) := by
  simp only [next, before, Option.map_some, Nat.succ_ne_zero, if_false, Nat.add_sub_cancel,
    record_of_sound hlen h hsound]

theorem next_of_not_sound (hlen : lsda.bytes.length ≤ maxSlice) {offset : ℕ}
    (h : ¬lsda.Sound .read offset) (fuel : ℕ) :
    ∃ e, e ≠ .loop ∧ next (before lsda (some offset) (fuel + 1)) =
      (some (.error e), before lsda (lsda.link .read offset) fuel) := by
  obtain ⟨e, he, hrecord⟩ := record_of_not_sound hlen h
  refine ⟨e, he, ?_⟩
  simp only [next, before, Option.map_some, Nat.succ_ne_zero, if_false, Nat.add_sub_cancel,
    hrecord, link_of_not_sound h, Option.map_none]

theorem next_of_exhausted (offset : ℕ) :
    next (before lsda (some offset) 0) = (some (.error .loop), before lsda none 0) := rfl

theorem next_of_end (fuel : ℕ) : next (before lsda none fuel) = (none, before lsda none fuel) := rfl

/-- A call that has records left to read moves on to the linked record. -/
theorem next_state (hlen : lsda.bytes.length ≤ maxSlice) (offset fuel : ℕ) :
    (next (before lsda (some offset) (fuel + 1))).2 =
      before lsda (lsda.link .read offset) fuel := by
  by_cases h : lsda.Sound .read offset
  · obtain ⟨r, hr, hsound⟩ := h
    rw [next_of_sound hlen hr hsound]
  · obtain ⟨e, -, hnext⟩ := next_of_not_sound hlen h fuel
    rw [hnext]

/-- `Lsda.chain` succeeds when the first offset is inside the action table. -/
theorem chain_eq_ok {action : Action} {c : Chain} (hlen : lsda.bytes.length ≤ maxSlice)
    (h : lsda.chain action = .ok c) :
    lsda.InActions (lsda.first action) ∧
      c = before lsda (some (lsda.first action)) (lsda.bytes.length + 1) := by
  have hpos : (action.raw : ℕ) ≠ 0 := action.raw.2
  simp only [Lsda.chain, Except.bind_eq_ok_iff, Option.okOr_eq_ok, checkedSub_eq_some,
    checkedAdd_eq_some] at h
  obtain ⟨relative, ⟨hone, rfl⟩, first, ⟨-, rfl⟩, h⟩ := h
  have hfirst : lsda.actionOffset + (action.raw - 1) = lsda.first action := by
    rw [first]
    omega
  rw [hfirst] at h
  split at h
  · rename_i hin
    rw [takeBytes_of_le hin.le] at h
    have hfuel : saturatingAdd lsda.bytes.length 1 = lsda.bytes.length + 1 := by
      rw [saturatingAdd, size]
      rw [maxSlice] at hlen
      omega
    rw [hfuel] at h
    refine ⟨⟨?_, by exact_mod_cast hin⟩, (Except.ok.inj h).symm⟩
    rw [first]
    omega
  · cases h

/-! ## Runs of the iterator -/

theorem next_none {c : Chain} (h : c.rest = none) : next c = (none, c) := by
  rw [next, h]

theorem rest_of_next_none {c : Chain} (h : (next c).1 = none) : c.rest = none := by
  grind [next]

theorem fused : Iter.Fused next := by
  intro c h
  have hrest := rest_of_next_none h
  rw [next_none hrest, next_none hrest]

/-- The number of calls of an iterator that can still yield an item. -/
def budget (c : Chain) : ℕ := if c.rest.isSome then c.fuel + 1 else 0

theorem budget_lt (c : Chain) (item : Except LsdaError Kind) (d : Chain)
    (h : next c = (some item, d)) : d.budget < c.budget := by
  -- a call uses up fuel or leaves nothing to read
  have hfuel : d.fuel + 1 ≤ c.fuel ∨ d.rest = none := by grind [next]
  have hsome : c.rest.isSome := by grind [next]
  rw [budget, budget, if_pos hsome]
  split <;> grind

/-- `items` lists what the iterator yields. -/
theorem yields_items (c : Chain) : Iter.Yields next c c.items :=
  Iter.yields_items fused budget budget_lt (by rw [budget]; split <;> omega)

section

variable {action : Action} {field : Field} (hlen : lsda.bytes.length ≤ maxSlice)
  (hfirst : lsda.InActions (lsda.first action))

include hfirst in
/-- Every visited offset is inside the action table. -/
theorem path_inActions {k offset : ℕ} (h : lsda.path field action k = some offset) :
    lsda.InActions offset := by
  cases k with
  | zero => exact Option.some.inj h ▸ hfirst
  | succ k =>
    obtain ⟨previous, -, hlink⟩ := Orbit.succ_eq_some.1 h
    rw [Lsda.link] at hlink
    split at hlink
    · split at hlink
      · rename_i hin
        rw [← Option.some.inj hlink, Int.toNat_of_nonneg (by have := hin.2.1; omega)]
        exact hin.2
      · cases hlink
    · cases hlink

include hlen in
/-- While the budget lasts, the iterator stands on the offset the path has reached. -/
theorem state_of_path {k offset : ℕ} (h : lsda.path .read action k = some offset)
    (hk : k ≤ lsda.bytes.length + 1) :
    Iter.state next (before lsda (some (lsda.first action)) (lsda.bytes.length + 1)) k =
      before lsda (some offset) (lsda.bytes.length + 1 - k) := by
  induction k generalizing offset with
  | zero => rw [← Option.some.inj h]; rfl
  | succ k ih =>
    obtain ⟨previous, hprevious, hlink⟩ := Orbit.succ_eq_some.1 h
    have hfuel : lsda.bytes.length + 1 - k = lsda.bytes.length + 1 - (k + 1) + 1 := by omega
    rw [Iter.state, ih hprevious (by omega), hfuel, next_state hlen, hlink]

include hfirst in
/-- The paths that come back to an offset are those that outlast the budget. -/
theorem revisits_iff :
    Orbit.Revisits (lsda.link field) (lsda.first action) ↔
      (lsda.path field action (lsda.bytes.length + 1)).isSome := by
  refine ⟨fun h => h.isSome _, fun h => ?_⟩
  refine (Orbit.revisits_iff fun k offset hk => ?_).2
    (Orbit.isSome_of_le (Nat.le_succ lsda.bytes.length) h)
  have := (path_inActions hfirst hk).2
  exact_mod_cast this

include hfirst in
/-- A path that ends does so within the budget. -/
theorem le_of_link_eq_none {k offset : ℕ} (h : lsda.path field action k = some offset)
    (hlink : lsda.link field offset = none) :
    k ≤ lsda.bytes.length ∧ ∀ j > k, lsda.path field action j = none := by
  have hend : lsda.path field action (k + 1) = none := by
    rw [path, Orbit, show Orbit _ _ k = _ from h]
    exact hlink
  refine ⟨?_, fun j hj => Orbit.eq_none_of_le hj hend⟩
  -- a path that outlasts the budget revisits an offset, and then never ends
  by_contra hk
  have hsome := Orbit.isSome_of_le (j := lsda.bytes.length + 1) (by omega)
    (show (lsda.path field action k).isSome by rw [h]; rfl)
  have := ((revisits_iff hfirst).2 hsome).isSome (k + 1)
  rw [show Orbit _ _ (k + 1) = _ from hend] at this
  cases this

include hlen in
/-- Behind the end of the path, and behind the budget, nothing is left to read. -/
theorem state_of_end {k : ℕ} (h : lsda.path .read action k = none ∨ lsda.bytes.length + 1 < k) :
    ∃ fuel, Iter.state next
      (before lsda (some (lsda.first action)) (lsda.bytes.length + 1)) k =
        before lsda none fuel := by
  induction k with
  | zero => rcases h with h | h <;> simp at h
  | succ k ih =>
    by_cases hend : lsda.path .read action k = none ∨ lsda.bytes.length + 1 < k
    · obtain ⟨fuel, hfuel⟩ := ih hend
      exact ⟨fuel, by rw [Iter.state, hfuel, next_of_end]⟩
    -- the call before this one read the last record, or the last one the budget allows
    · obtain ⟨hsome, hk⟩ := not_or.1 hend
      obtain ⟨offset, hoffset⟩ := Option.ne_none_iff_exists'.1 hsome
      rw [Iter.state, state_of_path hlen hoffset (by omega)]
      rcases Nat.lt_or_ge k (lsda.bytes.length + 1) with hlt | hge
      · have hfuel : lsda.bytes.length + 1 - k = lsda.bytes.length - k + 1 := by omega
        have hlink : lsda.link .read offset = none := by
          have hnone := h.resolve_right (by omega)
          rw [path, Orbit, show Orbit _ _ k = _ from hoffset] at hnone
          exact hnone
        exact ⟨lsda.bytes.length - k, by rw [hfuel, next_state hlen, hlink]⟩
      · have hfuel : lsda.bytes.length + 1 - k = 0 := by omega
        exact ⟨0, by rw [hfuel, next_of_exhausted]⟩

include hlen in
theorem call_of_path {k offset : ℕ} (h : lsda.path .read action k = some offset)
    (hk : k ≤ lsda.bytes.length) :
    Iter.call next (before lsda (some (lsda.first action)) (lsda.bytes.length + 1)) k =
      (next (before lsda (some offset) (lsda.bytes.length - k + 1))).1 := by
  have hfuel : lsda.bytes.length + 1 - k = lsda.bytes.length - k + 1 := by omega
  rw [Iter.call_eq, state_of_path hlen h (by omega), hfuel]

include hlen in
theorem call_of_exhausted (h : (lsda.path .read action (lsda.bytes.length + 1)).isSome) :
    Iter.call next (before lsda (some (lsda.first action)) (lsda.bytes.length + 1))
      (lsda.bytes.length + 1) = some (.error .loop) := by
  obtain ⟨offset, hoffset⟩ := Option.isSome_iff_exists.1 h
  rw [Iter.call_eq, state_of_path hlen hoffset le_rfl, Nat.sub_self, next_of_exhausted]

include hlen in
theorem call_of_end {k : ℕ} (h : lsda.path .read action k = none ∨ lsda.bytes.length + 1 < k) :
    Iter.call next (before lsda (some (lsda.first action)) (lsda.bytes.length + 1)) k = none := by
  obtain ⟨fuel, hstate⟩ := state_of_end hlen h
  rw [Iter.call_eq, hstate, next_of_end]

include hlen in
/-- Only the call behind the budget reports a loop, and only if the path outlasts it. -/
theorem call_eq_loop {k : ℕ}
    (h : Iter.call next (before lsda (some (lsda.first action)) (lsda.bytes.length + 1)) k =
      some (.error .loop)) :
    k = lsda.bytes.length + 1 ∧ (lsda.path .read action k).isSome := by
  by_cases hend : lsda.path .read action k = none ∨ lsda.bytes.length + 1 < k
  · rw [call_of_end hlen hend] at h
    cases h
  · obtain ⟨hsome, hk⟩ := not_or.1 hend
    obtain ⟨offset, hoffset⟩ := Option.ne_none_iff_exists'.1 hsome
    refine ⟨?_, by rw [hoffset]; rfl⟩
    by_contra hne
    rw [call_of_path hlen hoffset (by omega)] at h
    by_cases hsound : lsda.Sound .read offset
    · obtain ⟨r, hr, hr'⟩ := hsound
      rw [next_of_sound hlen hr hr'] at h
      cases h
    · obtain ⟨e, he, hnext⟩ :=
        next_of_not_sound hlen hsound (lsda.bytes.length - k)
      rw [hnext] at h
      exact he (Except.error.inj (Option.some.inj h))

end

/-- What the iterator does along the path of the records that a reader of fields finds. -/
structure Follows (lsda : Lsda) (field : Field) (action : Action) (c : Chain) : Prop where
  /-- Every offset it reads a record at is the one the path has reached, and lies in the
  action table. -/
  visits : ∀ k rest, (Iter.state next c k).rest = some rest →
    ∃ offset, lsda.path field action k = some offset ∧ lsda.InActions offset ∧
      rest = lsda.bytes.drop offset
  /-- A sound record yields its kind. -/
  kinds : ∀ k offset r, k ≤ lsda.bytes.length → lsda.path field action k = some offset →
    lsda.record field offset = some r → (r.delta = 0 ∨ lsda.InActions (r.link + r.delta)) →
    Iter.call next c k = some (.ok (.ofIndex r.index))
  /-- A displacement other than zero leads to the next offset. -/
  steps : ∀ k offset r, lsda.path field action k = some offset →
    lsda.record field offset = some r → r.delta ≠ 0 → lsda.InActions (r.link + r.delta) →
    ∃ next, lsda.path field action (k + 1) = some next ∧ (next : ℤ) = r.link + r.delta
  /-- The record whose displacement is zero is the last. -/
  ends : ∀ k offset r, lsda.path field action k = some offset → lsda.record field offset = some r →
    r.delta = 0 → ∀ j > k, Iter.call next c j = none
  /-- Any other record yields an error in place of its kind, and is the last. -/
  rejects : ∀ k offset, lsda.path field action k = some offset → ¬lsda.Sound field offset →
    (∃ e, e ≠ .loop ∧ Iter.call next c k = some (.error e)) ∧
      ∀ j > k, Iter.call next c j = none
  /-- The paths reported as loops are those that come back to an offset. -/
  loops : (∃ k, Iter.call next c k = some (.error .loop)) ↔
    Orbit.Revisits (lsda.link field) (lsda.first action)
  /-- A loop is reported behind exactly one record more than the table has bytes. -/
  loops_after : ∀ k, Iter.call next c k = some (.error .loop) →
    k = lsda.bytes.length + 1 ∧ (∀ j < k, ∃ kind, Iter.call next c j = some (.ok kind)) ∧
      ∀ j > k, Iter.call next c j = none
  /-- The number of items. -/
  bounded : ∃ items, Iter.Yields next c items ∧ items.length ≤ lsda.bytes.length + 2

/-- The iterator follows the path of the links the parser reads, and reports exactly the paths that
come back to an offset. -/
theorem follows (hlen : lsda.bytes.length ≤ maxSlice) {action : Action} {c : Chain}
    (hchain : lsda.chain action = .ok c) : Follows lsda .read action c := by
  obtain ⟨hfirst, rfl⟩ := chain_eq_ok hlen hchain
  have hlink {offset : ℕ} {r : ActionRecord} (hr : lsda.record .read offset = some r)
      (hzero : r.delta = 0) : lsda.link .read offset = none := by
    rw [link_of_record hr, if_neg (fun h => h.1 hzero)]
  have hloops {k : ℕ} (h : Orbit.Revisits (lsda.link .read) (lsda.first action)) :
      (lsda.path .read action k).isSome := h.isSome k
  constructor
  case visits =>
    intro k rest hrest
    by_cases hend : lsda.path .read action k = none ∨ lsda.bytes.length + 1 < k
    · obtain ⟨fuel, hstate⟩ := state_of_end hlen hend
      rw [hstate] at hrest
      cases hrest
    · obtain ⟨hsome, hk⟩ := not_or.1 hend
      obtain ⟨offset, hoffset⟩ := Option.ne_none_iff_exists'.1 hsome
      rw [state_of_path hlen hoffset (by omega)] at hrest
      exact ⟨offset, hoffset, path_inActions hfirst hoffset, (Option.some.inj hrest).symm⟩
  case kinds =>
    intro k offset r hk hoffset hr hsound
    rw [call_of_path hlen hoffset hk, next_of_sound hlen hr hsound]
  case steps =>
    intro k offset r hoffset hr hdelta hin
    refine ⟨(r.link + r.delta).toNat, ?_, Int.toNat_of_nonneg (by have := hin.1; omega)⟩
    exact Orbit.succ_eq_some.2 ⟨offset, hoffset, by rw [link_of_record hr, if_pos ⟨hdelta, hin⟩]⟩
  case ends =>
    intro k offset r hoffset hr hzero j hj
    exact call_of_end hlen (.inl ((le_of_link_eq_none hfirst hoffset (hlink hr hzero)).2 j hj))
  case rejects =>
    intro k offset hoffset hsound
    obtain ⟨hk, hafter⟩ := le_of_link_eq_none hfirst hoffset (link_of_not_sound hsound)
    obtain ⟨e, he, hnext⟩ := next_of_not_sound hlen hsound (lsda.bytes.length - k)
    refine ⟨⟨e, he, ?_⟩, fun j hj => call_of_end hlen (.inl (hafter j hj))⟩
    rw [call_of_path hlen hoffset hk, hnext]
  case loops =>
    constructor
    · rintro ⟨k, hk⟩
      obtain ⟨rfl, hsome⟩ := call_eq_loop hlen hk
      exact (revisits_iff hfirst).2 hsome
    · intro h
      exact ⟨_, call_of_exhausted hlen (hloops h)⟩
  case loops_after =>
    intro k hk
    obtain ⟨rfl, hsome⟩ := call_eq_loop hlen hk
    refine ⟨rfl, fun j hj => ?_, fun j hj => call_of_end hlen (.inr hj)⟩
    -- a path that revisits an offset has a next record everywhere, so each one is sound
    have hrevisits := (revisits_iff hfirst).2 hsome
    obtain ⟨offset, hoffset⟩ := Option.isSome_iff_exists.1 (hloops (k := j) hrevisits)
    obtain ⟨target, htarget⟩ := Option.isSome_iff_exists.1 (hloops (k := j + 1) hrevisits)
    obtain ⟨previous, hprevious, hnext⟩ := Orbit.succ_eq_some.1 htarget
    obtain rfl := Option.some.inj (hprevious.symm.trans hoffset)
    obtain ⟨r, hr, hsound⟩ := sound_of_link hnext
    exact ⟨_, by rw [call_of_path hlen hoffset (by omega), next_of_sound hlen hr hsound]⟩
  case bounded =>
    exact ⟨_, yields_items _, (yields_items _).length_le budget budget_lt⟩

end Chain

end Desenredo
