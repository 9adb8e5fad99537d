import Desenredo.Lsda.Format
import Desenredo.Lsda.LebTheorems

/-!
# Action chains as they are stored

The fields of an action record store signed numbers. The parser reads them modulo two to the 64,
so a number that has no place in 64 bits is taken for another one. Here the records of a chain are
those stored, and the chains are told apart along which the iterator yields what is stored.
-/

namespace Desenredo

open Usize

/-! ## Fields -/

namespace Field

/-- A field holds a number of 64 bits in at most ten octets. -/
def stored : Field := fun input => do
  let (octets, rest) ← Leb128.split input
  let v := Leb128.signedValue octets
  if octets.length ≤ 10 ∧ -2 ^ 63 ≤ v ∧ v < 2 ^ 63 then some (rest, v) else none

/-- A field holds a number in at most ten octets, of which 64 bits count. -/
def wrapped : Field := fun input => do
  let (octets, rest) ← Leb128.split input
  if octets.length ≤ 10 then some (rest, Fixed.wrap 64 (Leb128.signedValue octets)) else none

variable {input rest : List UInt8} {v : ℤ}

theorem stored_eq_some :
    stored input = some (rest, v) ↔ ∃ octets, input = octets ++ rest ∧ StoresSigned v octets := by
  simp only [stored, Option.bind_eq_bind, Option.bind_eq_some_iff, Prod.exists,
    Leb128.split_eq_some]
  constructor
  · rintro ⟨octets, rest', ⟨hinput, hoctets⟩, h⟩
    split_ifs at h with hfits
    obtain ⟨rfl, rfl⟩ := Prod.mk.inj (Option.some.inj h)
    exact ⟨octets, hinput, hfits.2.1, hfits.2.2, hoctets, hfits.1, rfl⟩
  · rintro ⟨octets, hinput, hlow, hhigh, hoctets, hlength, rfl⟩
    exact ⟨octets, rest, ⟨hinput, hoctets⟩, if_pos ⟨hlength, hlow, hhigh⟩⟩

/-- The parser reads what is stored. -/
theorem read_of_stored (h : stored input = some (rest, v)) : read input = some (rest, v) := by
  obtain ⟨octets, rfl, hlow, hhigh, hoctets, hlength, rfl⟩ := stored_eq_some.1 h
  exact read_eq_some.2 (sleb_reads hoctets hlength hlow hhigh rest)

/-- The parser reads fields modulo two to the 64. -/
theorem wrapped_eq_read : wrapped = read := by
  funext input
  refine Option.ext fun found => ?_
  obtain ⟨rest, v⟩ := found
  simp only [read_eq_some, sleb_eq_ok, wrapped, Option.bind_eq_bind, Option.bind_eq_some_iff,
    Prod.exists, Leb128.split_eq_some]
  constructor
  · rintro ⟨octets, rest', ⟨hinput, hoctets⟩, h⟩
    split_ifs at h with hlength
    obtain ⟨rfl, rfl⟩ := Prod.mk.inj (Option.some.inj h)
    exact ⟨octets, hinput, hoctets, hlength, rfl⟩
  · rintro ⟨octets, hinput, hoctets, hlength, rfl⟩
    exact ⟨octets, rest, ⟨hinput, hoctets⟩, if_pos hlength⟩

/-- A field that is read is stored unless bits of its tenth octet are lost. -/
theorem stored_eq_none_iff (h : read input = some (rest, v)) :
    stored input = none ↔ TruncatesTenth input := by
  obtain ⟨octets, rfl, hoctets, hlength, rfl⟩ := sleb_eq_ok.1 (read_eq_some.1 h)
  rw [truncatesTenth_iff hoctets, Option.eq_none_iff_forall_not_mem]
  constructor
  · intro hnone
    have hlost : ¬(-2 ^ 63 ≤ Leb128.signedValue octets ∧ Leb128.signedValue octets < 2 ^ 63) := by
      intro hrange
      refine hnone (rest, Leb128.signedValue octets) (stored_eq_some.2 ?_)
      exact ⟨octets, rfl, hrange.1, hrange.2, hoctets, hlength, rfl⟩
    refine ⟨?_, hlost⟩
    by_contra hten
    exact hlost (signedValue_short hoctets (by omega))
  · rintro ⟨-, hlost⟩ ⟨rest', v⟩ hstored
    obtain ⟨octets', heq, hlow, hhigh, hoctets', -, rfl⟩ := stored_eq_some.1 hstored
    obtain ⟨rfl, -⟩ := hoctets.append_inj hoctets' heq
    exact hlost ⟨hlow, hhigh⟩

end Field

/-! ## Records -/

namespace Lsda

variable {lsda : Lsda} {offset target : ℕ} {r : ActionRecord}

/-- Modulo two to the 64 the fields at an offset make a record that ends the chain or links into
the action table, but the tenth octet of one of them loses bits. -/
def Misread (lsda : Lsda) (offset : ℕ) : Prop :=
  ∃ r link, lsda.record .wrapped offset = some r ∧
    (r.delta = 0 ∨ lsda.InActions (r.link + r.delta)) ∧
    Field.wrapped (lsda.bytes.drop offset) = some (link, r.index) ∧
    (TruncatesTenth (lsda.bytes.drop offset) ∨ TruncatesTenth link)

theorem record_read_of_stored (h : lsda.record .stored offset = some r) :
    lsda.record .read offset = some r := by
  obtain ⟨link, rest, hindex, hdelta, hlink⟩ := record_eq_some.1 h
  exact record_eq_some.2
    ⟨link, rest, Field.read_of_stored hindex, Field.read_of_stored hdelta, hlink⟩

theorem link_read_of_stored (h : lsda.link .stored offset = some target) :
    lsda.link .read offset = some target := by
  obtain ⟨r, hr, -⟩ := sound_of_link h
  rw [link_of_record hr] at h
  rw [link_of_record (record_read_of_stored hr), h]

/-- A record is misread where one is read and none is stored. -/
theorem misread_iff :
    lsda.Misread offset ↔ lsda.record .stored offset = none ∧ lsda.Sound .read offset := by
  rw [Misread, Field.wrapped_eq_read, Sound]
  constructor
  · rintro ⟨r, link, hr, hsound, hindex, hlost⟩
    refine ⟨Option.eq_none_iff_forall_not_mem.2 fun r' hr' => ?_, r, hr, hsound⟩
    obtain ⟨link', rest', hindex', hdelta', -⟩ := record_eq_some.1 hr'
    obtain ⟨rfl, -⟩ := Prod.mk.inj
      (Option.some.inj ((Field.read_of_stored hindex').symm.trans hindex))
    rcases hlost with hlost | hlost
    · rw [(Field.stored_eq_none_iff hindex).2 hlost] at hindex'
      cases hindex'
    · rw [(Field.stored_eq_none_iff (Field.read_of_stored hdelta')).2 hlost] at hdelta'
      cases hdelta'
  · rintro ⟨hnone, r, hr, hsound⟩
    obtain ⟨link, rest, hindex, hdelta, hlink⟩ := record_eq_some.1 hr
    refine ⟨r, link, hr, hsound, hindex, ?_⟩
    rw [← Field.stored_eq_none_iff hindex, ← Field.stored_eq_none_iff hdelta]
    -- with both fields stored there would be a record
    by_contra hboth
    obtain ⟨hindex', hdelta'⟩ := not_or.1 hboth
    obtain ⟨⟨link', index'⟩, hindex'⟩ := Option.ne_none_iff_exists'.1 hindex'
    obtain ⟨⟨rest', delta'⟩, hdelta'⟩ := Option.ne_none_iff_exists'.1 hdelta'
    obtain ⟨rfl, rfl⟩ := Prod.mk.inj
      (Option.some.inj ((Field.read_of_stored hindex').symm.trans hindex))
    obtain ⟨rfl, rfl⟩ := Prod.mk.inj
      (Option.some.inj ((Field.read_of_stored hdelta').symm.trans hdelta))
    rw [record_eq_some.2 ⟨_, _, hindex', hdelta', hlink⟩] at hnone
    cases hnone

/-- What is read at an offset that is not misread is what is stored there. -/
theorem sound_stored_of_read (h : lsda.Sound .read offset) (hkept : ¬lsda.Misread offset) :
    lsda.Sound .stored offset := by
  obtain ⟨r, hr, hsound⟩ := h
  cases hstored : lsda.record .stored offset with
  | none => exact absurd (misread_iff.2 ⟨hstored, r, hr, hsound⟩) hkept
  | some r' =>
    obtain rfl := Option.some.inj ((record_read_of_stored hstored).symm.trans hr)
    exact ⟨r', hstored, hsound⟩

theorem link_stored_of_read (h : lsda.link .read offset = some target)
    (hkept : ¬lsda.Misread offset) : lsda.link .stored offset = some target := by
  obtain ⟨r, hr, -⟩ := sound_stored_of_read (sound_of_link h) hkept
  rw [link_of_record (record_read_of_stored hr)] at h
  rw [link_of_record hr, h]

/-! ## Paths -/

section

variable {action : Action} {k : ℕ}

/-- A path of stored links is one of links that are read. -/
theorem path_read_of_stored (h : lsda.path .stored action k = some offset) :
    lsda.path .read action k = some offset := by
  induction k generalizing offset with
  | zero => exact h
  | succ k ih =>
    obtain ⟨previous, hprevious, hlink⟩ := Orbit.succ_eq_some.1 h
    exact Orbit.succ_eq_some.2 ⟨previous, ih hprevious, link_read_of_stored hlink⟩

/-- The records a chain reads are those it stores. -/
def Kept (lsda : Lsda) (action : Action) : Prop :=
  ∀ k offset, lsda.path .stored action k = some offset → ¬lsda.Misread offset

/-- A chain is kept if every record that is read is stored. -/
theorem kept_of_record (hfirst : lsda.InActions (lsda.first action))
    (h : ∀ offset < lsda.bytes.length, lsda.record .stored offset = none →
      lsda.record .read offset = none) : lsda.Kept action := by
  intro k offset hoffset hmisread
  obtain ⟨hnone, r, hr, -⟩ := misread_iff.1 hmisread
  have hhigh := (Chain.path_inActions hfirst hoffset).2
  rw [h offset (by exact_mod_cast hhigh) hnone] at hr
  cases hr

theorem Kept.path (hkept : lsda.Kept action) :
    lsda.path .stored action = lsda.path .read action := by
  funext k
  refine Option.ext fun offset => ⟨path_read_of_stored, fun h => ?_⟩
  induction k generalizing offset with
  | zero => exact h
  | succ k ih =>
    obtain ⟨previous, hprevious, hlink⟩ := Orbit.succ_eq_some.1 h
    have hstored := ih previous hprevious
    exact Orbit.succ_eq_some.2
      ⟨previous, hstored, link_stored_of_read hlink (hkept k previous hstored)⟩

end

end Lsda

/-! ## Chains -/

namespace Chain

open Lsda

variable {lsda : Lsda} {action : Action} {c : Chain}

/-- Along records that are kept the iterator yields what is stored. -/
theorem Follows.stored (h : Follows lsda .read action c) (hkept : lsda.Kept action) :
    Follows lsda .stored action c where
  visits := by
    rw [hkept.path]
    exact h.visits
  kinds k offset r hk hoffset hr hsound :=
    h.kinds k offset r hk (path_read_of_stored hoffset) (record_read_of_stored hr) hsound
  steps k offset r hoffset hr hdelta hin := by
    rw [hkept.path]
    exact h.steps k offset r (path_read_of_stored hoffset) (record_read_of_stored hr) hdelta hin
  ends k offset r hoffset hr hzero :=
    h.ends k offset r (path_read_of_stored hoffset) (record_read_of_stored hr) hzero
  rejects k offset hoffset hsound :=
    h.rejects k offset (path_read_of_stored hoffset) fun hread =>
      hsound (sound_stored_of_read hread (hkept k offset hoffset))
  loops := by
    rw [h.loops]
    unfold Orbit.Revisits
    rw [show Orbit (lsda.link .stored) _ = _ from hkept.path]
  loops_after := h.loops_after
  bounded := h.bounded

/-- A misread record yields a kind where the stored one asks for an error. -/
theorem Follows.kept (hfirst : lsda.InActions (lsda.first action)) (h : Follows lsda .read action c)
    (hstored : Follows lsda .stored action c) : lsda.Kept action := by
  intro k offset hoffset hmisread
  obtain ⟨hnone, r, hr, hends⟩ := misread_iff.1 hmisread
  have hmalformed : ¬lsda.Sound .stored offset := by
    rintro ⟨r, hr, -⟩
    rw [hnone] at hr
    cases hr
  obtain ⟨⟨e, -, herror⟩, -⟩ := hstored.rejects k offset hoffset hmalformed
  obtain ⟨hk, -⟩ := le_of_link_eq_none hfirst hoffset (link_of_not_sound hmalformed)
  rw [h.kinds k offset r hk (path_read_of_stored hoffset) hr hends] at herror
  cases herror

end Chain

section

variable [PointerEncoding]

/-- **Chains.** An iterator over a chain of an accepted table yields the records stored along its
path, and reports the paths that come back to an offset, if and only if it reaches none that is
misread. The length of a slice never exceeds `maxSlice`. -/
theorem Lsda.chain_follows_links_iff {bytes : List UInt8} {bases : Bases} {endian : Endian}
    {lsda : Lsda} (hslice : bytes.length ≤ maxSlice)
    (hnew : Lsda.new bytes bases endian = .ok lsda) {action : Action} {c : Chain}
    (hchain : lsda.chain action = .ok c) :
    Chain.Follows lsda .stored action c ↔ lsda.Kept action := by
  have hlen : lsda.bytes.length ≤ maxSlice := by rwa [(Lsda.new_fields hnew).1]
  have hread := Chain.follows hlen hchain
  exact ⟨hread.kept (Chain.chain_eq_ok hlen hchain).1, hread.stored⟩

end

/-- Two records that link to each other are reported as a loop, behind nine records of eight
bytes. -/
theorem Lsda.chain_follows_links_pair :
    let lsda : Lsda := ⟨[0xff, 0xff, 0x01, 0x00, 0x01, 0x01, 0x7f, 0x7d], .new 64 128, .little, 128,
      none, ULEB, [], 4⟩
    let c : Chain := ⟨lsda.bytes, some [0x01, 0x01, 0x7f, 0x7d], 9, 4⟩
    Chain.Follows lsda .stored ⟨⟨1, by decide⟩⟩ c ∧
      Iter.call Chain.next c 9 = some (.error .loop) := by
  let _ := PointerEncoding.bits
  intro lsda c
  have hnew : Lsda.new lsda.bytes (.new 64 128) .little = .ok lsda := by decide
  have hchain : lsda.chain ⟨⟨1, by decide⟩⟩ = .ok c := rfl
  have hkept : lsda.Kept ⟨⟨1, by decide⟩⟩ := Lsda.kept_of_record (by decide) (by decide)
  have hfollows := (Lsda.chain_follows_links_iff (by decide) hnew hchain).2 hkept
  obtain ⟨k, hk⟩ := hfollows.loops.2 ⟨0, 2, 4, by decide, rfl, by decide⟩
  obtain rfl : k = 9 := (hfollows.loops_after k hk).1
  exact ⟨hfollows, hk⟩

/-- A record whose link is `2 ^ 64` yields its kind and ends its chain, where that link leads out
of the table. -/
theorem Lsda.chain_truncates_link :
    let lsda : Lsda := ⟨[0xff, 0xff, 0x01, 0x00, 0x01] ++ List.replicate 9 0x80 ++ [0x02],
      .new 64 128, .little, 128, none, ULEB, [], 4⟩
    let c : Chain := ⟨lsda.bytes, some (0x01 :: List.replicate 9 0x80 ++ [0x02]), 16, 4⟩
    @Lsda.new .bits lsda.bytes (.new 64 128) .little = .ok lsda ∧
      lsda.chain ⟨⟨1, by decide⟩⟩ = .ok c ∧ ¬Chain.Follows lsda .stored ⟨⟨1, by decide⟩⟩ c := by
  let _ := PointerEncoding.bits
  intro lsda c
  refine ⟨by decide, rfl, fun h => ?_⟩
  have hmalformed : ¬lsda.Sound .stored 4 := by
    rintro ⟨r, hr, -⟩
    rw [show lsda.record .stored 4 = none by decide] at hr
    cases hr
  obtain ⟨⟨e, -, herror⟩, -⟩ := h.rejects 0 4 rfl hmalformed
  rw [show Iter.call Chain.next c 0 = some (.ok (.catch ⟨⟨1, by decide⟩⟩)) from rfl] at herror
  cases herror

/-! ## Kinds -/

namespace Lsda

/-- The kinds of the records along a path, in order. A malformed record stands as `none`, and so
does the record at which the budget runs out. -/
def kindsFrom (lsda : Lsda) (field : Field) : ℕ → ℕ → List (Option Kind)
  | 0, _ => [none]
  | fuel + 1, offset =>
    match lsda.record field offset with
    | none => [none]
    | some r =>
      if r.delta = 0 ∨ lsda.InActions (r.link + r.delta) then
        some (.ofIndex r.index) :: (lsda.link field offset).elim [] (kindsFrom lsda field fuel)
      else [none]

/-- The kinds of the records of a chain. -/
def kinds (lsda : Lsda) (field : Field) (action : Action) : List (Option Kind) :=
  lsda.kindsFrom field (lsda.bytes.length + 1) (lsda.first action)

variable {lsda : Lsda} {field : Field} {offset fuel k : ℕ} {r : ActionRecord}

theorem kindsFrom_of_sound (h : lsda.record field offset = some r)
    (hsound : r.delta = 0 ∨ lsda.InActions (r.link + r.delta)) :
    lsda.kindsFrom field (fuel + 1) offset =
      some (.ofIndex r.index) :: (lsda.link field offset).elim [] (lsda.kindsFrom field fuel) := by
  rw [kindsFrom, h]
  exact if_pos hsound

theorem kindsFrom_of_not_sound (h : ¬lsda.Sound field offset) :
    lsda.kindsFrom field fuel offset = [none] := by
  cases fuel with
  | zero => rfl
  | succ fuel =>
    rw [kindsFrom]
    cases hr : lsda.record field offset with
    | none => rfl
    | some r => exact if_neg fun hsound => h ⟨r, hr, hsound⟩

/-- A kind of a chain is that of the record its path has reached. -/
theorem record_of_kindsFrom {kind : Kind}
    (h : (lsda.kindsFrom field fuel offset)[k]? = some (some kind)) :
    ∃ reached r, Orbit (lsda.link field) offset k = some reached ∧
      lsda.record field reached = some r ∧ kind = .ofIndex r.index := by
  induction k generalizing fuel offset with
  | zero =>
    cases fuel with
    | zero => cases h
    | succ fuel =>
      by_cases hsound : lsda.Sound field offset
      · obtain ⟨r, hr, hsound⟩ := hsound
        rw [kindsFrom_of_sound hr hsound, List.getElem?_cons_zero] at h
        exact ⟨offset, r, rfl, hr, (Option.some.inj (Option.some.inj h)).symm⟩
      · rw [kindsFrom_of_not_sound hsound] at h
        cases h
  | succ k ih =>
    cases fuel with
    | zero => cases h
    | succ fuel =>
      by_cases hsound : lsda.Sound field offset
      · obtain ⟨r, hr, hsound⟩ := hsound
        rw [kindsFrom_of_sound hr hsound, List.getElem?_cons_succ] at h
        cases hlink : lsda.link field offset with
        | none =>
          rw [hlink] at h
          cases h
        | some target =>
          rw [hlink, Option.elim_some] at h
          rw [Orbit.succ_of_eq_some hlink]
          exact ih h
      · rw [kindsFrom_of_not_sound hsound] at h
        cases h

/-- Where nothing is misread the kinds that are read are those stored. -/
theorem kindsFrom_kept
    (hkept : ∀ k reached, Orbit (lsda.link .stored) offset k = some reached →
      ¬lsda.Misread reached) :
    lsda.kindsFrom .stored fuel offset = lsda.kindsFrom .read fuel offset := by
  induction fuel generalizing offset with
  | zero => rfl
  | succ fuel ih =>
    by_cases hsound : lsda.Sound .read offset
    · obtain ⟨r, hr, hends⟩ := sound_stored_of_read hsound (hkept 0 offset rfl)
      rw [kindsFrom_of_sound hr hends, kindsFrom_of_sound (record_read_of_stored hr) hends,
        link_of_record hr, link_of_record (record_read_of_stored hr)]
      cases hlink : lsda.link .stored offset with
      | none => rw [← link_of_record hr, hlink, Option.elim_none, Option.elim_none]
      | some target =>
        rw [← link_of_record hr, hlink, Option.elim_some, Option.elim_some]
        refine congrArg _ (ih fun k reached hreached => hkept (k + 1) reached ?_)
        rw [Orbit.succ_of_eq_some hlink, hreached]
    · have hstored : ¬lsda.Sound .stored offset := by
        rintro ⟨r, hr, hends⟩
        exact hsound ⟨r, record_read_of_stored hr, hends⟩
      rw [kindsFrom_of_not_sound hsound, kindsFrom_of_not_sound hstored]

/-- The kinds stored end at a record that is misread, and those in front of it are read. -/
theorem kindsFrom_misread {reached : ℕ} (h : Orbit (lsda.link .stored) offset k = some reached)
    (hmisread : lsda.Misread reached) (hk : k < fuel) : ∃ (before : List Kind) (more : _),
      before.length = k ∧ lsda.kindsFrom .stored fuel offset = before.map some ++ [none] ∧
      lsda.kindsFrom .read fuel offset = before.map some ++ more := by
  obtain ⟨fuel, rfl⟩ := Nat.exists_eq_succ_of_ne_zero (Nat.ne_zero_of_lt hk)
  induction k generalizing fuel offset with
  | zero =>
    obtain rfl := Option.some.inj h
    exact ⟨[], _, rfl, by rw [kindsFrom, (misread_iff.1 hmisread).1]; rfl, rfl⟩
  | succ k ih =>
    cases hlink : lsda.link .stored offset with
    | none =>
      have hend := Orbit.eq_none_of_le (Nat.le_add_left 1 k)
        (show Orbit (lsda.link .stored) offset 1 = none from hlink)
      rw [h] at hend
      cases hend
    | some target =>
      rw [Orbit.succ_of_eq_some hlink] at h
      have hk := Nat.lt_of_succ_lt_succ hk
      obtain ⟨fuel, rfl⟩ := Nat.exists_eq_succ_of_ne_zero (Nat.ne_zero_of_lt hk)
      obtain ⟨r, hr, hsound⟩ := sound_of_link hlink
      obtain ⟨before, more, hlength, hstored, hread⟩ := ih h fuel hk
      refine ⟨.ofIndex r.index :: before, more, by rw [List.length_cons, hlength], ?_, ?_⟩
      · rw [kindsFrom_of_sound hr hsound, hlink, Option.elim_some, hstored, List.map_cons,
          List.cons_append]
      · rw [kindsFrom_of_sound (record_read_of_stored hr) hsound, link_read_of_stored hlink,
          Option.elim_some, hread, List.map_cons, List.cons_append]

/-- An iterator yields the kinds that are read, with an error where a record is malformed. -/
theorem yields_kindsFrom (hlen : lsda.bytes.length ≤ maxSlice) (fuel offset : ℕ) :
    ∃ e : LsdaError, Iter.Yields Chain.next (.before lsda (some offset) fuel)
      ((lsda.kindsFrom .read fuel offset).map (·.okOr e)) := by
  induction fuel generalizing offset with
  | zero =>
    exact ⟨.loop,
      (Iter.yields_cons (Chain.next_of_exhausted offset)).2 (Chain.fused.yields_nil rfl)⟩
  | succ fuel ih =>
    by_cases hsound : lsda.Sound .read offset
    · obtain ⟨r, hr, hends⟩ := hsound
      have hnext : Chain.next (.before lsda (some offset) (fuel + 1)) = _ :=
        Chain.next_of_sound hlen hr hends
      rw [kindsFrom_of_sound hr hends]
      cases hlink : lsda.link .read offset with
      | none =>
        rw [hlink] at hnext
        exact ⟨.loop, (Iter.yields_cons hnext).2 (Chain.fused.yields_nil rfl)⟩
      | some target =>
        rw [hlink] at hnext
        obtain ⟨e, he⟩ := ih target
        exact ⟨e, (Iter.yields_cons hnext).2 he⟩
    · obtain ⟨e, -, hnext⟩ := Chain.next_of_not_sound hlen hsound fuel
      rw [link_of_not_sound hsound] at hnext
      rw [kindsFrom_of_not_sound hsound]
      exact ⟨e, (Iter.yields_cons hnext).2 (Chain.fused.yields_nil rfl)⟩

theorem items_eq_kinds (hlen : lsda.bytes.length ≤ maxSlice) {action : Action} {c : Chain}
    (hchain : lsda.chain action = .ok c) :
    ∃ e : LsdaError, c.items = (lsda.kinds .read action).map (·.okOr e) := by
  obtain ⟨-, rfl⟩ := Chain.chain_eq_ok hlen hchain
  obtain ⟨e, he⟩ := yields_kindsFrom hlen (lsda.bytes.length + 1) (lsda.first action)
  exact ⟨e, (Chain.yields_items _).unique he⟩

end Lsda

end Desenredo
