import Desenredo.Lsda.Format
import Desenredo.Lsda.LebTheorems

/-!
# Exception specification lists

A specification is a list of type indices in unsigned LEB128 behind the end of the type table,
closed by a zero. Its iterator yields the indices stored there and then stops: at the zero, or
with one error where neither an index nor the zero can be read.
-/

namespace Desenredo

open Parser Usize

/-! ## Stored lists -/

/-- The octets store the indices back to back. -/
inductive StoredIndices : List TypeIndex → List UInt8 → Prop
  | nil : StoredIndices [] []
  | cons {index : TypeIndex} {indices : List TypeIndex} {octets list : List UInt8} :
      StoresUleb index.raw octets → StoredIndices indices list →
      StoredIndices (index :: indices) (octets ++ list)

/-- The input ends inside a number that still fits. -/
def CutShort (input : List UInt8) : Prop :=
  (∀ octet ∈ input, Leb128.Continues octet) ∧ input.length ≤ 10 ∧ Leb128.value input < size

/-- The input neither starts with a number of 64 bits nor ends inside one. -/
def Overflows (input : List UInt8) : Prop :=
  (∀ n octets rest, StoresUleb n octets → input ≠ octets ++ rest) ∧ ¬CutShort input

variable {input rest octets zero tail : List UInt8} {n : ℕ} {indices : List TypeIndex}

theorem uleb_eq_stored :
    uleb input = .ok (rest, n) ↔ ∃ octets, input = octets ++ rest ∧ StoresUleb n octets := by
  rw [uleb_eq_ok]
  constructor
  · rintro ⟨octets, hinput, hoctets, hlength, hlt, rfl⟩
    exact ⟨octets, hinput, hlt, hoctets, hlength, rfl⟩
  · rintro ⟨octets, hinput, hlt, hoctets, hlength, rfl⟩
    exact ⟨octets, hinput, hoctets, hlength, hlt, rfl⟩

theorem uleb_cut (h : CutShort input) : uleb input = .error .eof := uleb_eq_eof.2 h

theorem uleb_overflow (h : Overflows input) : uleb input = .error .overflow := by
  refine uleb_eq_overflow.2 ⟨fun result hok => ?_, fun heof => h.2 (uleb_eq_eof.1 heof)⟩
  obtain ⟨octets, hinput, hstored⟩ := uleb_eq_stored.1 (show uleb input = .ok (result.1, result.2)
    from hok)
  exact h.1 _ octets result.1 hstored hinput

/-- Every input starts with a number, ends inside one, or overflows. -/
theorem uleb_trichotomy (input : List UInt8) :
    (∃ n octets rest, input = octets ++ rest ∧ StoresUleb n octets) ∨ CutShort input ∨
      Overflows input := by
  by_cases hstored : ∃ n octets rest, input = octets ++ rest ∧ StoresUleb n octets
  · exact .inl hstored
  · by_cases hcut : CutShort input
    · exact .inr (.inl hcut)
    · refine .inr (.inr ⟨fun n octets rest h heq => ?_, hcut⟩)
      exact hstored ⟨n, octets, rest, heq, h⟩

/-! ## The iterator -/

namespace FilterTypes

theorem yields_zero (h : StoresUleb 0 zero) (tail : List UInt8) :
    Iter.Yields next ⟨zero ++ tail, false⟩ [] := by
  have hread : uleb (zero ++ tail) = .ok (tail, 0) := uleb_eq_stored.2 ⟨zero, rfl, h⟩
  refine fused.yields_nil ?_
  simp only [next, hread, Bool.false_eq_true, if_false, if_true]

theorem yields_error {e : LsdaError} (h : uleb input = .error e) :
    Iter.Yields next ⟨input, false⟩ [.error e] := by
  have hnext : next ⟨input, false⟩ = (some (.error e), ⟨input, true⟩) := by
    simp only [next, h, Bool.false_eq_true, if_false]
  rw [Iter.yields_cons hnext]
  exact fused.yields_nil rfl

/-- Stored indices are yielded in front of whatever the input behind them yields. -/
theorem yields_stored {items : List (Except LsdaError TypeIndex)} (h : StoredIndices indices octets)
    (hrest : Iter.Yields next ⟨rest, false⟩ items) :
    Iter.Yields next ⟨octets ++ rest, false⟩ (indices.map .ok ++ items) := by
  induction h with
  | nil => exact hrest
  | @cons index indices octets list hindex _ ih =>
    have hread : uleb (octets ++ (list ++ rest)) = .ok (list ++ rest, (index.raw : ℕ)) :=
      uleb_eq_stored.2 ⟨octets, rfl, hindex⟩
    have hnew : NonZeroUsize.new index.raw = some index.raw := dif_pos index.raw.property
    have hnext : next ⟨octets ++ (list ++ rest), false⟩ =
        (some (.ok index), ⟨list ++ rest, false⟩) := by
      simp only [next, hread, Bool.false_eq_true, if_false, if_neg index.raw.property, hnew,
        Option.okOr_some]
      rfl
    rw [List.append_assoc, List.map_cons, List.cons_append, Iter.yields_cons hnext]
    exact ih

end FilterTypes

/-- Indices are stored up to the first place at which none can be read. -/
theorem storedIndices_prefix (input : List UInt8) :
    ∃ indices octets rest, input = octets ++ rest ∧ StoredIndices indices octets ∧
      ((∃ zero tail, rest = zero ++ tail ∧ StoresUleb 0 zero) ∨ CutShort rest ∨
        Overflows rest) := by
  -- on the length of the input, of which every index takes some octets
  induction hlength : input.length using Nat.strongRecOn generalizing input with
  | ind length ih =>
    rcases uleb_trichotomy input with ⟨n, octets, rest, rfl, hstored⟩ | hstop
    · by_cases hzero : n = 0
      · subst hzero
        exact ⟨[], [], _, rfl, .nil, .inl ⟨octets, rest, rfl, hstored⟩⟩
      · have hpos := hstored.2.1.length_pos
        rw [List.length_append] at hlength
        obtain ⟨indices, list, rest', rfl, hlist, hstop⟩ := ih rest.length (by omega) rest rfl
        have hindex : StoresUleb (TypeIndex.mk ⟨n, hzero⟩).raw octets := hstored
        refine ⟨_, _, rest', ?_, .cons hindex hlist, hstop⟩
        rw [List.append_assoc]
    · exact ⟨[], [], input, rfl, .nil, .inr hstop⟩

/-- A specification inside the table has an iterator that begins where the specification does. -/
theorem Lsda.filter_eq {lsda : Lsda} {types : Types} {index : FilterIndex}
    (hlength : lsda.bytes.length ≤ maxSlice) (htypes : lsda.types = some types)
    (hstart : types.fin + (index.raw - 1) ≤ lsda.bytes.length) :
    lsda.filter index = .ok ⟨lsda.bytes.drop (types.fin + (index.raw - 1)), false⟩ := by
  have hpos : 1 ≤ (index.raw : ℕ) := Nat.pos_of_ne_zero index.raw.property
  have hsub : checkedSub (index.raw : ℕ) 1 = some (index.raw - 1 : ℕ) := if_pos hpos
  have hadd : checkedAdd types.fin (index.raw - 1) = some (types.fin + (index.raw - 1)) :=
    checkedAdd_eq_some.2 ⟨by rw [size]; rw [maxSlice] at hlength; omega, rfl⟩
  simp only [filter, htypes, hsub, hadd, Option.okOr_some, Except.bind_ok, if_pos hstart,
    takeBytes_of_le hstart]

/-- **Exception specifications.** The iterator of a specification yields the indices stored from its
first byte up to the zero that closes it, and then nothing ever. Where a number is cut short or
overflows before the zero, it yields the indices in front of it, one error and then nothing. -/
theorem Lsda.filter_reads_list {lsda : Lsda} {types : Types} {index : FilterIndex}
    (hlength : lsda.bytes.length ≤ maxSlice) (htypes : lsda.types = some types)
    (hstart : types.fin + (index.raw - 1) ≤ lsda.bytes.length) :
    let input := lsda.bytes.drop (types.fin + (index.raw - 1))
    ∃ list, lsda.filter index = .ok list ∧
    (∃ indices octets rest items, input = octets ++ rest ∧ StoredIndices indices octets ∧
      ((∃ zero tail, rest = zero ++ tail ∧ StoresUleb 0 zero) ∧ items = indices.map .ok ∨
        CutShort rest ∧ items = indices.map .ok ++ [.error .eof] ∨
        Overflows rest ∧ items = indices.map .ok ++ [.error .overflow]) ∧
      Iter.Yields FilterTypes.next list items ∧ items.length ≤ input.length + 1) ∧
    ∀ indices octets zero tail, StoredIndices indices octets → StoresUleb 0 zero →
      input = octets ++ (zero ++ tail) → Iter.Yields FilterTypes.next list (indices.map .ok) := by
  intro input
  refine ⟨⟨input, false⟩, filter_eq hlength htypes hstart, ?_, ?_⟩
  · obtain ⟨indices, octets, rest, hinput, hstored, hstop⟩ := storedIndices_prefix input
    have hbound {items : List (Except LsdaError TypeIndex)}
        (h : Iter.Yields FilterTypes.next ⟨input, false⟩ items) :
        items.length ≤ input.length + 1 := h.length_le FilterTypes.budget FilterTypes.budget_lt
    have hyields {items : List (Except LsdaError TypeIndex)}
        (h : Iter.Yields FilterTypes.next ⟨rest, false⟩ items) :
        Iter.Yields FilterTypes.next ⟨input, false⟩ (indices.map .ok ++ items) := by
      rw [hinput]
      exact FilterTypes.yields_stored hstored h
    rcases hstop with ⟨zero, tail, rfl, hzero⟩ | hcut | hoverflow
    · have hlist := hyields (FilterTypes.yields_zero hzero tail)
      rw [List.append_nil] at hlist
      exact ⟨indices, octets, _, _, hinput, hstored, .inl ⟨⟨zero, tail, rfl, hzero⟩, rfl⟩, hlist,
        hbound hlist⟩
    · have hlist := hyields (FilterTypes.yields_error (uleb_cut hcut))
      exact ⟨indices, octets, rest, _, hinput, hstored, .inr (.inl ⟨hcut, rfl⟩), hlist,
        hbound hlist⟩
    · have hlist := hyields (FilterTypes.yields_error (uleb_overflow hoverflow))
      exact ⟨indices, octets, rest, _, hinput, hstored, .inr (.inr ⟨hoverflow, rfl⟩), hlist,
        hbound hlist⟩
  · intro indices octets zero tail hstored hzero hinput
    have hlist := FilterTypes.yields_stored hstored (FilterTypes.yields_zero hzero tail)
    rw [List.append_nil, ← hinput] at hlist
    exact hlist

attribute [local instance] PointerEncoding.bits in
/-- A specification of two indices behind a type table of two entries. -/
theorem Lsda.filter_reads_list_pair : ∃ lsda list,
    new [0xff, 0x00, 0x18, 0x01, 0x04, 0x00, 0x05, 0x0a, 0x01, 0x7f, 0x00, 0x78, 0x56, 0, 0, 0, 0,
      0, 0, 0x34, 0x12, 0, 0, 0, 0, 0, 0, 0x02, 0x01, 0x00] (.new 0x1000 0x2000) .little =
        .ok lsda ∧
    lsda.filter ⟨1, by decide⟩ = .ok list ∧
    Iter.Yields FilterTypes.next list [.ok ⟨2, by decide⟩, .ok ⟨1, by decide⟩] := by
  let bytes : List UInt8 := [0xff, 0x00, 0x18, 0x01, 0x04, 0x00, 0x05, 0x0a, 0x01, 0x7f, 0x00,
    0x78, 0x56, 0, 0, 0, 0, 0, 0, 0x34, 0x12, 0, 0, 0, 0, 0, 0, 0x02, 0x01, 0x00]
  let types : Types := ⟨27, ABS⟩
  let lsda : Lsda := ⟨bytes, .new 0x1000 0x2000, .little, 0x2000, some types, ULEB,
    [0x00, 0x05, 0x0a, 0x01], 9⟩
  have hnew : new bytes (.new 0x1000 0x2000) .little = .ok lsda := by decide
  obtain ⟨list, hfilter, -, hlist⟩ := @Lsda.filter_reads_list lsda types ⟨1, by decide⟩
    (by decide) rfl (by decide)
  have htwo : StoresUleb 2 [0x02] := ⟨by decide, .last (by decide), by decide, by decide⟩
  have hone : StoresUleb 1 [0x01] := ⟨by decide, .last (by decide), by decide, by decide⟩
  have hzero : StoresUleb 0 [0x00] := ⟨by decide, .last (by decide), by decide, by decide⟩
  have hindices : StoredIndices [⟨2, by decide⟩, ⟨1, by decide⟩] ([0x02] ++ ([0x01] ++ [])) :=
    .cons htwo (.cons hone .nil)
  exact ⟨lsda, list, hnew, hfilter, hlist _ _ [0x00] [] hindices hzero rfl⟩

end Desenredo
