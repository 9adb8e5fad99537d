import Desenredo.Lsda.RoundTripTheorems
import Desenredo.Rust.ActionTheorems
import Desenredo.Rust.Personality

/-!
# Rust tables mean what they say

What the Rust personality makes of a frame is what the table of its function says about the offset
the frame is at, for every table that was written.
-/

namespace Desenredo

namespace ExceptionTable

variable (T : ExceptionTable) (landingBase : ℕ)

/-- What a purpose makes of a landing pad. -/
def rustPurpose (pad : Rust.Pad) : Purpose → Rust.Action
  | .cleanup => .cleanup pad
  | .catch _ => .catch pad
  | .filter _ => .filter pad

/-- What Rust does in a range: its landing pad is for the first purpose of its action. -/
def rustRange (region : Region) : Rust.Action :=
  if h : region.landing = 0 then .none
  else
    let pad : Rust.Pad := ⟨Region.pad landingBase h⟩
    match region.action.bind fun i => (T.purposes i).head? with
    | none => .cleanup pad
    | some purpose => rustPurpose pad purpose

/-- What Rust does at an offset of the function. -/
def rustAction (offset : ℕ) : Rust.Action :=
  match T.region offset with
  | none => .terminate
  | some region => T.rustRange landingBase region

end ExceptionTable

namespace Rust

section

variable [PointerEncoding] {lsda : Lsda} {T : ExceptionTable} {landingBase pc : ℕ}
  {indirect : Bool}

/-- The first item of a chain is the first purpose of its action. -/
theorem next_obeys (h : lsda.Says T landingBase indirect) {i : ℕ} (hi : i < T.nodes.length) :
    ∃ chain purpose, lsda.chain (T.action i) = .ok chain ∧
      (T.purposes i).head? = some purpose ∧ chain.next.1 = some (.ok (T.kind purpose)) := by
  obtain ⟨chain, hchain, hyields⟩ := h.chains i hi
  have hget : T.nodes[i]? = some T.nodes[i] := List.getElem?_eq_getElem hi
  refine ⟨chain, T.nodes[i].purpose, hchain, ?_, ?_⟩
  · rw [ExceptionTable.purposes_eq hget, List.head?_cons]
  · have hfirst := hyields 0
    rw [ExceptionTable.purposes_eq hget, List.map_cons, List.getElem?_cons_zero] at hfirst
    exact hfirst

/-- A scan of a table finds what the table says. -/
theorem scan_obeys (h : lsda.Says T landingBase indirect) (hordered : T.Ordered)
    (hpc : lsda.bases.function ≤ pc) :
    scan lsda pc = .ok (T.rustAction landingBase (pc - lsda.bases.function)) := by
  rw [scan, h.site hordered hpc, ExceptionTable.rustAction]
  cases hregion : T.region (pc - lsda.bases.function) with
  | none => rfl
  | some region =>
    have hmem : region ∈ T.regions := List.mem_of_find?_eq_some hregion
    simp only [Option.map_some, Except.mapError, Except.bind_ok, ExceptionTable.rustRange,
      ExceptionTable.site]
    by_cases hland : region.landing = 0
    · simp only [hland, if_true, dif_pos]
    · have hpad : Pad.new (landingBase + region.landing) = .ok ⟨Region.pad landingBase hland⟩ :=
        pad_new_eq_ok.2 rfl
      simp only [hland, if_false, dif_neg, not_false_eq_true, hpad, Except.bind_ok]
      cases haction : region.action with
      | none => rfl
      | some i =>
        obtain ⟨chain, purpose, hchain, hhead, hnext⟩ :=
          next_obeys h (T.acted region hmem i haction)
        simp only [Option.map_some, hchain, Except.bind_ok, hnext, Option.bind_some, hhead]
        cases purpose <;> rfl

/-- A scan fails below the function. -/
theorem scan_below (hpc : pc < lsda.bases.function) : scan lsda pc = .error (.parse .table) := by
  rw [scan, Lsda.site_eq_table.2 hpc]
  rfl

/-- **Rust tables.** A scan of a written table whose ranges are in order and end inside the address
space finds, at every program counter of the function and behind it, what the table says about the
offset: nothing where the first range that covers it has no landing pad, termination where none
does, else the landing pad with the first purpose of the action. Below the function it fails. -/
theorem scan_obeys_table (hstandard : PointerEncoding.Standard) {F : TableEncoding} {bases : Bases}
    {gap tail : List UInt8} (hfits : F.Fits T bases gap tail) (hordered : T.Ordered) :
    ∃ lsda, Lsda.new (F.write T bases gap tail) bases F.endian = .ok lsda ∧
      ∀ pc, scan lsda pc =
        if bases.function ≤ pc then
          .ok (T.rustAction (F.landingBase bases) (pc - bases.function))
        else .error (.parse .table) := by
  have hsays := TableEncoding.says_write hstandard hfits
  refine ⟨_, TableEncoding.new_write hstandard hfits, fun pc => ?_⟩
  split
  · rename_i hpc
    exact scan_obeys hsays hordered hpc
  · rename_i hpc
    exact scan_below (Nat.lt_of_not_le hpc)

end

/-- A specification in front of a handler. -/
theorem scan_obeys_table_nested :
    let _ : PointerEncoding := .bits
    ∃ lsda, Lsda.new (TableEncoding.relative.write .nested (.new 0x1000 0x2000) [0x00] [0x07])
        (.new 0x1000 0x2000) .little = .ok lsda ∧
      scan lsda 0x2006 = .ok (.filter ⟨0x2048, by decide⟩) := by
  let _ : PointerEncoding := .bits
  obtain ⟨lsda, hnew, hscan⟩ := scan_obeys_table PointerEncoding.standard_bits
    TableEncoding.relative_fits_nested ⟨by decide, by decide⟩
  exact ⟨lsda, hnew, (hscan 0x2006).trans rfl⟩

end Rust

end Desenredo
