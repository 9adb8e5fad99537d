import Desenredo.Cxx.Scan
import Desenredo.Lsda.ChainTheorems
import Desenredo.Rust.Action

/-!
# Bytes behind a table do not change what it says

A table is handed over together with everything up to the end of its section. Whatever is read
successfully without the bytes behind it is read as the same with them: every reader is local,
positions are counted from the front, and the bounds that depend on the length only widen.
-/

namespace Desenredo

open Usize

/-! ## Positions and targets -/

theorem position_append (whole rest t : List UInt8) :
    position (whole ++ t) (rest ++ t) = position whole rest := by
  rw [position, position, checkedSub, checkedSub, List.length_append, List.length_append]
  split
  · rw [if_pos (by omega)]
    congr 2
    omega
  · rw [if_neg (by omega)]

theorem takeBytes_append {count : ℕ} {input rest used : List UInt8}
    (h : takeBytes count input = .ok (rest, used)) (t : List UInt8) :
    takeBytes count (input ++ t) = .ok (rest ++ t, used) :=
  (takeBytes_local count).append h t

theorem aligned_append {whole input rest : List UInt8} {bases : Bases}
    (h : aligned whole input bases = .ok rest) (t : List UInt8) :
    aligned (whole ++ t) (input ++ t) bases = .ok (rest ++ t) := by
  simp only [aligned, Except.bind_eq_ok_iff, Prod.exists] at h
  obtain ⟨offset, hoffset, address, haddress, rest', used, htake, h⟩ := h
  obtain rfl := Except.ok.inj h
  simp only [aligned, position_append, hoffset, haddress, Except.bind_ok, takeBytes_append htake]

variable [PointerEncoding]

theorem fieldInput_append {whole input rest : List UInt8} {e : DwEhPe} {bases : Bases}
    (h : fieldInput whole e bases input = .ok rest) (t : List UInt8) :
    fieldInput (whole ++ t) e bases (input ++ t) = .ok (rest ++ t) := by
  rw [fieldInput] at h ⊢
  split
  · rename_i halign
    rw [if_pos halign] at h
    exact aligned_append h t
  · rename_i halign
    rw [if_neg halign] at h
    rw [Except.ok.inj h]

theorem target_append {whole input rest : List UInt8} {e : DwEhPe} {bases : Bases}
    {endian : Endian} {x : Target} (h : target whole e bases endian input = .ok (rest, x))
    (t : List UInt8) :
    target (whole ++ t) e bases endian (input ++ t) = .ok (rest ++ t, x) := by
  obtain ⟨hvalid, habsent, input', offset, s, base, hfield, hposition, hlt, hscalar, hrest⟩ :=
    target_eq_ok.1 h
  refine target_eq_ok.2 ⟨hvalid, habsent, input' ++ t, offset, s, base,
    fieldInput_append hfield t, ?_, hlt, (scalar_local _ _).append hscalar t, hrest⟩
  rwa [position_append]

/-! ## The header -/

namespace Lsda

theorem landing_append {bytes input rest : List UInt8} {bases : Bases} {endian : Endian} {base : ℕ}
    (h : landing bytes bases endian input = .ok (rest, base)) (t : List UInt8) :
    landing (bytes ++ t) bases endian (input ++ t) = .ok (rest ++ t, base) := by
  obtain ⟨encoding, input', rfl, hcases⟩ := landing_eq_ok.1 h
  refine landing_eq_ok.2 ⟨encoding, input' ++ t, rfl, ?_⟩
  rcases hcases with ⟨habsent, rfl, rfl⟩ | ⟨habsent, htarget⟩
  · exact .inl ⟨habsent, rfl, rfl⟩
  · exact .inr ⟨habsent, target_append htarget t⟩

theorem typeTable_append {bytes input rest : List UInt8} {types : Option Types}
    (h : typeTable bytes input = .ok (rest, types)) (t : List UInt8) :
    typeTable (bytes ++ t) (input ++ t) = .ok (rest ++ t, types) := by
  obtain ⟨encoding, input', rfl, hcases⟩ := typeTable_eq_ok.1 h
  refine typeTable_eq_ok.2 ⟨encoding, input' ++ t, rfl, ?_⟩
  rcases hcases with ⟨habsent, rfl, rfl⟩ |
    ⟨habsent, hvalid, offset, n, huleb, hposition, hlt, hle, rfl⟩
  · exact .inl ⟨habsent, rfl, rfl⟩
  · refine .inr ⟨habsent, hvalid, offset, n, uleb_local.append huleb t, ?_, hlt, ?_, rfl⟩
    · rwa [position_append]
    · rw [List.length_append]
      omega

/-- The table with bytes behind it. -/
def append (lsda : Lsda) (t : List UInt8) : Lsda := { lsda with bytes := lsda.bytes ++ t }

theorem new_append {bytes : List UInt8} {bases : Bases} {endian : Endian} {lsda : Lsda}
    (h : new bytes bases endian = .ok lsda) (t : List UInt8) :
    new (bytes ++ t) bases endian = .ok (lsda.append t) := by
  obtain ⟨input₁, landingBase, input₂, types, encoding, input₃, input₄, actions, callSites,
    hlanding, htypes, rfl, huleb, rfl, hle, hvalid, habsent, rfl⟩ := new_eq_ok.1 h
  refine new_eq_ok.2 ⟨input₁ ++ t, landingBase, _, types, encoding, input₃ ++ t, _, actions ++ t,
    callSites, landing_append hlanding t, typeTable_append htypes t, rfl,
    uleb_local.append huleb t, List.append_assoc .., ?_, hvalid, habsent, ?_⟩
  · rw [List.length_append, List.length_append]
    omega
  · simp only [append, List.length_append, mk.injEq, true_and]
    omega

/-! ## Call sites -/

/-- The search for a call site does not look behind the call-site table. -/
theorem site_append (lsda : Lsda) (t : List UInt8) (pc : ℕ) :
    (lsda.append t).site pc = lsda.site pc := by
  -- a turn of the search reads the call-site table, which has not changed
  have hnext (input : List UInt8) (done : Bool) : Sites.next ⟨lsda.append t, input, done⟩ =
      ((Sites.next ⟨lsda, input, done⟩).1,
        { (Sites.next ⟨lsda, input, done⟩).2 with lsda := lsda.append t }) := by
    have hsite : callSite (lsda.append t) input = callSite lsda input := rfl
    simp only [Sites.next, hsite]
    split
    · rfl
    · split <;> rfl
  have hlsda (s : Sites) : (Sites.next s).2.lsda = s.lsda := by
    rw [Sites.next]
    split
    · rfl
    · split <;> rfl
  have hbisimilar : Iter.Bisimilar Sites.next Sites.next
      (fun s s' => s'.lsda = lsda ∧ s = { s' with lsda := lsda.append t }) Eq := by
    rintro _ s' ⟨rfl, rfl⟩
    refine ⟨?_, hlsda s', ?_⟩
    · rw [hnext]
      cases (Sites.next s').1 with
      | none => exact .none
      | some a => exact .some rfl
    · rw [hnext]
  have hitems : (lsda.append t).sites.items = lsda.sites.items := by
    have hall := hbisimilar.items (s := (lsda.append t).sites) (t := lsda.sites) ⟨rfl, rfl⟩
      (lsda.callSites.length + 1)
    rwa [List.forall₂_eq_eq_eq] at hall
  rw [site, site, hitems]
  rfl

/-! ## Types and lists -/

theorem get_append {types : Types} {lsda : Lsda} {index : TypeIndex} {x : Target}
    (h : types.get lsda index = .ok x) (t : List UInt8) :
    types.get (lsda.append t) index = .ok x := by
  simp only [Types.get, Except.bind_eq_ok_iff, Prod.exists] at h
  obtain ⟨width, hwidth, offset, hoffset, start, hstart, input, used, htake, rest, y, htarget,
    consumed, hconsumed, h⟩ := h
  have htarget' := target_append htarget t
  have htake' := takeBytes_append htake t
  simp only [Types.get, append, hwidth, hoffset, hstart, htake', htarget', position_append,
    hconsumed, Except.bind_ok]
  exact h

omit [PointerEncoding] in
/-- A specification list with bytes behind it is followed until it ends or fails. -/
theorem filterTypes_follows (t : List UInt8) : Iter.Follows FilterTypes.next FilterTypes.next
    (fun f f' => f' = { f with input := f.input ++ t }) := by
  constructor
  · rintro f _ b g rfl h
    rw [FilterTypes.next] at h
    split at h
    · cases h
    · rename_i hdone
      split at h
      · rename_i rest index huleb
        have huleb' := uleb_local.append huleb t
        split at h
        · cases h
        · rename_i hindex
          obtain ⟨hb, rfl⟩ := Prod.mk.inj h
          refine ⟨_, ?_, rfl⟩
          rw [FilterTypes.next, if_neg hdone]
          simp only [huleb', if_neg hindex, hb]
      · cases h
  · rintro f _ rfl h
    rw [FilterTypes.next] at h ⊢
    split at h
    · rename_i hdone
      rw [if_pos hdone]
    · rename_i hdone
      rw [if_neg hdone]
      split at h
      · rename_i rest index huleb
        have huleb' := uleb_local.append huleb t
        split at h
        · rename_i hindex
          simp only [huleb', if_pos hindex]
        · cases h
      · cases h

omit [PointerEncoding] in
theorem filter_append {lsda : Lsda} {index : FilterIndex} {f : FilterTypes}
    (h : lsda.filter index = .ok f) (t : List UInt8) :
    (lsda.append t).filter index = .ok { f with input := f.input ++ t } := by
  simp only [filter, Except.bind_eq_ok_iff] at h
  obtain ⟨types, htypes, relative, hrelative, start, hstart, h⟩ := h
  split at h
  · rename_i hle
    obtain ⟨⟨input, used⟩, htake, h⟩ := Except.bind_eq_ok_iff.1 h
    obtain rfl := Except.ok.inj h
    have hle' : start ≤ (lsda.bytes ++ t).length := by
      rw [List.length_append]
      omega
    simp only [filter, append, htypes, hrelative, hstart, Except.bind_ok, if_pos hle',
      takeBytes_append htake t]
  · cases h

/-! ## Action chains -/

omit [PointerEncoding] in
/-- A record read in front of more bytes. -/
theorem chain_record_append {bytes input : List UInt8} {floor : ℕ} {kind : Kind}
    {next : Option (List UInt8)} (h : Chain.record bytes floor input = .ok (kind, next))
    (t : List UInt8) :
    Chain.record (bytes ++ t) floor (input ++ t) = .ok (kind, next.map (· ++ t)) := by
  simp only [Chain.record, Except.bind_eq_ok_iff, Prod.exists, Except.ok.injEq,
    Prod.mk.injEq] at h
  obtain ⟨link, index, hindex, rest, delta, hdelta, kind', hkind, next', hfollow, rfl, rfl⟩ := h
  have hfollow' : Chain.follow (bytes ++ t) floor (link ++ t) delta =
      .ok (next'.map (· ++ t)) := by
    rw [Chain.follow] at hfollow ⊢
    split
    · rename_i hzero
      rw [if_pos hzero] at hfollow
      rw [← Except.ok.inj hfollow]
      rfl
    · rename_i hzero
      rw [if_neg hzero] at hfollow
      simp only [Except.bind_eq_ok_iff] at hfollow
      obtain ⟨link', hlink, target, htarget, hfollow⟩ := hfollow
      split at hfollow
      -- a target inside the table is inside the longer one
      · rename_i hin
        obtain ⟨⟨dropped, used⟩, htake, hfollow⟩ := Except.bind_eq_ok_iff.1 hfollow
        have hin' : floor ≤ target ∧ target < (bytes ++ t).length := by
          rw [List.length_append]
          omega
        rw [position_append, hlink, Except.bind_ok, htarget, Except.bind_ok, if_pos hin',
          takeBytes_append htake t, ← Except.ok.inj hfollow]
        rfl
      · cases hfollow
  simp only [Chain.record, sleb_local.append hindex t, sleb_local.append hdelta t, hkind,
    hfollow', Except.bind_ok]

/-- An iterator over the same records with at least as much budget and more bytes behind. -/
structure ChainExtends (t : List UInt8) (c c' : Chain) : Prop where
  bytes : c'.bytes = c.bytes ++ t
  rest : c'.rest = c.rest.map (· ++ t)
  fuel : c.fuel ≤ c'.fuel
  floor : c'.floor = c.floor

omit [PointerEncoding] in
theorem chain_follows_extended (t : List UInt8) :
    Iter.Follows Chain.next Chain.next (ChainExtends t) := by
  constructor
  · rintro c c' kind d ⟨hbytes, hrest, hfuel, hfloor⟩ h
    rw [Chain.next] at h
    split at h
    · cases h
    · rename_i input hinput
      split at h
      · cases h
      · rename_i hfuel0
        dsimp only at h
        split at h
        · rename_i kind' next hrecord
          have hrecord' := chain_record_append hrecord t
          simp only [Prod.mk.injEq, Option.some.injEq, Except.ok.injEq] at h
          obtain ⟨rfl, rfl⟩ := h
          have hrest' : c'.rest = some (input ++ t) := by rw [hrest, hinput]; rfl
          -- the longer table gives the chain more fuel, so it is not out of it either
          have hnext : Chain.next c' = (some (.ok kind'),
              { c' with fuel := c'.fuel - 1, rest := next.map (· ++ t) }) := by
            simp only [Chain.next, hrest', if_neg (show ¬c'.fuel = 0 by omega), hbytes, hfloor,
              hrecord']
          exact ⟨_, hnext, hbytes, rfl, Nat.sub_le_sub_right hfuel 1, hfloor⟩
        · cases h
  · rintro c c' ⟨-, hrest, -, -⟩ h
    have hnone := Chain.rest_of_next_none h
    rw [Chain.next_none (by rw [hrest, hnone]; rfl)]

omit [PointerEncoding] in
theorem chain_append {lsda : Lsda} {action : Action} {c : Chain}
    (h : lsda.chain action = .ok c) (t : List UInt8) :
    ∃ c', (lsda.append t).chain action = .ok c' ∧ ChainExtends t c c' ∧
      Except.Agree c.items c'.items := by
  simp only [chain, Except.bind_eq_ok_iff] at h
  obtain ⟨relative, hrelative, offset, hoffset, h⟩ := h
  split at h
  · rename_i hlt
    obtain ⟨⟨input, used⟩, htake, h⟩ := Except.bind_eq_ok_iff.1 h
    obtain rfl := Except.ok.inj h
    have hlt' : offset < (lsda.append t).bytes.length := by
      rw [append, List.length_append]
      omega
    have hfuel : saturatingAdd lsda.bytes.length 1 ≤
        saturatingAdd (lsda.append t).bytes.length 1 := by
      rw [saturatingAdd, saturatingAdd, append, List.length_append]
      omega
    have hextends : ChainExtends t
        ⟨lsda.bytes, some input, saturatingAdd lsda.bytes.length 1, lsda.actionOffset⟩
        ⟨(lsda.append t).bytes, some (input ++ t),
          saturatingAdd (lsda.append t).bytes.length 1, lsda.actionOffset⟩ :=
      ⟨rfl, rfl, hfuel, rfl⟩
    refine ⟨_, ?_, hextends, (chain_follows_extended t).agree hextends (Chain.yields_items _)
      (Chain.yields_items _)⟩
    rw [chain, hrelative, Except.bind_ok,
      show (lsda.append t).actionOffset = lsda.actionOffset from rfl, hoffset, Except.bind_ok,
      if_pos hlt', show (lsda.append t).bytes = lsda.bytes ++ t from rfl,
      takeBytes_append htake t]
    rfl
  · cases h

end Lsda

/-! ## The scans of the languages -/

section

variable {lsda : Lsda} {pc : ℕ}

theorem Rust.scan_append {action : Rust.Action} (h : Rust.scan lsda pc = .ok action)
    (t : List UInt8) : Rust.scan (lsda.append t) pc = .ok action := by
  rw [Rust.scan, Lsda.site_append]
  rw [Rust.scan, Except.bind_eq_ok_iff] at h
  obtain ⟨site, hsite, h⟩ := h
  rw [hsite, Except.bind_ok]
  rcases site with - | site
  · exact h
  dsimp only at h ⊢
  split at h
  · exact h
  rw [Except.bind_eq_ok_iff] at h
  obtain ⟨pad, hpad, h⟩ := h
  rw [hpad, Except.bind_ok]
  split at h
  · exact h
  rw [Except.bind_eq_ok_iff] at h
  obtain ⟨chain, hchain, h⟩ := h
  -- the scan looks at the first record only
  obtain ⟨chain', hchain', hextends, -⟩ :=
    Lsda.chain_append (Except.mapError_eq_ok.1 hchain) t
  rw [Except.mapError_eq_ok.2 hchain', Except.bind_ok]
  split at h
  · cases h
  rename_i kind hkind
  rw [Except.bind_eq_ok_iff] at h
  obtain ⟨kind, hok, h⟩ := h
  obtain rfl := Except.mapError_eq_ok.1 hok
  obtain ⟨d, hnext, -⟩ := (Lsda.chain_follows_extended t).ok _ _ kind chain.next.2 hextends
    (Prod.ext hkind rfl)
  rw [hnext]
  exact h

omit [PointerEncoding] in
theorem Cxx.cleanLoop_agree {as bs : List (Except LsdaError Kind)} (h : Except.Agree as bs)
    {before after : Bool} (hloop : Cxx.cleanLoop as before = .ok after) :
    Cxx.cleanLoop bs before = .ok after := by
  induction h generalizing before with
  | nil => exact hloop
  | ok kind _ ih => cases kind <;> exact ih hloop
  | error e as bs => cases hloop

theorem Cxx.clean_append {action : Cxx.Action} (h : Cxx.clean lsda pc = .ok action)
    (t : List UInt8) : Cxx.clean (lsda.append t) pc = .ok action := by
  rw [Cxx.clean, Lsda.site_append]
  rw [Cxx.clean, Except.bind_eq_ok_iff] at h
  obtain ⟨site, hsite, h⟩ := h
  rw [hsite, Except.bind_ok]
  rcases site with - | site
  · exact h
  dsimp only at h ⊢
  split at h
  · exact h
  rw [Except.bind_eq_ok_iff] at h
  obtain ⟨pad, hpad, h⟩ := h
  rw [hpad, Except.bind_ok]
  split at h
  · exact h
  rw [Except.bind_eq_ok_iff] at h
  obtain ⟨chain, hchain, h⟩ := h
  obtain ⟨cleanup, hcleanup, h⟩ := Except.bind_eq_ok_iff.1 h
  obtain ⟨chain', hchain', -, hagree⟩ := Lsda.chain_append (Except.mapError_eq_ok.1 hchain) t
  rw [Except.mapError_eq_ok.2 hchain', Except.bind_ok, Cxx.cleanLoop_agree hagree hcleanup]
  exact h

end

section

variable {W E : Type} {M : Cxx.Matcher W E} {stage : Cxx.Stage} {exception : ExceptionRef}
  {class_ : ExceptionClass} {lsda lsda' : Lsda}

/-- The matcher answers by clause and selector only. -/
def Cxx.Matcher.AnswersBy (M : Cxx.Matcher W E) (answer : Cxx.Clause → Selector → Except E Bool) :
    Prop :=
  ∀ stage exception class_ lsda clause selector w,
    (M.test stage exception class_ lsda clause selector w).1 = answer clause selector

/-- What a clause test returns, from what the matcher answers. -/
def Cxx.Clause.answer (ans : Cxx.Clause → Selector → Except E Bool) (clause : Cxx.Clause) :
    Except (Cxx.Failure E) (Option Selector) :=
  match clause.selector with
  | .error error => .error (.metadata error)
  | .ok selector =>
    match ans clause selector with
    | .error error => .error (.match_ error)
    | .ok matched => .ok (if matched then some selector else none)

omit [PointerEncoding] in
theorem Cxx.Clause.test_answersBy {ans : Cxx.Clause → Selector → Except E Bool}
    (hM : M.AnswersBy ans) (clause : Cxx.Clause) (w : W) :
    (clause.test M stage exception class_ lsda w).1 = clause.answer ans := by
  rw [Cxx.Clause.test, Cxx.Clause.answer]
  cases clause.selector with
  | error e => rfl
  | ok selector =>
    dsimp only
    rw [← hM stage exception class_ lsda clause selector w]
    rcases M.test stage exception class_ lsda clause selector w with ⟨_ | _, _⟩ <;> rfl

/-- A record contributes the same to the scan of a table whose types decode alike. -/
theorem Cxx.outcome_agree {ans : Cxx.Clause → Selector → Except E Bool} (hM : M.AnswersBy ans)
    (htypes : ∀ index clause, Cxx.Clause.ofCatch lsda index = .ok clause →
      Cxx.Clause.ofCatch lsda' index = .ok clause)
    {kind : Except LsdaError Kind} {found : Option Selector} {w : W}
    (h : (Cxx.outcome M stage exception class_ lsda kind w).1 = .ok found) (w' : W) :
    (Cxx.outcome M stage exception class_ lsda' kind w').1 = .ok found := by
  rcases kind with error | (- | index | index)
  · cases h
  · exact h
  · simp only [Cxx.outcome] at h ⊢
    cases hclause : Cxx.Clause.ofCatch lsda index with
    | error e => rw [hclause] at h; cases h
    | ok clause =>
      rw [hclause] at h
      rw [htypes index clause hclause]
      dsimp only at h ⊢
      rw [Cxx.Clause.test_answersBy hM] at h ⊢
      exact h
  · simp only [Cxx.outcome] at h ⊢
    rw [Cxx.Clause.test_answersBy hM] at h ⊢
    exact h

theorem Cxx.scanLoop_agree {ans : Cxx.Clause → Selector → Except E Bool} (hM : M.AnswersBy ans)
    (htypes : ∀ index clause, Cxx.Clause.ofCatch lsda index = .ok clause →
      Cxx.Clause.ofCatch lsda' index = .ok clause)
    {as bs : List (Except LsdaError Kind)} (hagree : Except.Agree as bs) {before : Bool} {w : W}
    {found : Option Selector × Bool}
    (h : (Cxx.scanLoop M stage exception class_ lsda as before w).1 = .ok found) (w' : W) :
    (Cxx.scanLoop M stage exception class_ lsda' bs before w').1 = .ok found := by
  -- on the records the two chains share; the matcher's state may differ all along
  induction hagree generalizing before w w' with
  | nil => exact h
  | error e as bs => cases h
  | ok kind _ ih =>
    simp only [Cxx.scanLoop] at h ⊢
    rcases houtcome : Cxx.outcome M stage exception class_ lsda (.ok kind) w with ⟨o, w₁⟩
    rcases houtcome' : Cxx.outcome M stage exception class_ lsda' (.ok kind) w' with ⟨o', w₁'⟩
    rw [houtcome] at h
    cases o with
    | error e => cases h
    | ok selected =>
      have hsame := Cxx.outcome_agree hM htypes (congrArg Prod.fst houtcome) w'
      rw [houtcome'] at hsame
      obtain rfl : o' = .ok selected := hsame
      cases selected with
      | none => exact ih h w₁'
      | some selector => exact h

theorem Cxx.ofCatch_append {index : TypeIndex} {clause : Cxx.Clause}
    (h : Cxx.Clause.ofCatch lsda index = .ok clause) (t : List UInt8) :
    Cxx.Clause.ofCatch (lsda.append t) index = .ok clause := by
  simp only [Cxx.Clause.ofCatch, Except.bind_eq_ok_iff, Except.mapError_eq_ok] at h
  obtain ⟨types, htypes, target, htarget, h⟩ := h
  have htypes' : (lsda.append t).types.okOr Cxx.CxxError.types = .ok types := htypes
  have htarget' := Except.mapError_eq_ok (f := Cxx.CxxError.parse).2 (Lsda.get_append htarget t)
  rw [Cxx.Clause.ofCatch, htypes', Except.bind_ok, htarget']
  exact h

theorem Cxx.scan_append {ans : Cxx.Clause → Selector → Except E Bool} (hM : M.AnswersBy ans)
    {pc : ℕ} {action : Cxx.Action} {w : W}
    (h : (Cxx.scan M stage exception class_ lsda pc w).1 = .ok action) (t : List UInt8) (w' : W) :
    (Cxx.scan M stage exception class_ (lsda.append t) pc w').1 = .ok action := by
  rw [Cxx.scan] at h ⊢
  rw [Lsda.site_append]
  cases hsite : lsda.site pc with
  | error e => rw [hsite] at h; cases h
  | ok site =>
  rw [hsite] at h
  rcases site with - | site
  · exact h
  dsimp only at h ⊢
  cases hland : site.land with
  | none => rw [hland] at h; exact h
  | some addr =>
  rw [hland] at h
  dsimp only at h ⊢
  cases hpad : Cxx.Pad.new addr with
  | error e => rw [hpad] at h; cases h
  | ok pad =>
  rw [hpad] at h
  dsimp only at h ⊢
  cases haction : site.action with
  | none => rw [haction] at h; exact h
  | some first =>
  rw [haction] at h
  dsimp only at h ⊢
  cases hchain : lsda.chain first with
  | error e => rw [hchain] at h; cases h
  | ok chain =>
  rw [hchain] at h
  obtain ⟨chain', hchain', -, hagree⟩ := Lsda.chain_append hchain t
  rw [hchain']
  dsimp only at h ⊢
  rcases hloop : Cxx.scanLoop M stage exception class_ lsda chain.items false w with ⟨found, w₁⟩
  rw [hloop] at h
  cases found with
  | error e => cases h
  | ok found =>
  have hloop' := Cxx.scanLoop_agree hM (fun _ _ hclause => Cxx.ofCatch_append hclause t) hagree
    (congrArg Prod.fst hloop) w'
  rcases hfound' : Cxx.scanLoop M stage exception class_ (lsda.append t) chain'.items false w'
    with ⟨found', w₁'⟩
  rw [hfound'] at hloop'
  obtain rfl : found' = .ok found := hloop'
  exact h

end

/-- **Foreign bytes behind a table.** What is read from a table is read alike when the bytes up
to the end of the section follow it: the header, call sites, the scans of both languages, types,
specification lists and action chains. -/
theorem Lsda.tail_unread {bytes : List UInt8} {bases : Bases} {endian : Endian} {lsda : Lsda}
    (h : Lsda.new bytes bases endian = .ok lsda) (t : List UInt8) :
    ∃ lsda', Lsda.new (bytes ++ t) bases endian = .ok lsda' ∧
      lsda'.landingBase = lsda.landingBase ∧ lsda'.types = lsda.types ∧
      lsda'.callSites = lsda.callSites ∧ lsda'.actionOffset = lsda.actionOffset ∧
      (∀ pc site, lsda.site pc = .ok site → lsda'.site pc = .ok site) ∧
      (∀ pc action, Rust.scan lsda pc = .ok action → Rust.scan lsda' pc = .ok action) ∧
      (∀ pc action, Cxx.clean lsda pc = .ok action → Cxx.clean lsda' pc = .ok action) ∧
      (∀ (W E : Type) (M : Cxx.Matcher W E) answer, M.AnswersBy answer →
        ∀ pc exception class_ w w' action,
          (Cxx.search M lsda pc exception class_ w).1 = .ok action →
          (Cxx.search M lsda' pc exception class_ w').1 = .ok action) ∧
      (∀ (types : Types) index x, types.get lsda index = .ok x → types.get lsda' index = .ok x) ∧
      (∀ index f, lsda.filter index = .ok f → ∃ f', lsda'.filter index = .ok f' ∧
        ∀ items : List TypeIndex, Iter.Yields FilterTypes.next f (items.map .ok) →
          Iter.Yields FilterTypes.next f' (items.map .ok)) ∧
      (∀ action c, lsda.chain action = .ok c → ∃ c', lsda'.chain action = .ok c' ∧
        ∀ items : List Kind, Iter.Yields Chain.next c (items.map .ok) →
          Iter.Yields Chain.next c' (items.map .ok)) := by
  refine ⟨lsda.append t, new_append h t, rfl, rfl, rfl, rfl, ?_, ?_, ?_, ?_, ?_, ?_, ?_⟩
  · exact fun pc site hsite => site_append lsda t pc ▸ hsite
  · exact fun pc action haction => Rust.scan_append haction t
  · exact fun pc action haction => Cxx.clean_append haction t
  · exact fun W E M answer hM pc exception class_ w w' action haction =>
      Cxx.scan_append hM haction t w'
  · exact fun types index x hx => get_append hx t
  -- a list read to its end is read alike, one that fails may go on
  · intro index f hf
    refine ⟨_, filter_append hf t, fun items hitems => ?_⟩
    have hyields := FilterTypes.yields_items { f with input := f.input ++ t }
    have hagree := (filterTypes_follows t).agree rfl hitems hyields
    rwa [hagree.eq_of_ok] at hyields
  · intro action c hc
    obtain ⟨c', hc', hextends, -⟩ := chain_append hc t
    refine ⟨c', hc', fun items hitems => ?_⟩
    have hyields := Chain.yields_items c'
    have hagree := (chain_follows_extended t).agree hextends hitems hyields
    rwa [hagree.eq_of_ok] at hyields

omit [PointerEncoding] in
/-- A table with one cleanup entry in front of foreign bytes. -/
theorem Lsda.tail_unread_foreign : ∃ lsda',
    @Lsda.new .bits ([0xff, 0xff, 0x01, 0x04, 0x00, 0x05, 0x0a, 0x00] ++ [0x9b, 0x7f])
      (.new 0x1000 0x2000) .little = .ok lsda' ∧
    @Lsda.site .bits lsda' 0x2002 = .ok (some ⟨0, 5, some 0x200a, none⟩) := by
  let _ := PointerEncoding.bits
  have hnew : Lsda.new [0xff, 0xff, 0x01, 0x04, 0x00, 0x05, 0x0a, 0x00] (.new 0x1000 0x2000)
      .little = .ok ⟨[0xff, 0xff, 0x01, 0x04, 0x00, 0x05, 0x0a, 0x00], .new 0x1000 0x2000, .little,
        0x2000, none, ULEB, [0x00, 0x05, 0x0a, 0x00], 8⟩ := by decide
  obtain ⟨lsda', hnew', -, -, -, -, hsite, -⟩ := Lsda.tail_unread hnew [0x9b, 0x7f]
  exact ⟨lsda', hnew', hsite 0x2002 _ (by decide)⟩

end Desenredo
