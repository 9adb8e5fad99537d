import Desenredo.Lsda.LookupTheorems
import Desenredo.Personality.ProtocolTheorems
import Desenredo.Personality.Source
import Desenredo.Unwind.TraceTheorems

/-!
# The instruction a personality looks up

The unwinder and a personality both turn the stored instruction pointer of a frame into the
address they look it up at, the one through the relation its cursor carries and the other
through the flag the unwinder reports. Along a traversal the two are the same address.
-/

namespace Desenredo

open Usize Unwind Personality

section

variable [Gimli] {U : Unwinder}

/-! ## Traversals -/

/-- The cursors that advances lead to, with the frames they were given. -/
inductive Unwind.Cursor.Advanced (U : Unwinder) (start : Cursor) : List Info → Cursor → Prop
  | start : Advanced U start [] start
  | advance {infos : List Info} {c next : Cursor} {info : Info} : Advanced U start infos c →
      c.advance U info = (.ok (), next) → Advanced U start (infos ++ [info]) next

/-- The reader finds no entry that begins behind the address it was asked for. -/
def Unwind.Unwinder.Covers (U : Unwinder) : Prop :=
  ∀ address image fde, U.image address = some image →
    Gimli.fdeForAddress image.ehFrame image.bases address = .ok fde →
    fde.initialAddress ≤ address

variable {c : Cursor} {info : Info} {infos : List Info} {state : State}

/-- The relation of a cursor is that of the frame it was advanced from: the instruction itself
behind a signal trampoline, and a return address behind every other frame and at the start. -/
theorem Unwind.Cursor.Advanced.relation (h : Cursor.Advanced U (.new state) infos c) :
    c.relation = .instruction ↔ ∃ last, infos.getLast? = some last ∧ last.signal := by
  cases h with
  | start => simp [Cursor.new]
  | @advance infos c next info _ hadvance =>
    obtain ⟨caller, -, rfl⟩ := Cursor.advance_eq_ok.1 hadvance
    rw [List.getLast?_concat]
    cases hsignal : info.signal <;> simp [Info.callerRelation, hsignal]

/-! ## The lookup address -/

/-- A personality computes the address a callback stands for. -/
theorem Personality.Frame.site_eq (frame : Frame) : frame.ip.site = frame.context.lookup := by
  rw [Frame.ip, Callback.lookup]
  obtain ⟨address, before⟩ := frame.context.info
  cases address <;> cases before <;> rfl

/-- The table of a frame is read relative to the region the frame begins at. -/
theorem Personality.Source.table_function [PointerEncoding] {E : Type} {S : Source E}
    {frame : Frame} {lsda : Lsda} (h : S.table U frame = .ok (some lsda)) :
    lsda.bases.function = frame.start := by
  unfold Source.table at h
  dsimp only at h
  split at h
  · cases h
  · obtain ⟨parsed, hparsed, hlsda⟩ := Except.map_eq_ok.1 h
    obtain rfl := Option.some.inj hlsda
    rw [(Lsda.new_fields (Except.mapError_eq_ok.1 hparsed)).2.1, Source.bases]
    cases S.text frame <;> cases S.data frame <;> rfl
  · cases h

/-- **One instruction.** Wherever a traversal resolves a frame, a personality looks up the
address that selected its entry. If the reader only finds entries that begin at or before that
address, it does not lie in front of the region the table of the frame is relative to. -/
theorem site_is_lookup [PointerEncoding] {registers : Registers}
    (hrun : Cursor.Advanced U (.new (.captured registers)) infos c)
    (hinfo : c.current U = .ok (some info)) :
    let frame : Personality.Frame := ⟨⟨c, some info⟩⟩
    (frame.ip.beforeInstruction = true ↔ ∃ last, infos.getLast? = some last ∧ last.signal) ∧
    frame.ip.site = info.ip ∧
    Gimli.fdeForAddress info.image.ehFrame info.image.bases frame.ip.site = .ok info.fde ∧
    (U.Covers → frame.start ≤ frame.ip.site ∧
      (∀ lsda : Lsda, lsda.bases.function = frame.start →
        lsda.site frame.ip.site ≠ .error .table) ∧
      ∀ (E : Type) (S : Source E) (lsda : Lsda), S.table U frame = .ok (some lsda) →
        lsda.site frame.ip.site ≠ .error .table) := by
  intro frame
  obtain ⟨-, himage, hfde, -⟩ := Info.new_eq_ok.1 hinfo
  have hsite : frame.ip.site = info.ip := (Frame.site_eq frame).trans (Callback.lookup_eq hinfo)
  refine ⟨?_, hsite, hsite ▸ hfde, fun hcovers => ?_⟩
  · rw [← hrun.relation]
    change c.relation.before = true ↔ _
    cases c.relation <;> simp [Relation.before]
  · have hstart : frame.start ≤ frame.ip.site := by
      rw [hsite]
      exact hcovers _ _ _ himage hfde
    have htable (lsda : Lsda) (hfunction : lsda.bases.function = frame.start) :
        lsda.site frame.ip.site ≠ .error .table := by
      rw [Ne, Lsda.site_eq_table, hfunction]
      omega
    exact ⟨hstart, htable, fun E S lsda h => htable lsda (Source.table_function h)⟩

end

section

attribute [local instance] Gimli.decoded

/-- A reader given by its rows finds what they say. -/
theorem Unwind.Unwinder.covers_decoded {rows : ℕ → Option (Fde × Row)}
    (h : ∀ address entry, rows address = some entry → entry.1.initialAddress ≤ address) :
    (Unwinder.decoded rows).Covers := by
  intro address image fde himage hfde
  have hrows : image.ehFrame = rows := by
    rw [Unwinder.decoded, Image.new, dif_pos (by decide), Option.some.injEq] at himage
    rw [← himage]
  rw [hrows] at hfde
  change ((rows address).map Prod.fst).okOr () = _ at hfde
  obtain ⟨entry, hentry, rfl⟩ := Option.map_eq_some_iff.1 (Option.okOr_eq_ok.1 hfde)
  exact h address entry hentry

attribute [local instance] PointerEncoding.bits in
/-- A signal trampoline returns to the first instruction of a function. -/
theorem site_is_lookup_trampoline :
    let row : Row := ⟨.registerAndOffset .RSP 8, [(.RA, .constant 200)], 0⟩
    let trampoline : Fde := ⟨⟨8, false, 1⟩, 90, true, none, none⟩
    let body : Fde := ⟨⟨8, false, 1⟩, 200, false, none, none⟩
    let U := Unwinder.decoded fun address =>
      if address = 99 then some (trampoline, row) else
      if address = 200 then some (body, row) else none
    ∃ first c info, Cursor.Advanced U
        (.new (.captured ⟨fun slot => if slot = .ra then 100 else 1000⟩)) [first] c ∧
      c.current U = .ok (some info) ∧ info.ip = 200 ∧ info.start = 200 ∧
      (Personality.Frame.mk ⟨c, some info⟩).ip.site = info.ip ∧
      (Personality.Frame.mk ⟨c, some info⟩).start ≤
        (Personality.Frame.mk ⟨c, some info⟩).ip.site := by
  intro row trampoline body U
  have hcovers : U.Covers := by
    refine Unwinder.covers_decoded fun address entry hentry => ?_
    split_ifs at hentry with h99 h200
    · rw [← Option.some.inj hentry, h99]
      decide
    · rw [← Option.some.inj hentry, h200]
  let start := Cursor.new (.captured ⟨fun slot => if slot = .ra then 100 else 1000⟩)
  let image : Image := ⟨fun address =>
    if address = 99 then some (trampoline, row) else
    if address = 200 then some (body, row) else none, ⟨some 0, some 0, none⟩, 0, size, none,
    by decide, rfl, rfl⟩
  let first : Info := ⟨image, trampoline, row, 99⟩
  let next := (start.advance U first).2
  have hrun : Cursor.Advanced U start [first] next := .advance .start rfl
  have hinfo : next.current U = .ok (some ⟨image, body, row, 200⟩) := rfl
  have hlookup := site_is_lookup hrun hinfo
  exact ⟨first, next, _, hrun, hinfo, rfl, rfl, hlookup.2.1, (hlookup.2.2.2 hcovers).1⟩

end

/-! ## Passes -/

section

variable [Gimli] {W : Type} {w : Walk W} {s : Position W} {info : Info}

/-- A personality is called on the frame its cursor resolves, and looks it up where it was
resolved. -/
def LooksUp (U : Unwinder) : Event W → Prop
  | .personality call => ∃ c info, call.args.context = some ⟨c, some info⟩ ∧
      c.current U = .ok (some info) ∧ (Personality.Frame.mk ⟨c, some info⟩).ip.site = info.ip
  | _ => True

theorem answered_looksUp {t : Position W} {actions : Actions} {answer : Answer W}
    (hcursor : t.cursor = s.cursor) (hinfo : s.cursor.current w.unwinder = .ok (some info))
    (hanswer : w.Answered t info actions answer) :
    ∀ event ∈ answer.log, LooksUp w.unwinder event := by
  intro event hevent
  obtain ⟨f, rfl⟩ := answered_mem hanswer hevent
  rw [← hcursor] at hinfo
  exact ⟨t.cursor, info, rfl, hinfo, (Frame.site_eq _).trans (Callback.lookup_eq hinfo)⟩

theorem searchTurn_looksUp {turn : Turn (Position W) (Event W) (Except ReasonCode Key × Host W)}
    (h : w.SearchTurn s turn) : ∀ event ∈ turn.log, LooksUp w.unwinder event := by
  cases h with
  | lost _ | fin _ => simp [Turn.log]
  | continues hinfo hanswer | stuck hinfo hanswer | found hinfo hanswer
  | refused hinfo hanswer =>
    exact List.forall_mem_cons.2 ⟨trivial, answered_looksUp rfl hinfo hanswer⟩

variable {turn : Turn (Position W) (Event W) (Exit × Host W)}

theorem normalTurn_looksUp {handler : Key} (h : w.NormalTurn s handler turn) :
    ∀ event ∈ turn.log, LooksUp w.unwinder event := by
  cases h with
  | lost _ => simp [Turn.log]
  | keyless _ _ => exact List.forall_mem_singleton.2 trivial
  | installs hinfo _ hanswer | continues hinfo _ hanswer | stuck hinfo _ hanswer
  | refused hinfo _ hanswer =>
    exact List.forall_mem_cons.2 ⟨trivial, answered_looksUp rfl hinfo hanswer⟩

theorem forceTurn_looksUp {forced : Forced}
    (hquiet : ∀ args parameter host, (w.code.stop forced.stop args parameter host).writes = [])
    (h : w.ForceTurn s forced turn) : ∀ event ∈ turn.log, LooksUp w.unwinder event := by
  have hafter (frame : Option Info) (actions : Actions) :
      (Walk.after s frame (w.stopCall s frame actions forced).reply).cursor = s.cursor := by
    simp only [Walk.after, Walk.stopCall, Walk.call, hquiet, Callback.replay_nil]
  cases h with
  | lost _ => simp [Turn.log]
  | fin _ _ _ => exact List.forall_mem_singleton.2 trivial
  | @halted frame _ _ _ _ => cases frame <;> simp [Turn.log, LooksUp]
  | installs hinfo hstop _ hanswer | continues hinfo hstop _ hanswer
  | stuck hinfo hstop _ hanswer | refused hinfo hstop _ hanswer =>
    subst hstop
    exact List.forall_mem_cons.2 ⟨trivial, List.forall_mem_cons.2 ⟨trivial,
      answered_looksUp (hafter _ _) hinfo hanswer⟩⟩

/-- Every personality a pass calls looks up the address its frame was resolved at, in forced
unwinding as long as the stop function moves no register. -/
theorem passes_look_up (n : ℕ) (state : State) (host : Host W) :
    (∀ event ∈ (w.search n state host).1, LooksUp w.unwinder event) ∧
    (∀ handler, ∀ event ∈ (w.normal n state host handler).1, LooksUp w.unwinder event) ∧
    ∀ forced : Forced,
      (∀ args parameter host, (w.code.stop forced.stop args parameter host).writes = []) →
      ∀ event ∈ (w.force n state host forced).1, LooksUp w.unwinder event := by
  refine ⟨?_, fun handler => ?_, fun forced hquiet => ?_⟩
  · exact Loop.run_log_always (fun _ => searchTurn_looksUp Walk.searchTurn_cases) n _
  · exact Loop.run_log_always (fun _ => normalTurn_looksUp (Walk.normalTurn_cases handler)) n _
  · exact Loop.run_log_always (fun _ => forceTurn_looksUp hquiet (Walk.forceTurn_cases forced)) n _

end

end Desenredo
