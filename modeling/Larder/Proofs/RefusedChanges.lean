import Larder.Proofs.Replaying
import Larder.Proofs.StoreRuns

/-! Which records a replay brings back after a run of a store under any failures: those that
counted before, those of the changes that were granted, and at most one that was refused. That
one was written whole, could not be synced, and could not be cut off since; nothing in the file
tells it from a record that counts. -/

namespace Larder

/-- A line there is room for, but which can be neither synced nor cut off again. -/
def Medium.strands (m : Medium) (line : Bytes) : Bool :=
  m.fits line && m.outlook.syncs.strikes && m.outlook.cuts.strikes

theorem Medium.strands_of_ok {m : Medium} {line : Bytes} (h : (m.writeAndSync line).1 = .ok ()) :
    m.strands line = false := by
  rw [writeAndSync_result] at h
  unfold strands
  cases hfits : m.fits line with
  | false => rfl
  | true =>
    cases hsync : m.outlook.syncs.strikes with
    | false => rfl
    | true => rw [hfits, hsync] at h; cases h

namespace Journal

/-- What may be left behind the records that count: the beginning of a record, or, if the first
argument says so, the whole of one. -/
inductive Leftover : Option Record → Bytes → Prop
  | part (r : Record) {k : Nat} (hk : k < r.bytes.length) : Leftover none (r.bytes.take k)
  | whole (r : Record) (hkey : r.key ≠ "") : Leftover (some r) r.bytes

theorem bytes_length_pos (r : Record) : 0 < r.bytes.length := by
  rw [r.bytes_eq, List.length_append]
  exact Nat.succ_pos _

theorem leftover_nil : Leftover none [] := .part (.delete "") (k := 0) (bytes_length_pos _)

/-- A replay of what counts and what is left restores a record more if a whole one is left. -/
theorem records_leftover {base : Bytes} (hbase : Complete base) {rs : List Record}
    (hkeys : ∀ r ∈ rs, r.key ≠ "") {left : Option Record} {tail : Bytes} (h : Leftover left tail) :
    Replay.records (items (base ++ encoding rs ++ tail)) =
      Replay.records (items base) ++ rs ++ left.toList := by
  have htail : ∀ taken, Replay.records (itemsFrom taken (segments tail)) = left.toList := by
    intro taken
    cases h with
    | whole r hkey =>
      rw [segments_bytes, itemsFrom_cons, item?, readLine?_bytes hkey]
      rfl
    | @part r k hk =>
      rcases Nat.eq_zero_or_pos k with rfl | hpos
      · rfl
      · obtain ⟨hfeed, e, -, hread⟩ := readLine?_take_bytes r hpos hk
        rw [segments_unended hfeed]
        split
        · rfl
        · rw [itemsFrom_cons, item?, hread]
          rfl
  rw [List.append_assoc, items_append hbase, segments_append (complete_encoding rs),
    segments_encoding, itemsFrom_append, itemsFrom_bytes _ hkeys, Replay.records_append,
    Replay.records_append, Replay.records_map_ok, htail, List.append_assoc]

namespace Writer

/-- The record that stands refused but whole after an append, if there is one; `left` stood
there before. -/
def stranded (w : Writer) (m : Medium) (r : Record) (left : Option Record) : Option Record :=
  if w.torn then
    if m.outlook.cuts.strikes then left
    else if m.outlook.syncs.strikes then none
    else if (m.cutAndSync w.committed).2.strands r.bytes then some r
    else none
  else if m.strands r.bytes then some r
  else none

theorem stranded_cases (w : Writer) (m : Medium) (r : Record) (left : Option Record) :
    w.stranded m r left = left ∨ w.stranded m r left = none ∨ w.stranded m r left = some r := by
  unfold stranded
  split
  · split
    · exact .inl rfl
    · split
      · exact .inr (.inl rfl)
      · split
        · exact .inr (.inr rfl)
        · exact .inr (.inl rfl)
  · split
    · exact .inr (.inr rfl)
    · exact .inr (.inl rfl)

/-- A line that was refused is left whole exactly if it was stranded. -/
theorem leftover_line {m : Medium} {r : Record} (hkey : r.key ≠ "") {e : OsError}
    (h : (m.writeAndSync r.bytes).1 = .error e) :
    Leftover (if m.strands r.bytes then some r else none) (leftOfLine m r.bytes) := by
  rw [Medium.writeAndSync_result] at h
  unfold Medium.strands leftOfLine
  cases m.outlook.cuts.strikes with
  | false =>
    rw [Bool.and_false]
    exact leftover_nil
  | true =>
    cases hfits : m.fits r.bytes with
    | true =>
      cases hsync : m.outlook.syncs.strikes with
      | true =>
        simp only [Bool.and_self, if_true, Medium.fitting_of_fits hfits]
        exact .whole r hkey
      | false => rw [hfits, hsync] at h; cases h
    | false =>
      have hlt := Medium.length_fitting_of_not_fits hfits
      have htake := List.prefix_iff_eq_take.mp (m.fitting_isPrefix r.bytes)
      simp only [Bool.false_and, if_true]
      rw [htake]
      exact .part r hlt

variable {w : Writer} {m : Medium} {r : Record} {left : Option Record}

/-- After an append that succeeded nothing stands stranded. -/
theorem stranded_of_ok (h : (w.append r m).result = .ok ()) : w.stranded m r left = none := by
  unfold stranded
  cases htorn : w.torn with
  | false =>
    rw [append_result_of_clean htorn] at h
    rw [Medium.strands_of_ok h]
    rfl
  | true =>
    rw [append_result_of_torn htorn, Medium.cutAndSync_result] at h
    cases hcut : m.outlook.cuts.strikes with
    | true => rw [hcut] at h; cases h
    | false =>
      cases hsync : m.outlook.syncs.strikes with
      | true => rw [hcut, hsync] at h; cases h
      | false =>
        rw [hcut, hsync] at h
        rw [Medium.strands_of_ok h]
        rfl

/-- After an append that failed, what is left is a part of a record, or the whole of the one that
stands stranded. -/
theorem leftover_of_error {tail : Bytes} (hl : Leftover left tail) (hkey : r.key ≠ "")
    {e : OsError} (h : (w.append r m).result = .error e) :
    Leftover (w.stranded m r left) (leftOfAppend w m r tail) := by
  unfold stranded leftOfAppend
  cases htorn : w.torn with
  | false =>
    rw [append_result_of_clean htorn] at h
    exact leftover_line hkey h
  | true =>
    rw [append_result_of_torn htorn, Medium.cutAndSync_result] at h
    cases hcut : m.outlook.cuts.strikes with
    | true => exact hl
    | false =>
      cases hsync : m.outlook.syncs.strikes with
      | true => exact leftover_nil
      | false =>
        rw [hcut, hsync] at h
        exact leftover_line hkey h

end Writer

end Journal

namespace Store

open Journal

namespace History

/-- The record that stands refused but whole after one more call; `left` stood there before. -/
def strandedBy (h : History) (e : Event) (left : Option Record) : Option Record :=
  match h.store.writer, e.call.record? h.store e.now with
  | some w, some r => w.stranded (h.found e) r left
  | _, _ => left

theorem strandedBy_of_no_record {h : History} {e : Event} {left : Option Record}
    (hr : e.call.record? h.store e.now = none) : h.strandedBy e left = left := by
  rw [strandedBy, hr]
  cases h.store.writer <;> rfl

theorem strandedBy_of_closed {h : History} {e : Event} {left : Option Record}
    (hw : h.store.writer = none) : h.strandedBy e left = left := by
  rw [strandedBy, hw]

/-- The record that stands refused but whole after some more calls. -/
def stranded (h : History) (left : Option Record) : List Event → Option Record
  | [] => left
  | e :: events => (h.step e).stranded (h.strandedBy e left) events

/-- What the file holds, from what counted at the start on. -/
structure Sound (base : Bytes) (h : History) (left : Option Record) : Prop where
  file : ∃ tail, h.medium.bytes = base ++ encoding h.accepted ++ tail ∧ Leftover left tail ∧
    ∀ w, h.store.writer = some w → w.Stands h.medium (base ++ encoding h.accepted) tail
  keys : ∀ r ∈ h.accepted, r.key ≠ ""
  refused : ∀ r, left = some r → r ∈ h.refused

variable {base : Bytes} {h : History} {left : Option Record}

theorem Sound.unwritten (hs : h.Sound base left) {s : Store} {m : Medium} {refused : List Record}
    (hbytes : m.bytes = h.medium.bytes) (hwriter : s.writer = h.store.writer ∨ s.writer = none)
    (hrefused : h.refused ⊆ refused) : Sound base ⟨s, m, h.accepted, refused⟩ left := by
  obtain ⟨tail, hfile, htail, hstands⟩ := hs.file
  refine ⟨⟨tail, hbytes.trans hfile, htail, fun w hw => ?_⟩, hs.keys,
    fun r hr => hrefused (hs.refused r hr)⟩
  rcases hwriter with hsame | hnone
  · have := hstands w (hsame.symm.trans hw)
    exact ⟨hbytes.trans this.bytes, this.committed, this.clean⟩
  · rw [hnone] at hw
    cases hw

theorem Sound.accept (hs : h.Sound base left) {s : Store} {m : Medium} {w : Writer} {r : Record}
    (hkey : r.key ≠ "") (hwriter : s.writer = some w)
    (hstands : w.Stands m (base ++ encoding h.accepted ++ r.bytes) []) :
    Sound base ⟨s, m, h.accepted ++ [r], h.refused⟩ none := by
  rw [List.append_assoc, show encoding h.accepted ++ r.bytes = encoding (h.accepted ++ [r]) by
    rw [encoding_append, encoding_cons, encoding_nil, List.append_nil]] at hstands
  refine ⟨⟨[], hstands.bytes, leftover_nil, fun w' hw' => ?_⟩, ?_, fun q hq => by cases hq⟩
  · rw [hwriter] at hw'
    cases hw'
    exact hstands
  · intro q hq
    rcases List.mem_append.mp hq with hq | hq
    · exact hs.keys q hq
    · rw [List.mem_singleton.mp hq]
      exact hkey

theorem Sound.refuse (hs : h.Sound base left) {s : Store} {m : Medium} {w : Writer} {r : Record}
    {left' : Option Record} {tail : Bytes} (hwriter : s.writer = some w)
    (hstands : w.Stands m (base ++ encoding h.accepted) tail) (htail : Leftover left' tail)
    (hleft : left' = left ∨ left' = none ∨ left' = some r) :
    Sound base ⟨s, m, h.accepted, h.refused ++ [r]⟩ left' := by
  refine ⟨⟨tail, hstands.bytes, htail, fun w' hw' => ?_⟩, hs.keys, fun q hq => ?_⟩
  · rw [hwriter] at hw'
    cases hw'
    exact hstands
  · rcases hleft with rfl | rfl | rfl
    · exact List.mem_append_left _ (hs.refused q hq)
    · cases hq
    · cases hq
      exact List.mem_append_right _ List.mem_cons_self

theorem Sound.step (hs : h.Sound base left) (e : Event) :
    (h.step e).Sound base (h.strandedBy e left) := by
  cases hr : e.call.record? h.store e.now with
  | none =>
    obtain ⟨hbytes, hwriter⟩ := perform_of_no_record (m := h.found e) hr
    rw [step_of_no_record hr, strandedBy_of_no_record hr]
    exact hs.unwritten hbytes hwriter (List.Subset.refl _)
  | some r =>
    cases hw : h.store.writer with
    | none =>
      obtain ⟨hm, hwriter, hgranted⟩ := perform_of_closed (m := h.found e) hw e.now e.call
      have hbytes : (h.store.perform (h.found e) e.now e.call).medium.bytes = h.medium.bytes := by
        rw [hm]
        rfl
      rw [step_of_refused hr (hgranted (by rw [hr]; rfl)), strandedBy_of_closed hw]
      exact hs.unwritten hbytes (.inr hwriter) (List.subset_append_left _ _)
    | some w =>
      obtain ⟨tail, -, htail, hstands⟩ := hs.file
      obtain ⟨hm, hwriter, hgranted⟩ := perform_of_record? (m := h.found e) hw hr
      have hkey := Call.key_ne_of_record? hr
      have hleft : h.strandedBy e left = w.stranded (h.found e) r left := by
        rw [strandedBy, hw, hr]
      rw [hleft]
      rcases Writer.append_spec ((hstands w hw).setOutlook e.outlook) r with
        ⟨hok, -, hkept⟩ | ⟨e', he, hkept⟩
      · rw [step_of_granted hr (hgranted.trans (congrArg Except.isOk hok)),
          show w.stranded (h.found e) r left = none from Writer.stranded_of_ok hok]
        exact hs.accept hkey hwriter (hm ▸ hkept)
      · rw [step_of_refused hr (hgranted.trans (congrArg Except.isOk he))]
        exact hs.refuse hwriter (hm ▸ hkept) (Writer.leftover_of_error htail hkey he)
          (Writer.stranded_cases w (h.found e) r left)

theorem Sound.run (hs : h.Sound base left) (events : List Event) :
    (h.run events).Sound base (h.stranded left events) := by
  induction events generalizing h left with
  | nil => exact hs
  | cons e events ih => exact ih (hs.step e)

/-- A store that has been loaded stands on the complete prefix of its journal. -/
theorem sound_start {settings : Settings} {now : Millis} {m m' : Medium} {recovered : Recovered}
    (hload : Recovery.load settings now m = (.ok recovered, m')) :
    (start recovered.store m').Sound (completePrefix m.bytes) none := by
  obtain ⟨w, hopen, hstore⟩ := Recovery.load_ok hload
  obtain ⟨-, hstands⟩ := Writer.stands_of_open? hopen
  refine ⟨⟨[], by simpa [start] using hstands.bytes, leftover_nil, fun w' hw' => ?_⟩,
    fun r hr => (List.not_mem_nil hr).elim, fun r hr => by cases hr⟩
  have hsame : w = w' := Option.some.inj (by rw [← hw', start, hstore]; rfl)
  rw [← hsame]
  simpa [start] using hstands

end History

/-- Whatever fails, what is restored after a run is what counted before, the changes that were
granted, in order, and then the record that stands stranded if there is one, which belongs to a
change that was refused. So nothing refused comes back exactly if no record stands stranded. -/
theorem restored_of_run {settings : Settings} {now : Millis} {m m' : Medium}
    {recovered : Recovered} (hload : Recovery.load settings now m = (.ok recovered, m'))
    (events : List Event) :
    let h := (History.start recovered.store m').run events
    let granted := Replay.records (items (completePrefix m.bytes)) ++ h.accepted
    let stranded := (History.start recovered.store m').stranded none events
    Replay.records (items h.medium.bytes) = granted ++ stranded.toList ∧
      (∀ r, stranded = some r → r ∈ h.refused) ∧
      (Replay.records (items h.medium.bytes) = granted ↔ stranded = none) ∧
      ∀ settings now outlook,
        (∀ again m', Recovery.load settings now ⟨h.medium.bytes, outlook⟩ = (.ok again, m') →
          again.store.shelf =
            Replay.restoreAll now (.empty settings.maxEntries) (granted ++ stranded.toList)) ∧
        (settings.policy = .skip → outlook.Calm →
          ∃ again m', Recovery.load settings now ⟨h.medium.bytes, outlook⟩ = (.ok again, m')) := by
  intro h granted stranded
  have hs := (History.sound_start hload).run events
  obtain ⟨tail, hfile, htail, -⟩ := hs.file
  have hrecords : Replay.records (items h.medium.bytes) = granted ++ stranded.toList := by
    rw [hfile]
    exact records_leftover (complete_completePrefix _) hs.keys htail
  refine ⟨hrecords, hs.refused, ?_, fun settings now outlook => ⟨?_, ?_⟩⟩
  · rw [hrecords, List.append_right_eq_self, Option.toList_eq_nil_iff]
  · intro again m'' hagain
    obtain ⟨w, -, hstore⟩ := Recovery.load_ok hagain
    rw [hstore, ← hrecords]
    rfl
  · intro hskip hcalm
    obtain ⟨m'', hopen, -⟩ := Writer.open?_calm (m := ⟨h.medium.bytes, outlook⟩) hcalm
    obtain ⟨again, hagain⟩ := Recovery.load_skip hskip now hopen
    exact ⟨again, m'', hagain⟩

/-- A change that could be written but not synced, and was cut off again. -/
theorem restored_of_run_cut_off :
    let s : Store := .ofShelf (.empty 1000) ⟨0, false⟩ .default
    let m : Medium := ⟨[], .clear⟩
    let events : List Event := [⟨.set "k" "v" none, 0, ⟨none, .first 1, .none⟩⟩, ⟨.close, 0, .clear⟩]
    let h := (History.start s m).run events
    Recovery.load .default 0 m = (.ok ⟨s, .zero⟩, m) ∧
      (History.start s m).stranded none events = none ∧ h.refused = [.set "k" "v" none] ∧
      Replay.records (items h.medium.bytes) =
        Replay.records (items (completePrefix m.bytes)) ++ h.accepted := by
  intro s m events h
  have hload : Recovery.load .default 0 m = (.ok ⟨s, .zero⟩, m) := Recovery.load_nil _ _ _
  have hstranded : (History.start s m).stranded none events = none := rfl
  obtain ⟨-, -, hiff, -⟩ := restored_of_run hload events
  exact ⟨hload, hstranded, rfl, hiff.mpr hstranded⟩

/-- A change that could be written but neither synced nor cut off again is refused, and closing
the store leaves it in the file: a replay restores it. -/
theorem refused_set_restored :
    let s : Store := .ofShelf (.empty 1000) ⟨0, false⟩ .default
    let m : Medium := ⟨[], .clear⟩
    let h := (History.start s m).run
      [⟨.set "k" "v" none, 0, ⟨none, .first 1, .first 1⟩⟩, ⟨.close, 0, .clear⟩]
    Recovery.load .default 0 m = (.ok ⟨s, .zero⟩, m) ∧ h.refused = [.set "k" "v" none] ∧
      Replay.records (items h.medium.bytes) = [.set "k" "v" none] ∧
      Replay.records (items h.medium.bytes) ≠
        Replay.records (items (completePrefix m.bytes)) ++ h.accepted := by
  intro s m h
  have hkeys : ∀ r ∈ [Record.set "k" "v" none], r.key ≠ "" := by decide
  have hitems : items h.medium.bytes = [.ok (.set "k" "v" none)] := items_encoding hkeys
  have hrecords : Replay.records (items h.medium.bytes) = [.set "k" "v" none] := by
    rw [hitems]
    rfl
  refine ⟨Recovery.load_nil _ _ _, rfl, hrecords, ?_⟩
  rw [hrecords]
  exact List.cons_ne_nil _ _

end Store

end Larder
