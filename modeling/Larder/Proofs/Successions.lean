import Larder.Proofs.StoreShelves

/-! Stores that follow one another on one journal. Each is loaded from the file the last one left,
serves for a while and ends, closed or not. As long as no cut fails, the file always holds its
complete prefix from before the first store and then the records of the changes that were granted
since, so what a store brings back when it is loaded are those records and no others. -/

namespace Larder

/-- No cut that lies ahead fails. -/
def Outlook.CutsHold (o : Outlook) : Prop := ∀ k, o.cuts.fails k = false

theorem Outlook.Calm.cutsHold {o : Outlook} (h : o.Calm) : o.CutsHold := h.cuts

theorem Outlook.CutsHold.cutAndSync {m : Medium} (h : m.outlook.CutsHold) (n : Nat) :
    (m.cutAndSync n).2.outlook.CutsHold := by
  unfold Medium.cutAndSync Medium.cut
  split <;> (rename_i hcut; split at hcut <;> cases hcut) <;> exact h

namespace Journal

/-- Lines behind a complete prefix are read after it, whatever numbers they have. -/
theorem items_append_encoding {base : Bytes} (hbase : Complete base) {rs : List Record}
    (hkeys : ∀ r ∈ rs, r.key ≠ "") :
    items (base ++ encoding rs) = items base ++ rs.map .ok := by
  rw [items_append hbase, segments_encoding, itemsFrom_bytes _ hkeys]

theorem records_append_encoding {base : Bytes} (hbase : Complete base) {rs : List Record}
    (hkeys : ∀ r ∈ rs, r.key ≠ "") :
    Replay.records (items (base ++ encoding rs)) = Replay.records (items base) ++ rs := by
  rw [items_append_encoding hbase hkeys, Replay.records_append, Replay.records_map_ok]

/-- What a journal holds behind its complete prefix is no record. -/
theorem items_completePrefix (bs : Bytes) :
    ∃ rest, items bs = items (completePrefix bs) ++ rest ∧ Replay.records rest = [] := by
  obtain ⟨t, ht, hbs⟩ := exists_completePrefix_append bs
  conv => enter [1, rest, 1, 1]; rw [hbs]
  rcases items_append_unended (complete_completePrefix bs) ht with ⟨-, h⟩ | ⟨-, number, e, h⟩
  · exact ⟨[], h.trans (List.append_nil _).symm, rfl⟩
  · exact ⟨_, h, rfl⟩

theorem records_completePrefix (bs : Bytes) :
    Replay.records (items (completePrefix bs)) = Replay.records (items bs) := by
  obtain ⟨rest, hitems, hrest⟩ := items_completePrefix bs
  rw [hitems, Replay.records_append, hrest, List.append_nil]

namespace Writer

theorem leftOfLine_of_cutsHold {m : Medium} (h : m.outlook.CutsHold) (line : Bytes) :
    leftOfLine m line = [] := by
  have hcut : m.outlook.cuts.strikes = false := h _
  rw [leftOfLine, hcut, if_neg Bool.false_ne_true]

/-- Where nothing is left and every cut holds, an append that fails leaves nothing either. -/
theorem leftOfAppend_of_cutsHold (w : Writer) {m : Medium} (h : m.outlook.CutsHold) (r : Record) :
    leftOfAppend w m r [] = [] := by
  unfold leftOfAppend
  split
  · split
    · rfl
    · split
      · rfl
      · exact leftOfLine_of_cutsHold (h.cutAndSync _) _
  · exact leftOfLine_of_cutsHold h _

/-- Opening a journal takes nothing from its complete prefix, however it ends. -/
theorem completePrefix_open? (m : Medium) :
    completePrefix (open? m).2.bytes = completePrefix m.bytes := by
  have hfront := completePrefix_isPrefix m.bytes
  have hcut : completePrefix (m.cutAndSync (completePrefix m.bytes).length).2.bytes =
      completePrefix m.bytes := by
    cases hstrikes : m.outlook.cuts.strikes with
    | true => rw [(Medium.cutAndSync_of_strikes hstrikes _).2]
    | false =>
      rw [(Medium.cutAndSync_of_clear hstrikes hfront.length_le).2, take_completePrefix,
        completePrefix_of_complete (complete_completePrefix _)]
  rw [open?, completeLength_eq]
  split
  · split <;> (rename_i h; rw [h] at hcut; exact hcut)
  · rfl

end Writer

end Journal

open Journal

/-- Loading a journal takes nothing from its complete prefix, however it ends. -/
theorem Recovery.completePrefix_load (settings : Settings) (now : Millis) (m : Medium) :
    completePrefix (load settings now m).2.bytes = completePrefix m.bytes := by
  have hopen := Writer.completePrefix_open? m
  unfold load
  split
  · rfl
  · split <;> (rename_i h; rw [h] at hopen; exact hopen)

/-- What a store that was loaded has on its shelf. -/
theorem Recovery.follows_of_load {settings : Settings} {now : Millis} {m m' : Medium}
    {recovered : Recovered} (h : load settings now m = (.ok recovered, m')) :
    Shelf.Follows settings.maxEntries recovered.store.shelf
      (Shelf.Ranking.restoreAll settings.maxEntries now (Replay.records (items m.bytes))) := by
  obtain ⟨w, -, hstore⟩ := load_ok h
  rw [hstore]
  exact .restoreAll _ _ _

namespace Store

namespace History

theorem medium_step (h : History) (e : Event) :
    (h.step e).medium = (h.store.perform (h.found e) e.now e.call).medium := by
  unfold step
  dsimp only
  split <;> rfl

/-- The file holds what counted at the start and the records that were accepted since, and the
writer knows where they end. -/
structure Whole (base : Bytes) (h : History) : Prop where
  keys : ∀ r ∈ h.accepted, r.key ≠ ""
  bytes : h.medium.bytes = base ++ encoding h.accepted
  writer : ∀ w, h.store.writer = some w → w.committed = (base ++ encoding h.accepted).length

namespace Whole

variable {base : Bytes} {h : History}

theorem stands (hw : h.Whole base) {w : Writer} (hwriter : h.store.writer = some w) :
    w.Stands h.medium (base ++ encoding h.accepted) [] :=
  ⟨hw.bytes.trans (List.append_nil _).symm, hw.writer w hwriter, fun _ => rfl⟩

theorem unwritten (hw : h.Whole base) {e : Event} (hnone : h.granted? e = none)
    (hbytes : (h.store.perform (h.found e) e.now e.call).medium.bytes = h.medium.bytes)
    (hwriter : ∀ w, (h.store.perform (h.found e) e.now e.call).store.writer = some w →
      w.committed = (base ++ encoding h.accepted).length) : (h.step e).Whole base := by
  have haccepted : (h.step e).accepted = h.accepted := by
    rw [accepted_step, hnone]
    exact List.append_nil _
  refine ⟨haccepted ▸ hw.keys, ?_, fun w hstore => ?_⟩
  · rw [medium_step, hbytes, haccepted]
    exact hw.bytes
  · rw [store_step] at hstore
    rw [haccepted]
    exact hwriter w hstore

theorem written (hw : h.Whole base) {e : Event} {r : Record} (hsome : h.granted? e = some r)
    (hkey : r.key ≠ "") {w : Writer}
    (hwriter : (h.store.perform (h.found e) e.now e.call).store.writer = some w)
    (hstands : w.Stands (h.store.perform (h.found e) e.now e.call).medium
      (base ++ encoding h.accepted ++ r.bytes) []) : (h.step e).Whole base := by
  have haccepted : (h.step e).accepted = h.accepted ++ [r] := by
    rw [accepted_step, hsome]
    rfl
  have hfile : base ++ encoding (h.accepted ++ [r]) = base ++ encoding h.accepted ++ r.bytes := by
    rw [encoding_append, encoding_cons, encoding_nil, List.append_nil, List.append_assoc]
  refine ⟨fun q hq => ?_, ?_, fun w' hstore => ?_⟩
  · rw [haccepted] at hq
    rcases List.mem_append.mp hq with hq | hq
    · exact hw.keys q hq
    · rw [List.mem_singleton.mp hq]
      exact hkey
  · rw [medium_step, haccepted, hfile, hstands.bytes, List.append_nil]
  · rw [store_step, hwriter] at hstore
    cases hstore
    rw [haccepted, hfile]
    exact hstands.committed

/-- As long as cuts hold, a change that is refused leaves no trace. -/
theorem step (hw : h.Whole base) {e : Event} (hcuts : e.outlook.CutsHold) :
    (h.step e).Whole base := by
  cases hr : e.call.record? h.store e.now with
  | none =>
    obtain ⟨hbytes, hwriter⟩ := perform_of_no_record (m := h.found e) hr
    refine hw.unwritten (by rw [granted?, hr, ite_self]) hbytes fun w hstore => ?_
    rcases hwriter with hsame | hnone
    · exact hw.writer w (hsame.symm.trans hstore)
    · rw [hnone] at hstore
      cases hstore
  | some r =>
    cases hwriter : h.store.writer with
    | none =>
      obtain ⟨hm, hnone, hgranted⟩ := perform_of_closed (m := h.found e) hwriter e.now e.call
      refine hw.unwritten ?_ (by rw [hm]; rfl) fun w hstore => ?_
      · rw [granted?, hgranted (by rw [hr]; rfl)]
        rfl
      · rw [hnone] at hstore
        cases hstore
    | some w =>
      obtain ⟨hm, hsome, hgranted⟩ := perform_of_record? (m := h.found e) hwriter hr
      rcases Writer.append_spec ((hw.stands hwriter).setOutlook e.outlook) r with
        ⟨hok, -, hstands⟩ | ⟨error, herror, hstands⟩
      · refine hw.written ?_ (Call.key_ne_of_record? hr) hsome (hm ▸ hstands)
        rw [granted?, hgranted.trans (congrArg Except.isOk hok), hr]
        rfl
      · rw [Writer.leftOfAppend_of_cutsHold w hcuts r] at hstands
        refine hw.unwritten ?_ ?_ fun w' hstore => ?_
        · rw [granted?, hgranted.trans (congrArg Except.isOk herror)]
          rfl
        · rw [hm, show (w.append r (h.found e)).medium.bytes = _ from hstands.bytes, hw.bytes,
            List.append_nil]
        · rw [hsome] at hstore
          cases hstore
          exact hstands.committed

theorem run (hw : h.Whole base) {events : List Event}
    (hcuts : ∀ e ∈ events, e.outlook.CutsHold) : (h.run events).Whole base := by
  induction events generalizing h with
  | nil => exact hw
  | cons e events ih =>
    exact ih (hw.step (hcuts e List.mem_cons_self)) fun e' he' =>
      hcuts e' (List.mem_cons_of_mem e he')

theorem start {settings : Settings} {now : Millis} {m m' : Medium} {recovered : Recovered}
    (hload : Recovery.load settings now m = (.ok recovered, m')) :
    (start recovered.store m').Whole (completePrefix m.bytes) := by
  obtain ⟨w, hopen, hstore⟩ := Recovery.load_ok hload
  obtain ⟨-, hstands⟩ := Writer.stands_of_open? hopen
  refine ⟨fun r hr => (List.not_mem_nil hr).elim, hstands.bytes, fun w' hw' => ?_⟩
  have hsame : w = w' := Option.some.inj (by rw [← hw', History.start, hstore]; rfl)
  rw [← hsame, hstands.committed]
  exact congrArg List.length (List.append_nil _).symm

end Whole

variable {settings : Settings} {now : Millis} {m m' : Medium} {recovered : Recovered}
  {events : List Event}

/-- What a journal holds after a run. -/
theorem items_of_run (hload : Recovery.load settings now m = (.ok recovered, m'))
    (hcuts : ∀ e ∈ events, e.outlook.CutsHold) :
    let h := (start recovered.store m').run events
    items h.medium.bytes = items (completePrefix m.bytes) ++ h.accepted.map .ok := by
  intro h
  have hw := (Whole.start hload).run hcuts
  rw [hw.bytes]
  exact items_append_encoding (complete_completePrefix _) hw.keys

theorem records_of_run (hload : Recovery.load settings now m = (.ok recovered, m'))
    (hcuts : ∀ e ∈ events, e.outlook.CutsHold) :
    let h := (start recovered.store m').run events
    Replay.records (items h.medium.bytes) = Replay.records (items m.bytes) ++ h.accepted := by
  intro h
  rw [show items h.medium.bytes = _ from items_of_run hload hcuts, Replay.records_append,
    Replay.records_map_ok, records_completePrefix]

/-- A journal that could be loaded can be loaded again after a run, under the same policy. -/
theorem load_again (hload : Recovery.load settings now m = (.ok recovered, m'))
    (hcuts : ∀ e ∈ events, e.outlook.CutsHold) {outlook : Outlook} (hcalm : outlook.Calm)
    (later : Millis) :
    let h := (start recovered.store m').run events
    ∃ again m'', Recovery.load settings later ⟨h.medium.bytes, outlook⟩ = (.ok again, m'') := by
  intro h
  have hitems : ∀ i ∈ items h.medium.bytes, Replay.stop? settings.policy i = none := by
    intro i hi
    rw [show items h.medium.bytes = _ from items_of_run hload hcuts] at hi
    rcases List.mem_append.mp hi with hi | hi
    · obtain ⟨rest, hsplit, -⟩ := items_completePrefix m.bytes
      refine Recovery.stop?_of_load hload i ?_
      rw [hsplit]
      exact List.mem_append_left _ hi
    · obtain ⟨r, -, rfl⟩ := List.mem_map.mp hi
      rfl
  obtain ⟨m'', hopen, -⟩ := Writer.open?_calm (m := ⟨h.medium.bytes, outlook⟩) hcalm
  obtain ⟨again, hagain⟩ :=
    Recovery.load_of_items (m := ⟨h.medium.bytes, outlook⟩) hitems hopen later
  exact ⟨again, m'', hagain⟩

/-- What every call preserves of the records in the journal, the keys that have been found since
and the ranking, and what holds of them when a store is loaded, holds after a run. -/
theorem run_of_load (holds : List Record → List String → Shelf.Ranking → Prop)
    (hload : Recovery.load settings now m = (.ok recovered, m'))
    (hcuts : ∀ e ∈ events, e.outlook.CutsHold)
    (hstart : holds (Replay.records (items m.bytes)) []
      (.restoreAll settings.maxEntries now (Replay.records (items m.bytes))))
    (hstep : ∀ e ∈ events, ∀ {log keys l written found l'}, l.Distinct →
      l.Serves settings.maxEntries e.now written found l' →
      (∀ key, found = some key → e.call = .get key) →
      holds log keys l → holds (log ++ written.toList) (reread keys written found) l') :
    let h := (start recovered.store m').run events
    ∃ l, Shelf.Follows settings.maxEntries h.store.shelf l ∧
      holds (Replay.records (items h.medium.bytes))
        ((start recovered.store m').keysRead [] events) l := by
  intro h
  rw [show Replay.records (items h.medium.bytes) = _ from records_of_run hload hcuts]
  exact run_invariant holds hstep (Recovery.follows_of_load hload)
    (by rw [start, List.append_nil]; exact hstart)

end History

/-- A store from the moment it is loaded: its settings, when that is, what lies ahead for the disk
then, and what it is asked for. -/
structure Life where
  settings : Settings
  now : Millis
  outlook : Outlook
  events : List Event

namespace Life

/-- Nothing fails. -/
structure Calm (x : Life) : Prop where
  load : x.outlook.Calm
  events : ∀ e ∈ x.events, e.outlook.Calm

/-- No cut fails while the store serves. One that fails when it is loaded leaves no store. -/
def CutsHold (x : Life) : Prop := ∀ e ∈ x.events, e.outlook.CutsHold

theorem Calm.of_clear {x : Life} (hload : x.outlook = .clear)
    (hevents : ∀ e ∈ x.events, e.outlook = .clear) : x.Calm :=
  ⟨hload ▸ Outlook.calm_clear, fun e he => hevents e he ▸ Outlook.calm_clear⟩

end Life

/-- A journal's file, the records of all changes that were granted, and the store that was loaded
last; none if it could not be loaded. -/
structure Succession where
  bytes : Bytes
  accepted : List Record
  store : Option Store

namespace Succession

def of (file : Bytes) : Succession := ⟨file, [], none⟩

/-- One more store is loaded and serves. It sees of those before it only the file. -/
def live (c : Succession) (x : Life) : Succession :=
  match Recovery.load x.settings x.now ⟨c.bytes, x.outlook⟩ with
  | (.error _, m) => ⟨m.bytes, c.accepted, none⟩
  | (.ok recovered, m) =>
    let h := (History.start recovered.store m).run x.events
    ⟨h.medium.bytes, c.accepted ++ h.accepted, some h.store⟩

def run (c : Succession) (lives : List Life) : Succession := lives.foldl live c

/-- What the file holds that counts. -/
structure Upholds (base : Bytes) (c : Succession) : Prop where
  keys : ∀ r ∈ c.accepted, r.key ≠ ""
  bytes : completePrefix c.bytes = base ++ encoding c.accepted

variable {base : Bytes} {c : Succession}

theorem upholds_of (file : Bytes) : (of file).Upholds (completePrefix file) :=
  ⟨fun _ hr => (List.not_mem_nil hr).elim, (List.append_nil _).symm⟩

theorem Upholds.live (hc : c.Upholds base) {x : Life} (hcuts : x.CutsHold) :
    (c.live x).Upholds base := by
  have hfront := Recovery.completePrefix_load x.settings x.now ⟨c.bytes, x.outlook⟩
  unfold Succession.live
  split
  · rename_i hload
    rw [hload] at hfront
    exact ⟨hc.keys, hfront.trans hc.bytes⟩
  · rename_i recovered m hload
    have hw := (History.Whole.start hload).run hcuts
    refine ⟨fun r hr => (List.mem_append.mp hr).elim (hc.keys r) (hw.keys r), ?_⟩
    dsimp only at hw ⊢
    rw [hw.bytes, encoding_append, ← List.append_assoc, ← hc.bytes]
    exact completePrefix_of_complete ((complete_completePrefix _).append (complete_encoding _))

theorem Upholds.run (hc : c.Upholds base) {lives : List Life} (hcuts : ∀ x ∈ lives, x.CutsHold) :
    (c.run lives).Upholds base := by
  induction lives generalizing c with
  | nil => exact hc
  | cons x lives ih =>
    exact ih (hc.live (hcuts x List.mem_cons_self)) fun y hy => hcuts y (List.mem_cons_of_mem x hy)

/-- The records in the file are those that counted at the first and those that were accepted. -/
theorem Upholds.records {file : Bytes} (hc : c.Upholds (completePrefix file)) :
    Replay.records (items c.bytes) =
      Replay.records (items (completePrefix file)) ++ c.accepted := by
  rw [← records_completePrefix c.bytes, hc.bytes]
  exact records_append_encoding (complete_completePrefix file) hc.keys

/-- The store that was loaded last, if one was, and the file as it found it. -/
theorem live_of_load {x : Life} {recovered : Recovered} {m : Medium}
    (hload : Recovery.load x.settings x.now ⟨c.bytes, x.outlook⟩ = (.ok recovered, m)) :
    let h := (History.start recovered.store m).run x.events
    c.live x = ⟨h.medium.bytes, c.accepted ++ h.accepted, some h.store⟩ := by
  simp only [live, hload]

end Succession

end Store

end Larder
