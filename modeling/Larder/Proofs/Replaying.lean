import Larder.Recovery
import Larder.Proofs.WriterFaults

/-! What a replay brings back. The shelf depends on the records only: each of them does to the
shelf what it says, in order, and lines that are no records only count. -/

namespace Larder

namespace Replay

/-- What a record that is replayed does to a shelf. -/
def restore (now : Millis) (shelf : Shelf) : Record → Shelf
  | .set key value deadline =>
    if deadline.hasPassed now then (shelf.remove key).2 else (shelf.put key value deadline).2
  | .delete key => (shelf.remove key).2

/-- The shelf after some more records. -/
def restoreAll (now : Millis) (shelf : Shelf) (rs : List Record) : Shelf :=
  rs.foldl (restore now) shelf

theorem restoreAll_cons (now : Millis) (shelf : Shelf) (r : Record) (rs : List Record) :
    restoreAll now shelf (r :: rs) = restoreAll now (restore now shelf r) rs := rfl

theorem restoreAll_append (now : Millis) (shelf : Shelf) (rs qs : List Record) :
    restoreAll now shelf (rs ++ qs) = restoreAll now (restoreAll now shelf rs) qs :=
  List.foldl_append

theorem shelf_apply (now : Millis) (s : State) (r : Record) :
    (apply now s r).shelf = restore now s.shelf r := by
  cases r with
  | set key value deadline =>
    rw [apply, restore]
    split <;> rfl
  | delete key => rfl

/-- The records among some items. -/
def records (items : List Journal.Item) : List Record := items.filterMap Except.toOption

@[simp]
theorem records_nil : records [] = [] := rfl

@[simp]
theorem records_ok (r : Record) (items : List Journal.Item) :
    records (.ok r :: items) = r :: records items := rfl

@[simp]
theorem records_error (f : Failure) (items : List Journal.Item) :
    records (.error f :: items) = records items := rfl

theorem records_append (as bs : List Journal.Item) :
    records (as ++ bs) = records as ++ records bs := List.filterMap_append

theorem records_map_ok (rs : List Record) : records (rs.map .ok) = rs := by
  induction rs with
  | nil => rfl
  | cons r rs ih => rw [List.map_cons, records_ok, ih]

/-- A replay that was not ended by a failure has restored all records. -/
theorem shelf_runItems {policy : Policy} {now : Millis} {s : State} {items : List Journal.Item}
    (h : (runItems policy now s items).1 = none) :
    (runItems policy now s items).2.shelf = restoreAll now s.shelf (records items) := by
  induction items generalizing s with
  | nil => rfl
  | cons i items ih =>
    cases i with
    | ok r =>
      rw [runItems] at h ⊢
      rw [ih h, shelf_apply, records_ok, restoreAll_cons]
    | error f =>
      rw [records_error]
      cases f with
      | corruptLine number reason =>
        cases policy with
        | strict => cases h
        | skip => exact ih h
      | _ => cases h

/-- How an item ends a replay, if it does. -/
def stop? (policy : Policy) : Journal.Item → Option Failure
  | .ok _ => none
  | .error (.corruptLine number reason) =>
    match policy with
    | .strict => some (.corruptLine number reason)
    | .skip => none
  | .error f => some f

/-- The first item that ends a replay is what it fails with, whenever and on whatever shelf it
runs. -/
theorem failure_runItems (policy : Policy) (now : Millis) (s : State)
    (items : List Journal.Item) :
    (runItems policy now s items).1 = items.findSome? (stop? policy) := by
  induction items generalizing s with
  | nil => rfl
  | cons i items ih =>
    cases i with
    | ok r => exact ih _
    | error f =>
      cases f with
      | corruptLine number reason =>
        cases policy with
        | strict => rfl
        | skip => exact ih _
      | _ => rfl

theorem runItems_eq_none_iff {policy : Policy} (now : Millis) (s : State)
    {items : List Journal.Item} :
    (runItems policy now s items).1 = none ↔ ∀ i ∈ items, stop? policy i = none := by
  rw [failure_runItems, List.findSome?_eq_none_iff]

/-- What a line of a journal gives: a record, or a report with the line's number. -/
def FromLine (i : Journal.Item) : Prop :=
  (∃ r, i = .ok r) ∨ ∃ number reason, i = .error (.corruptLine number reason)

theorem fromLine_item? {number : Nat} {line : Bytes} {i : Journal.Item}
    (h : Journal.item? number line = some i) : FromLine i := by
  rw [Journal.item?, Option.map_eq_some_iff] at h
  obtain ⟨held, -, rfl⟩ := h
  cases held with
  | ok r => exact .inl ⟨r, rfl⟩
  | error reason => exact .inr ⟨number, reason, rfl⟩

theorem fromLine_items {bs : Bytes} {i : Journal.Item} (h : i ∈ Journal.items bs) :
    FromLine i := by
  rw [Journal.items_eq, Journal.itemsFrom, List.mem_filterMap] at h
  obtain ⟨⟨line, n⟩, -, h⟩ := h
  exact fromLine_item? h

/-- Lines that are no records do not end a replay that leaves them out. -/
theorem stop?_skip {i : Journal.Item} (h : FromLine i) : stop? .skip i = none := by
  rcases h with ⟨r, rfl⟩ | ⟨number, reason, rfl⟩ <;> rfl

theorem runItems_of_run {policy : Policy} {now : Millis} {shelf shelf' : Shelf}
    {items : List Journal.Item} {tally : Tally}
    (h : run policy now shelf items = (.ok tally, shelf')) :
    runItems policy now (start shelf) items = (none, ⟨shelf', tally⟩) := by
  unfold run at h
  split at h
  · cases h
  · rename_i hrun
    cases h
    exact hrun

theorem run_ok {policy : Policy} {now : Millis} {shelf shelf' : Shelf}
    {items : List Journal.Item} {tally : Tally}
    (h : run policy now shelf items = (.ok tally, shelf')) :
    shelf' = restoreAll now shelf (records items) := by
  have hitems := runItems_of_run h
  have hshelf := shelf_runItems (congrArg Prod.fst hitems)
  rwa [hitems] at hshelf

theorem run_of_items {policy : Policy} {items : List Journal.Item}
    (h : ∀ i ∈ items, stop? policy i = none) (now : Millis) (shelf : Shelf) :
    ∃ tally, run policy now shelf items = (.ok tally, restoreAll now shelf (records items)) := by
  have hnone : (runItems policy now (start shelf) items).1 = none :=
    (runItems_eq_none_iff now _).mpr h
  have hshelf := shelf_runItems hnone
  unfold run
  generalize runItems policy now (start shelf) items = o at *
  obtain ⟨f, s⟩ := o
  cases hnone
  exact ⟨s.tally, congrArg (Prod.mk _) hshelf⟩

/-- Records alone are replayed under every policy. -/
theorem run_map_ok (policy : Policy) (now : Millis) (shelf : Shelf) (rs : List Record) :
    ∃ tally, run policy now shelf (rs.map .ok) = (.ok tally, restoreAll now shelf rs) := by
  have h : ∀ i ∈ rs.map Except.ok, stop? policy i = none := by
    intro i hi
    obtain ⟨r, -, rfl⟩ := List.mem_map.mp hi
    rfl
  obtain ⟨tally, hrun⟩ := run_of_items h now shelf
  rw [records_map_ok] at hrun
  exact ⟨tally, hrun⟩

end Replay

namespace Recovery

open Replay

theorem load_ok {settings : Settings} {now : Millis} {m m' : Medium} {recovered : Recovered}
    (h : load settings now m = (.ok recovered, m')) :
    ∃ w, Journal.Writer.open? m = (.ok w, m') ∧
      recovered.store = .ofShelf
        (restoreAll now (.empty settings.maxEntries) (records (Journal.items m.bytes))) w
        settings := by
  unfold load at h
  split at h
  · cases h
  · rename_i tally shelf hreplay
    split at h
    · cases h
    · rename_i w m'' hopen
      cases h
      rw [← run_ok hreplay]
      exact ⟨w, hopen, rfl⟩

/-- A store comes back from every journal that can be opened, if no line ends the replay. -/
theorem load_of_items {settings : Settings} {m m' : Medium} {w : Journal.Writer}
    (hitems : ∀ i ∈ Journal.items m.bytes, stop? settings.policy i = none)
    (hopen : Journal.Writer.open? m = (.ok w, m')) (now : Millis) :
    ∃ recovered, load settings now m = (.ok recovered, m') := by
  obtain ⟨tally, hrun⟩ := run_of_items hitems now (.empty settings.maxEntries)
  rw [load, replay, hrun]
  simp only [hopen]
  exact ⟨_, rfl⟩

/-- With lines left out that are no records, a store comes back from every journal that can be
opened. -/
theorem load_skip {settings : Settings} (hskip : settings.policy = .skip) (now : Millis)
    {m m' : Medium} {w : Journal.Writer} (hopen : Journal.Writer.open? m = (.ok w, m')) :
    ∃ recovered, load settings now m = (.ok recovered, m') :=
  load_of_items (fun i hi => by rw [hskip]; exact stop?_skip (fromLine_items hi)) hopen now

/-- Where nothing fails, a store comes back from every file. -/
theorem load_calm (settings : Settings) (hskip : settings.policy = .skip) {outlook : Outlook}
    (hcalm : outlook.Calm) (now : Millis) (bytes : Bytes) :
    ∃ recovered m', load settings now ⟨bytes, outlook⟩ = (.ok recovered, m') := by
  obtain ⟨m', hopen, -⟩ := Journal.Writer.open?_calm (m := ⟨bytes, outlook⟩) hcalm
  obtain ⟨recovered, hload⟩ := load_skip hskip now hopen
  exact ⟨recovered, m', hload⟩

/-- What was replayed to its end holds nothing that ends a replay. -/
theorem stop?_of_replay {settings : Settings} {now : Millis} {items : List Journal.Item}
    {tally : Tally} {shelf : Shelf} (h : replay settings now items = (.ok tally, shelf)) :
    ∀ i ∈ items, stop? settings.policy i = none := by
  rw [← runItems_eq_none_iff now (start (.empty settings.maxEntries)), runItems_of_run h]

/-- A journal that a store came back from has no line that ends a replay. -/
theorem stop?_of_load {settings : Settings} {now : Millis} {m m' : Medium} {recovered : Recovered}
    (h : load settings now m = (.ok recovered, m')) :
    ∀ i ∈ Journal.items m.bytes, stop? settings.policy i = none := by
  unfold load at h
  split at h
  · cases h
  · rename_i tally shelf hreplay
    exact stop?_of_replay hreplay

/-- An empty journal gives an empty store. -/
theorem load_nil (settings : Settings) (now : Millis) (outlook : Outlook) :
    load settings now ⟨[], outlook⟩ =
      (.ok ⟨.ofShelf (.empty settings.maxEntries) ⟨0, false⟩ settings, .zero⟩, ⟨[], outlook⟩) := by
  have hopen : Journal.Writer.open? ⟨[], outlook⟩ = (.ok ⟨0, false⟩, ⟨[], outlook⟩) := by
    rw [Journal.Writer.open?, Journal.completeLength_eq]
    rfl
  have hreplay : replay settings now (Journal.items []) = (.ok .zero, .empty settings.maxEntries) :=
    rfl
  rw [load, hreplay]
  simp only [hopen]

end Recovery

end Larder
