import Larder.Proofs.ShelfRequests
import Larder.Proofs.LastRecords

/-! Two replays of one journal beside each other. With more room, more comes back, and behind what
comes back with less; and what a shelf held before a replay makes no difference to it, if there is
a record about each of its keys. -/

namespace Larder

namespace Shelf

/-- What a shelf has, the other has in front of all else. -/
structure Leads (s s' : Shelf) : Prop where
  order : s.keysByRecency <+: s'.keysByRecency
  entries : ∀ key ∈ s.keysByRecency, ∃ entry, s.find? key = some entry ∧ s'.find? key = some entry

/-- Two shelves have the same entries in the same order. -/
structure Alike (s s' : Shelf) : Prop where
  order : s.keysByRecency = s'.keysByRecency
  entries : ∀ key, s.find? key = s'.find? key

variable {s s' : Shelf} {few many capacity : Nat} {small large l : Ranking} {now : Millis}

theorem Follows.leads (h : Follows few s small) (h' : Follows many s' large)
    (hfront : small <+: large) : s.Leads s' where
  order := by
    rw [h.keysByRecency_eq, h'.keysByRecency_eq]
    exact hfront.map Prod.fst
  entries key hkey := by
    rw [h.keysByRecency_eq] at hkey
    obtain ⟨⟨_, entry⟩, hp, rfl⟩ := List.mem_map.mp hkey
    rw [h.find?_eq, h'.find?_eq]
    exact ⟨entry, h.distinct.lookup_eq_some_iff.mpr hp,
      h'.distinct.lookup_eq_some_iff.mpr (hfront.subset hp)⟩

theorem Follows.alike (h : Follows few s l) (h' : Follows many s' l) : s.Alike s' where
  order := h.keysByRecency_eq.trans h'.keysByRecency_eq.symm
  entries key := (h.find?_eq key).trans (h'.find?_eq key).symm

namespace Ranking

variable {rest : Ranking} {rs : List Record}

/-- What there is less room for is in front of what there is more room for, after a record as
before it. -/
theorem isPrefix_restore (h : small <+: large) (hle : few ≤ many) (r : Record) :
    small.restore few now r <+: large.restore many now r := by
  have hwithout : small.without r.key <+: large.without r.key := h.filter _
  unfold restore
  split
  · exact hwithout
  · cases r with
    | delete key => exact hwithout
    | set key value deadline =>
      have hput : (key, (⟨value, deadline⟩ : Entry)) :: small.without key <+:
        (key, ⟨value, deadline⟩) :: large.without key := List.cons_prefix_cons.mpr ⟨rfl, hwithout⟩
      have hfew := List.take_prefix few ((key, (⟨value, deadline⟩ : Entry)) :: small.without key)
      refine List.prefix_take_iff.mpr ⟨hfew.trans hput, ?_⟩
      exact Nat.le_trans (List.length_take_le few _) hle

theorem isPrefix_restoreAll (hle : few ≤ many) (now : Millis) (rs : List Record) :
    restoreAll few now rs <+: restoreAll many now rs := by
  induction rs using List.reverseRecOn with
  | nil => exact List.prefix_rfl
  | append_singleton rs r ih =>
    rw [restoreAll_concat, restoreAll_concat]
    exact isPrefix_restore ih hle r

/-- A record does to what is in front what it would do if there were nothing behind it. What is
behind gives way, and loses the record's key. -/
theorem restore_append (capacity : Nat) (now : Millis) (l rest : Ranking) (r : Record) :
    ∃ left, (l ++ rest).restore capacity now r = l.restore capacity now r ++ left ∧
      ∀ p ∈ left, p ∈ rest ∧ p.1 ≠ r.key := by
  have hwithout : (l ++ rest).without r.key = l.without r.key ++ rest.without r.key :=
    List.filter_append l rest
  unfold restore
  split
  · exact ⟨rest.without r.key, hwithout, fun p hp => mem_without.mp hp⟩
  · cases r with
    | delete key => exact ⟨rest.without key, hwithout, fun p hp => mem_without.mp hp⟩
    | set key value deadline =>
      refine ⟨(rest.without key).take
        (capacity - ((key, (⟨value, deadline⟩ : Entry)) :: l.without key).length), ?_,
        fun p hp => mem_without.mp (List.mem_of_mem_take hp)⟩
      rw [Ranking.change, Ranking.change, put_eq, put_eq, ← List.take_append, List.cons_append]
      exact congrArg (fun t => List.take capacity ((key, ⟨value, deadline⟩) :: t)) hwithout

/-- What is left of a ranking onto which records are replayed stands behind what they bring back,
and there is no record about it. -/
theorem restoreOnto_eq_append (capacity : Nat) (now : Millis) (l : Ranking) (rs : List Record) :
    ∃ left, restoreOnto capacity now l rs = restoreAll capacity now rs ++ left ∧
      ∀ p ∈ left, p ∈ l ∧ ∀ r ∈ rs, p.1 ≠ r.key := by
  induction rs using List.reverseRecOn with
  | nil => exact ⟨l, rfl, fun p hp => ⟨hp, fun r hr => (List.not_mem_nil hr).elim⟩⟩
  | append_singleton rs r ih =>
    obtain ⟨before, heq, hbefore⟩ := ih
    obtain ⟨left, hnext, hleft⟩ := restore_append capacity now (restoreAll capacity now rs) before r
    refine ⟨left, ?_, fun p hp => ?_⟩
    · rw [restoreOnto_concat, restoreAll_concat, heq, hnext]
    · obtain ⟨hp, hkey⟩ := hleft p hp
      obtain ⟨hmem, hothers⟩ := hbefore p hp
      refine ⟨hmem, fun q hq => ?_⟩
      rcases List.mem_append.mp hq with hq | hq
      · exact hothers q hq
      · rwa [List.mem_singleton.mp hq]

/-- Nothing is left where there is a record about every key. -/
theorem restoreOnto_eq_restoreAll (h : ∀ p ∈ l, ∃ r ∈ rs, r.key = p.1) (capacity : Nat)
    (now : Millis) : restoreOnto capacity now l rs = restoreAll capacity now rs := by
  obtain ⟨left, heq, hleft⟩ := restoreOnto_eq_append capacity now l rs
  have hnil : left = [] := List.eq_nil_iff_forall_not_mem.mpr fun p hp => by
    obtain ⟨hmem, hnone⟩ := hleft p hp
    obtain ⟨r, hr, hkey⟩ := h p hmem
    exact hnone r hr hkey.symm
  rw [heq, hnil, List.append_nil]

/-- There is a record about every key that a replay brings back. -/
theorem exists_record_of_mem_restoreAll {p : String × Entry} (h : p ∈ restoreAll capacity now rs) :
    ∃ r ∈ rs, r.key = p.1 :=
  ⟨_, Record.mem_of_lastAbout? (recalls_restoreAll capacity now rs p h), rfl⟩

end Ranking

end Shelf

namespace Replay

open Journal
open Larder.Shelf (Follows Ranking Request)

/-- A replay that leaves out lines that are no records goes through. -/
theorem run_skip (now : Millis) (shelf : Shelf) (bytes : Bytes) :
    ∃ tally, run .skip now shelf (items bytes) =
      (.ok tally, restoreAll now shelf (records (items bytes))) :=
  run_of_items (fun _ hi => stop?_skip (fromLine_items hi)) now shelf

/-- With more room a replay brings back the same in front and perhaps more behind, and so does a
restart. -/
theorem leads_of_more_room {few many : Nat} (hle : few ≤ many) (now : Millis) (m : Medium) :
    (∃ tally s tally' s',
      run .skip now (.empty few) (items m.bytes) = (.ok tally, s) ∧
        run .skip now (.empty many) (items m.bytes) = (.ok tally', s') ∧ s.Leads s') ∧
      ∀ settings : Settings, settings.policy = .skip → ∀ recovered m',
        Recovery.load { settings with maxEntries := few } now m = (.ok recovered, m') →
        ∃ again, Recovery.load { settings with maxEntries := many } now m = (.ok again, m') ∧
          recovered.store.shelf.Leads again.store.shelf := by
  have hleads := (Follows.restoreAll few now (records (items m.bytes))).leads
    (Follows.restoreAll many now (records (items m.bytes))) (Ranking.isPrefix_restoreAll hle now _)
  refine ⟨?_, fun settings hskip recovered m' hload => ?_⟩
  · obtain ⟨tally, hrun⟩ := run_skip now (.empty few) m.bytes
    obtain ⟨tally', hrun'⟩ := run_skip now (.empty many) m.bytes
    exact ⟨tally, _, tally', _, hrun, hrun', hleads⟩
  · obtain ⟨w, hopen, hstore⟩ := Recovery.load_ok hload
    let roomy : Settings := { settings with maxEntries := many }
    have hroomy : roomy.policy = .skip := hskip
    obtain ⟨again, hagain⟩ := Recovery.load_skip hroomy now hopen
    obtain ⟨w', -, hstore'⟩ := Recovery.load_ok hagain
    refine ⟨again, hagain, ?_⟩
    rw [hstore, hstore']
    exact hleads

/-- There is room for the last of two entries, or for both. -/
theorem leads_of_more_room_last :
    let settings := Settings.default
    let m : Medium := ⟨encoding [.set "a" "1" none, .set "b" "2" none], .clear⟩
    (1 ≤ 2 ∧ ∃ tally s tally' s',
      run .skip 5 (.empty 1) (items m.bytes) = (.ok tally, s) ∧
        run .skip 5 (.empty 2) (items m.bytes) = (.ok tally', s') ∧ s.Leads s' ∧
        s.keysByRecency = ["b"] ∧ s'.keysByRecency = ["b", "a"]) ∧
      ∃ recovered again m', Recovery.load { settings with maxEntries := 1 } 5 m = (.ok recovered, m') ∧
        Recovery.load { settings with maxEntries := 2 } 5 m = (.ok again, m') ∧
        recovered.store.shelf.Leads again.store.shelf := by
  intro settings m
  have hlog : records (items m.bytes) = [.set "a" "1" none, .set "b" "2" none] := by
    rw [items_encoding (by decide), records_map_ok]
  obtain ⟨⟨tally, s, tally', s', hrun, hrun', hleads⟩, hload⟩ :=
    leads_of_more_room (by decide : 1 ≤ 2) 5 m
  obtain ⟨recovered, m', hfirst⟩ := Recovery.load_calm { settings with maxEntries := 1 } rfl
    Outlook.calm_clear 5 m.bytes
  obtain ⟨again, hagain, hrestart⟩ := hload settings rfl recovered m' hfirst
  refine ⟨⟨by decide, tally, s, tally', s', hrun, hrun', hleads, ?_, ?_⟩, recovered, again, m',
    hfirst, hagain, hrestart⟩
  · rw [run_ok hrun, hlog, (Follows.restoreAll 1 5 _).keysByRecency_eq]
    rfl
  · rw [run_ok hrun', hlog, (Follows.restoreAll 2 5 _).keysByRecency_eq]
    rfl

/-- What a shelf holds makes no difference to a replay with a record about each of its keys: the
entries afterwards and their order are those of a replay onto an empty shelf; and they stay the
same in another replay. -/
theorem alike_of_records {capacity : Nat} {requests : List Request} {bytes : Bytes}
    (hkeys : ∀ key ∈ ((Shelf.empty capacity).after requests).keysByRecency,
      ∃ r ∈ records (items bytes), r.key = key) (now : Millis) :
    ∃ tally s tally' s' tally'' s'',
      run .skip now ((Shelf.empty capacity).after requests) (items bytes) = (.ok tally, s) ∧
        run .skip now (.empty capacity) (items bytes) = (.ok tally', s') ∧
        run .skip now s (items bytes) = (.ok tally'', s'') ∧ s.Alike s' ∧ s''.Alike s := by
  obtain ⟨l, hl⟩ := (Follows.empty capacity).after requests
  obtain ⟨tally, hrun⟩ := run_skip now ((Shelf.empty capacity).after requests) bytes
  obtain ⟨tally', hrun'⟩ := run_skip now (.empty capacity) bytes
  obtain ⟨tally'', hrun''⟩ := run_skip now
    (restoreAll now ((Shelf.empty capacity).after requests) (records (items bytes))) bytes
  generalize records (items bytes) = rs at *
  have hfresh := Follows.restoreAll capacity now rs
  have hbegun : Follows capacity (restoreAll now ((Shelf.empty capacity).after requests) rs)
      (.restoreAll capacity now rs) := by
    rw [← Ranking.restoreOnto_eq_restoreAll (l := l) fun p hp => hkeys p.1 ?_]
    · exact hl.restoreOnto now rs
    · rw [hl.keysByRecency_eq]
      exact List.mem_map_of_mem hp
  have hagain := hbegun.restoreOnto now rs
  rw [Ranking.restoreOnto_eq_restoreAll fun p hp => Ranking.exists_record_of_mem_restoreAll hp]
    at hagain
  exact ⟨tally, _, tally', _, tally'', _, hrun, hrun', hrun'', hbegun.alike hfresh,
    hagain.alike hbegun⟩

/-- An old entry takes up room all along, until its key comes anew. -/
theorem alike_of_records_renewed :
    let requests : List Request := [.put "b" "0" none, .put "a" "0" none]
    let bytes := encoding [.set "a" "1" none, .delete "a", .set "b" "2" none]
    (∀ key ∈ ((Shelf.empty 2).after requests).keysByRecency,
      ∃ r ∈ records (items bytes), r.key = key) ∧
      ∃ tally s tally' s' tally'' s'',
        run .skip 5 ((Shelf.empty 2).after requests) (items bytes) = (.ok tally, s) ∧
          run .skip 5 (.empty 2) (items bytes) = (.ok tally', s') ∧
          run .skip 5 s (items bytes) = (.ok tally'', s'') ∧ s.Alike s' ∧ s''.Alike s ∧
          s'.keysByRecency = ["b"] := by
  intro requests bytes
  have hlog : records (items bytes) = [.set "a" "1" none, .delete "a", .set "b" "2" none] := by
    rw [items_encoding (by decide), records_map_ok]
  have hbegun : ((Shelf.empty 2).after requests).keysByRecency = ["a", "b"] :=
    ((Follows.empty 2).serveAll requests).2.keysByRecency_eq
  have hkeys : ∀ key ∈ ((Shelf.empty 2).after requests).keysByRecency,
      ∃ r ∈ records (items bytes), r.key = key := by
    rw [hbegun, hlog]
    decide
  obtain ⟨tally, s, tally', s', tally'', s'', hrun, hrun', hrun'', halike, hagain⟩ :=
    alike_of_records hkeys 5
  refine ⟨hkeys, tally, s, tally', s', tally'', s'', hrun, hrun', hrun'', halike, hagain, ?_⟩
  rw [run_ok hrun', hlog, (Follows.restoreAll 2 5 _).keysByRecency_eq]
  rfl

end Replay

end Larder
