import Larder.Proofs.SweepSlices

/-! When an entry stops being served. The deadline is computed once, from the clock at which the
entry is set and its time to live, and nothing wraps around on the way. All that judges the entry
later, in memory, in a sweep and in a replay of its record, changes its mind at the same
millisecond: the deadline itself, which is already too late. -/

namespace Larder

/-- Milliseconds of a length of time that has its seconds in 64 bits are counted in 128. -/
theorem Duration.millis_lt {d : Duration} (h : d.nanos < UInt64.size * 1000000000) :
    d.millis < UInt64.size * UInt64.size := by
  unfold millis UInt64.size at *
  omega

namespace Deadline

/-- The deadline in numbers that have no end: a time to live counts in whole milliseconds and as
one at least, and what lies behind the last millisecond there is counts as that. -/
def due (now : Millis) : Option Duration → Option Nat
  | none => none
  | some ttl =>
    if ttl.nanos = 0 then none
    else some (min (now.toNat + max 1 (ttl.nanos / 1000000)) (UInt64.size - 1))

theorem toNat_ofNatClamp (n : Nat) :
    (UInt64.ofNatClamp n).toNat = min n (UInt64.size - 1) := by
  unfold UInt64.ofNatClamp
  split
  · rename_i h
    rw [UInt64.toNat_ofNatLT]
    exact (Nat.min_eq_left (Nat.le_sub_one_of_lt h)).symm
  · rename_i h
    rw [UInt64.toNat_ofNatLT]
    exact (Nat.min_eq_right (Nat.le_of_lt (Nat.lt_of_lt_of_le (by decide) (Nat.le_of_not_lt h)))).symm

/-- Neither the time to live nor the sum wraps around. -/
theorem toNat_ofTtl (now : Millis) (ttl : Option Duration) :
    (ofTtl now ttl).map UInt64.toNat = due now ttl := by
  cases ttl with
  | none => rfl
  | some ttl =>
    rw [ofTtl, due]
    split
    · rfl
    · rw [Option.map_some, later, ttlMillis, UInt64.toNat_max, toNat_ofNatClamp, toNat_ofNatClamp,
        Duration.millis]
      congr 1
      have hone : UInt64.toNat 1 = 1 := rfl
      omega

/-- A deadline has passed unless it lies ahead. -/
theorem not_hasPassed_eq (d : Deadline) (now : Millis) :
    (!d.hasPassed now) = (d.map UInt64.toNat).all fun stop => decide (now.toNat < stop) := by
  cases d with
  | none => rfl
  | some stop =>
    rw [hasPassed_some, Option.map_some, Option.all_some, ← decide_not]
    exact decide_eq_decide.mpr (UInt64.not_le.trans UInt64.lt_iff_toNat_lt)

end Deadline

open Larder.Shelf (Follows Ranking Request)

/-- All that judges the entry of a key at some time says whether it is served then: a look-up, a
look that leaves it alone, the lists of what has expired, what takes away one entry that has
expired or all, the time that is left, and a replay of the entry's record alone, onto a shelf with
some room on which there may have been anything. -/
structure Store.Judges (s : Store) (key : String) (entry : Entry) (now : Millis)
    (served : Bool) : Prop where
  get : (s.get now key).1 = if served then some entry.value else none
  contains : s.contains now key = served
  expiredKeys : key ∈ s.shelf.expiredKeys now ↔ served = false
  expiredSlice : ∃ slot < s.shelf.recency.slotCount, ∀ cursor limit,
    key ∈ (s.shelf.expiredSlice cursor limit now).1 ↔
      cursor ≤ slot ∧ slot < cursor + max limit 1 ∧ served = false
  removeIfExpired : (s.shelf.removeIfExpired key now).2.find? key =
    if served then some entry else none
  sweep : ∀ batch, (s.sweep now batch).2.shelf.find? key = if served then some entry else none
  remaining : entry.deadline.remaining now = some 0 ↔ served = false
  replay : ∀ policy capacity (requests : List Request), 0 < capacity →
    ∃ tally shelf,
      Replay.run policy now ((Shelf.empty capacity).after requests)
        (Journal.items (Record.set key entry.value entry.deadline).bytes) = (.ok tally, shelf) ∧
      shelf.find? key = if served then some entry else none

namespace Shelf

variable {s : Shelf} {capacity : Nat} {l : Ranking} {key : String} {entry : Entry} {now : Millis}

theorem peek?_of_find? (h : s.find? key = some entry) (now : Millis) :
    s.peek? key now = if entry.hasExpired now then none else some entry := by
  rw [peek?, h, Option.filter_some]
  cases entry.hasExpired now <;> rfl

theorem isExpired_of_find? (h : s.find? key = some entry) (now : Millis) :
    s.isExpired key now = entry.hasExpired now := by
  rw [Stands.isExpired_eq, h]
  rfl

theorem get_of_find? (h : s.find? key = some entry) (now : Millis) :
    (s.get key now).1 = if entry.hasExpired now then .expired else .hit entry.value := by
  obtain ⟨slot, hslot, rfl⟩ := Option.map_eq_some_iff.mp h
  unfold get
  rw [hslot]
  dsimp only
  split <;> rfl

theorem find?_removeIfExpired (h : s.find? key = some entry) (now : Millis) :
    (s.removeIfExpired key now).2.find? key =
      if entry.hasExpired now then none else some entry := by
  rw [removeIfExpired, isExpired_of_find? h]
  split
  · exact find?_remove s key
  · exact h

theorem mem_expiredKeys_iff (h : Follows capacity s l) (hfind : s.find? key = some entry)
    (now : Millis) : key ∈ s.expiredKeys now ↔ entry.hasExpired now = true := by
  have hkey : key ∈ s.keysByRecency := by
    rw [h.keysByRecency_eq]
    rw [h.find?_eq] at hfind
    exact List.mem_map_of_mem (h.distinct.lookup_eq_some_iff.mp hfind)
  rw [expiredKeys, List.mem_filter, isExpired_of_find? hfind]
  exact and_iff_right hkey

/-- A record that is replayed leaves of its key what it stores, if that has not expired and there is
room for anything. -/
theorem Follows.find?_restore_set (h : Follows capacity s l) (hcapacity : 0 < capacity)
    (key : String) (entry : Entry) (now : Millis) :
    (Replay.restore now s (.set key entry.value entry.deadline)).find? key =
      if entry.hasExpired now then none else some entry := by
  rw [Replay.restore, Entry.hasExpired]
  split
  · exact find?_remove s key
  · cases capacity with
    | zero => cases hcapacity
    | succ n =>
      rw [(h.put key entry.value entry.deadline).2.find?_eq, Ranking.put_eq, List.take_succ_cons]
      exact List.lookup_cons_self

/-- A change has its key hold what it stores, or nothing. -/
theorem Follows.eq_of_find?_change (h : Follows capacity s l) {value : String} {deadline : Deadline}
    (hfind : (s.change (.set key value deadline)).find? key = some entry) :
    entry = ⟨value, deadline⟩ := by
  have hnext := h.change (.set key value deadline)
  rw [hnext.find?_eq, hnext.distinct.lookup_eq_some_iff] at hfind
  rcases Ranking.mem_change hfind with hrecord | ⟨-, hother⟩
  · obtain ⟨-, hvalue, hdeadline⟩ := Record.set.inj hrecord
    rw [hvalue, hdeadline]
  · exact absurd rfl hother

end Shelf

namespace Store

open Journal

variable {s : Store} {capacity : Nat} {l : Ranking} {key : String} {entry : Entry}

theorem judges_of_find? (hf : Follows capacity s.shelf l) (hfind : s.shelf.find? key = some entry)
    (hkey : key ≠ "") (now : Millis) : s.Judges key entry now (!entry.hasExpired now) where
  get := by
    have hget := Shelf.get_of_find? hfind now
    cases hexpired : entry.hasExpired now with
    | true =>
      rw [hexpired] at hget
      refine answer_get_of_not_hit fun value hhit => ?_
      cases hget.symm.trans hhit
    | false =>
      rw [hexpired] at hget
      rw [get_of_hit hget]
      rfl
  contains := by
    rw [Store.contains, Shelf.peek?_of_find? hfind]
    cases entry.hasExpired now <;> rfl
  expiredKeys := by
    rw [Shelf.mem_expiredKeys_iff hf hfind, Bool.not_eq_false']
  expiredSlice := by
    obtain ⟨slot, hslot, rfl⟩ := Option.map_eq_some_iff.mp hfind
    refine ⟨slot.handle.slot, hf.handle_lt hslot, fun cursor limit => ?_⟩
    rw [hf.mem_expiredSlice_iff hslot, Bool.not_eq_false']
  removeIfExpired := by
    rw [Shelf.find?_removeIfExpired hfind]
    cases entry.hasExpired now <;> rfl
  sweep batch := by
    rw [(sweep_follows hf now batch).find?_eq, Ranking.lookup_live hf.distinct,
      ← hf.peek?_eq, Shelf.peek?_of_find? hfind]
    cases entry.hasExpired now <;> rfl
  remaining := by
    rw [Deadline.remaining_eq_zero_iff, Bool.not_eq_false']
    rfl
  replay policy room requests hroom := by
    obtain ⟨index, hindex⟩ := (Follows.empty room).after requests
    have hitems : items (Record.set key entry.value entry.deadline).bytes =
        [Record.set key entry.value entry.deadline].map .ok := by
      rw [← items_encoding (by simpa [Record.key] using hkey), encoding, List.flatMap_singleton]
    obtain ⟨tally, hrun⟩ := Replay.run_map_ok policy now ((Shelf.empty room).after requests)
      [Record.set key entry.value entry.deadline]
    refine ⟨tally, _, hitems ▸ hrun, ?_⟩
    refine (hindex.find?_restore_set hroom key entry now).trans ?_
    cases entry.hasExpired now <;> rfl

theorem shelf_set_of_ok {m : Medium} {now : Millis} {value : String} {ttl : Option Duration}
    (hset : (s.set m now key value ttl).answer = .ok ()) :
    key ≠ "" ∧ (s.set m now key value ttl).store.shelf =
      s.shelf.change (.set key value (s.deadlineFor now ttl)) := by
  cases hvalid : entryObjection? key value with
  | some o => rw [set_of_objection hvalid] at hset; cases hset
  | none =>
    refine ⟨key_ne_of_keyObjection? (keyObjection?_of_entryObjection? hvalid), ?_⟩
    have hshelf := shelf_write s m (.set key value (s.deadlineFor now ttl))
    simp only [set, hvalid] at hset ⊢
    generalize s.write m _ = o at *
    obtain ⟨result, s', m'⟩ := o
    cases result with
    | error f => cases hset
    | ok _ =>
      rw [← show s'.shelf = s.shelf from hshelf]
      rfl

/-- Once an entry has been set, for as long as it stays on the shelf and is not set anew, it is
served exactly up to its deadline, which is the time at which it was set and its time to live or
that of the settings, or the last millisecond there is. A time to live that has its seconds in 64
bits has its milliseconds in 128. -/
theorem judges_until_due {s : Store} (hs : s.Reached) {m : Medium} {t : Millis}
    {key value : String} {ttl : Option Duration}
    (hset : (s.set m t key value ttl).answer = .ok ()) {events : List Event} {h : History}
    (hrun : (History.start (s.set m t key value ttl).store (s.set m t key value ttl).medium).run
      events = h)
    (hkept : (h.store.shelf.find? key).isSome = true)
    (hunset : ∀ value deadline, .set key value deadline ∉ h.accepted) :
    let effective := ttl.or s.defaultTtl
    let due := Deadline.due t effective
    (∀ d, effective = some d → d.nanos < UInt64.size * 1000000000 →
        d.millis < UInt64.size * UInt64.size) ∧
      ∃ deadline : Deadline, deadline.map UInt64.toNat = due ∧
        h.store.shelf.find? key = some ⟨value, deadline⟩ ∧
        ∀ u : Millis, h.store.Judges key ⟨value, deadline⟩ u
          (due.all fun stop => decide (u.toNat < stop)) := by
  intro effective due
  obtain ⟨hkey, hshelf⟩ := shelf_set_of_ok hset
  obtain ⟨l, hf⟩ := hs.follows
  obtain ⟨requests, since, hsince, haccepted, hputs⟩ := (History.start
    (s.set m t key value ttl).store (s.set m t key value ttl).medium).requests_of_run events
  rw [hrun] at hsince haccepted
  simp only [History.start, hshelf, List.nil_append] at hsince haccepted
  have hput := hf.change (.set key value (s.deadlineFor t ttl))
  obtain ⟨l', hlast⟩ := hput.after requests
  rw [← hsince] at hlast
  -- The key has not been set since, so what is there now is what was put there then.
  have hkeeps := hputs.keeps (haccepted ▸ hunset)
    (s.shelf.change (.set key value (s.deadlineFor t ttl)))
  rw [← hsince] at hkeeps
  obtain ⟨entry, hfind⟩ := Option.isSome_iff_exists.mp hkept
  obtain rfl := hf.eq_of_find?_change (hkeeps.find? hfind)
  refine ⟨fun d _ => Duration.millis_lt, s.deadlineFor t ttl, Deadline.toNat_ofTtl t effective,
    hfind, fun u => ?_⟩
  have hjudges := judges_of_find? hlast hfind hkey u
  rw [Entry.hasExpired, Deadline.not_hasPassed_eq, deadlineFor, Deadline.toNat_ofTtl] at hjudges
  exact hjudges

/-- Five milliseconds before the clock ends an entry is set for ten, so it is served up to the last
millisecond there is. -/
theorem judges_until_due_last :
    let settings : Settings := { Settings.default with maxEntries := 2 }
    let s : Store := .ofShelf (.empty 2) ⟨0, false⟩ settings
    let t : Millis := 18446744073709551610
    let o := s.set ⟨[], .clear⟩ t "a" "1" (some (.ofMillis 10))
    let h := (History.start o.store o.medium).run [⟨.set "b" "2" none, t, .clear⟩]
    s.Reached ∧ o.answer = .ok () ∧ (h.store.shelf.find? "a").isSome = true ∧
      (∀ value deadline, .set "a" value deadline ∉ h.accepted) ∧
      ∃ deadline, h.store.shelf.find? "a" = some ⟨"1", deadline⟩ ∧
        h.store.Judges "a" ⟨"1", deadline⟩ 18446744073709551614 true ∧
        h.store.Judges "a" ⟨"1", deadline⟩ 18446744073709551615 false := by
  intro settings s t o h
  have hs : s.Reached :=
    ⟨settings, t, ⟨[], .clear⟩, _, _, [], Recovery.load_nil settings t .clear, rfl⟩
  have hset : o.answer = .ok () := rfl
  have hfirst : Follows 2 o.store.shelf [("a", ⟨"1", some 18446744073709551615⟩)] := by
    rw [(shelf_set_of_ok hset).2]
    exact (Follows.empty 2).change _
  have hboth : Follows 2 h.store.shelf
      [("b", ⟨"2", none⟩), ("a", ⟨"1", some 18446744073709551615⟩)] :=
    History.follows_granted (h := .start o.store o.medium) (e := ⟨.set "b" "2" none, t, .clear⟩)
      (r := .set "b" "2" none) hfirst (by decide +kernel)
  have hkept : (h.store.shelf.find? "a").isSome = true := by
    rw [hboth.find?_eq]
    rfl
  have haccepted : h.accepted = [.set "b" "2" none] := by decide +kernel
  have hunset : ∀ value deadline, .set "a" value deadline ∉ h.accepted := by
    simp [haccepted]
  obtain ⟨-, deadline, -, hfind, hjudges⟩ := judges_until_due hs hset rfl hkept hunset
  exact ⟨hs, hset, hkept, hunset, deadline, hfind, hjudges 18446744073709551614,
    hjudges 18446744073709551615⟩

end Store

end Larder
