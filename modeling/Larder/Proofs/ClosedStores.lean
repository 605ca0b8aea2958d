import Larder.Proofs.ShelfRequests

/-! Closing a store is for good. A store is closed exactly if it has let its journal go, and from
then on its calls only look up and sweep: nothing is written, nothing comes onto the shelf, and what
leaves it has expired. It does not matter whether the journal could be synced for the last time, and
a sweep that was under way goes on. -/

namespace Larder

namespace Shelf.Ranking

/-- A call without a record brings nothing, and what it takes away has expired. -/
theorem Serves.mem_of_unwritten {capacity : Nat} {now : Millis} {l l' : Ranking}
    {found : Option String} (h : l.Serves capacity now none found l') (hl : l.Distinct) :
    (∀ p ∈ l', p ∈ l) ∧ ∀ p ∈ l, p ∈ l' ∨ p.2.hasExpired now = true := by
  cases h with
  | promotes hmem hlive =>
    refine ⟨fun p hp => ?_, fun p hp => .inl (hl.mem_promoted hmem hp)⟩
    rcases List.mem_cons.mp hp with rfl | hp
    · exact hmem
    · exact (mem_without.mp hp).1
  | sheds h =>
    refine ⟨fun p hp => h.sublist.subset hp, fun p hp => ?_⟩
    by_cases hkept : p ∈ l'
    · exact .inl hkept
    · exact .inr (h.expired p hp hkept)

end Shelf.Ranking

/-- Neither a record that was written nor an entry that had to leave for another has been counted
in between. -/
structure Counters.SameChanges (c c' : Counters) : Prop where
  appended : c'.appended = c.appended
  evictions : c'.evictions = c.evictions

theorem Counters.SameChanges.refl (c : Counters) : c.SameChanges c := ⟨rfl, rfl⟩

theorem Counters.SameChanges.trans {c c' c'' : Counters} (h : c.SameChanges c')
    (h' : c'.SameChanges c'') : c.SameChanges c'' :=
  ⟨h'.appended.trans h.appended, h'.evictions.trans h.evictions⟩

namespace Store

open Larder.Shelf (Follows Ranking)

variable {s : Store} {m : Medium} {capacity : Nat} {l : Ranking}

theorem closed_iff_write (h : s.closed = true ↔ s.writer = none) (m : Medium) (r : Record) :
    let s' := (s.write m r).store
    s'.closed = true ↔ s'.writer = none := by
  unfold write
  split
  · exact h
  · rename_i w hw
    have hopen : ¬s.closed = true := by
      rw [h, hw]
      exact Option.some_ne_none w
    split <;> exact iff_of_false hopen (Option.some_ne_none _)

/-- No call closes a store without letting its journal go, and none does the second without the
first. -/
theorem closed_iff_perform (h : s.closed = true ↔ s.writer = none) (m : Medium) (now : Millis)
    (call : Call) :
    let s' := (s.perform m now call).store
    s'.closed = true ↔ s'.writer = none := by
  cases call with
  | set key value ttl =>
    have hwrite := closed_iff_write h m (.set key value (s.deadlineFor now ttl))
    simp only [perform, set]
    split
    · exact h
    · generalize s.write m _ = o at *
      obtain ⟨result, s', m'⟩ := o
      cases result <;> exact hwrite
  | delete key =>
    have hwrite := closed_iff_write h m (.delete key)
    simp only [perform, delete]
    split
    · exact h
    · generalize s.write m _ = o at *
      obtain ⟨result, s', m'⟩ := o
      cases result <;> exact hwrite
  | get key =>
    obtain ⟨shelf, counters, hget⟩ := frame_get s now key
    simp only [perform, hget]
    exact h
  | contains key => exact h
  | stats => exact h
  | slice sweep =>
    obtain ⟨shelf, counters, hslice⟩ := frame_slice sweep s now
    simp only [perform, hslice]
    exact h
  | sweep batch =>
    obtain ⟨shelf, counters, hsweep⟩ :=
      frame_runFrom now (s.shelf.recency.slotCount + 1) (.start batch) s
    simp only [perform, Store.sweep, hsweep]
    exact h
  | close =>
    simp only [perform, store_close]

theorem History.closed_iff_run {h : History} (hh : h.store.closed = true ↔ h.store.writer = none)
    (events : List Event) :
    let s := (h.run events).store
    s.closed = true ↔ s.writer = none := by
  induction events generalizing h with
  | nil => exact hh
  | cons e events ih =>
    refine ih ?_
    rw [store_step]
    exact closed_iff_perform hh (h.found e) e.now e.call

theorem Reached.closed_iff (hs : s.Reached) : s.closed = true ↔ s.writer = none := by
  obtain ⟨settings, now, m, recovered, m', events, hload, rfl⟩ := hs
  obtain ⟨w, -, hstore⟩ := Recovery.load_ok hload
  refine History.closed_iff_run ?_ events
  rw [History.start, hstore]
  exact iff_of_false Bool.false_ne_true (Option.some_ne_none _)

/-- What is stored in vain is refused because it is not allowed, or else because the store is
closed. -/
theorem set_of_released (hw : s.writer = none) (m : Medium) (now : Millis) (key value : String)
    (ttl : Option Duration) :
    s.set m now key value ttl =
      ⟨.error ((entryObjection? key value).elim .closed .invalid), s, m⟩ := by
  unfold set
  split
  · rename_i o ho
    rw [ho]
    rfl
  · rename_i hvalid
    dsimp only
    rw [hvalid, write_of_closed hw]
    rfl

theorem delete_of_released (hw : s.writer = none) (m : Medium) (now : Millis) (key : String) :
    s.delete m now key = ⟨.error ((keyObjection? key).elim .closed .invalid), s, m⟩ := by
  unfold delete
  split
  · rename_i o ho
    rw [ho]
    rfl
  · rename_i hvalid
    rw [hvalid, write_of_closed hw]
    rfl

theorem close_of_released (hw : s.writer = none) (hclosed : s.closed = true) (m : Medium) :
    s.close m = ⟨.ok (), s, m⟩ := by
  obtain ⟨shelf, writer, counters, defaultTtl, sweepBatch, closed⟩ := s
  cases hw
  cases hclosed
  rfl

theorem sameChanges_get (s : Store) (now : Millis) (key : String) :
    s.counters.SameChanges (s.get now key).2.counters := by
  unfold get
  split <;> exact ⟨rfl, rfl⟩

theorem sameChanges_slice (sweep : Sweep) (s : Store) (now : Millis) :
    s.counters.SameChanges (sweep.slice s now).2.counters := by
  unfold Sweep.slice
  split
  · exact .refl _
  · dsimp only
    split <;> exact ⟨rfl, rfl⟩

theorem sameChanges_runFrom (now : Millis) (fuel : Nat) (sweep : Sweep) (s : Store) :
    s.counters.SameChanges (Sweep.runFrom now fuel sweep s).2.counters := by
  induction fuel generalizing sweep s with
  | zero => exact .refl _
  | succ fuel ih =>
    unfold Sweep.runFrom
    split
    · exact .refl _
    · exact (sameChanges_slice sweep s now).trans (ih (sweep.slice s now).1 (sweep.slice s now).2)

theorem sameChanges_perform (hw : s.writer = none) (m : Medium) (now : Millis) (call : Call) :
    s.counters.SameChanges (s.perform m now call).store.counters := by
  cases call with
  | set key value ttl =>
    simp only [perform, set_of_released hw]
    exact .refl _
  | delete key =>
    simp only [perform, delete_of_released hw]
    exact .refl _
  | get key => exact sameChanges_get s now key
  | contains key => exact .refl _
  | stats => exact .refl _
  | slice sweep => exact sameChanges_slice sweep s now
  | sweep batch =>
    have hswept : s.counters.SameChanges (s.sweep now batch).2.counters :=
      sameChanges_runFrom now _ _ s
    exact hswept
  | close =>
    simp only [perform, store_close]
    exact .refl _

/-- What a closed store has come to by calls that were made at some times: its file is as it was,
its entries are some of those that it had, and the others have expired by one of these times. -/
structure Rests (h : History) (times : List Millis) (h' : History) : Prop where
  closed : h'.store.closed = true
  released : h'.store.writer = none
  bytes : h'.medium.bytes = h.medium.bytes
  counters : h.store.counters.SameChanges h'.store.counters
  held : ∀ key entry, h'.store.shelf.find? key = some entry →
    h.store.shelf.find? key = some entry
  left : ∀ key entry, h.store.shelf.find? key = some entry →
    h'.store.shelf.find? key = some entry ∨ ∃ now ∈ times, entry.hasExpired now = true

namespace Rests

variable {h h' h'' : History} {times times' : List Millis}

theorem refl (hclosed : h.store.closed = true) (hw : h.store.writer = none) : Rests h [] h :=
  ⟨hclosed, hw, rfl, .refl _, fun _ _ hfind => hfind, fun _ _ hfind => .inl hfind⟩

theorem trans (hfirst : Rests h times h') (hrest : Rests h' times' h'') :
    Rests h (times ++ times') h'' where
  closed := hrest.closed
  released := hrest.released
  bytes := hrest.bytes.trans hfirst.bytes
  counters := hfirst.counters.trans hrest.counters
  held key entry hfind := hfirst.held key entry (hrest.held key entry hfind)
  left key entry hfind := by
    rcases hfirst.left key entry hfind with hmid | ⟨now, hmem, hexpired⟩
    · rcases hrest.left key entry hmid with hlast | ⟨now, hmem, hexpired⟩
      · exact .inl hlast
      · exact .inr ⟨now, List.mem_append_right _ hmem, hexpired⟩
    · exact .inr ⟨now, List.mem_append_left _ hmem, hexpired⟩

end Rests

namespace History

variable {h : History}

/-- What one call preserves of a closed store. -/
theorem rests_step (hf : Follows capacity h.store.shelf l) (hclosed : h.store.closed = true)
    (hw : h.store.writer = none) (e : Event) :
    Rests h [e.now] (h.step e) ∧ ∃ l', Follows capacity (h.step e).store.shelf l' := by
  obtain ⟨hmedium, hreleased, hrefused⟩ := perform_of_closed (m := h.found e) hw e.now e.call
  have hclosed' := (closed_iff_perform (iff_of_true hclosed hw) (h.found e) e.now e.call).mpr
    hreleased
  -- no change is granted any more, so this is one of the calls without a record
  have hgranted : h.granted? e = none := by
    unfold granted?
    split
    · rename_i hok
      cases hr : e.call.record? h.store e.now with
      | none => rfl
      | some r =>
        rw [hrefused (by rw [hr]; rfl)] at hok
        cases hok
    · rfl
  obtain ⟨l', hnext, hserves⟩ := serves_step hf e
  rw [hgranted] at hserves
  obtain ⟨hheld, hleft⟩ := hserves.mem_of_unwritten hf.distinct
  refine ⟨?_, l', hnext⟩
  constructor
  case closed => rwa [store_step]
  case released => rwa [store_step]
  case bytes => rw [medium_step, hmedium, found]
  case counters =>
    rw [store_step]
    exact sameChanges_perform hw (h.found e) e.now e.call
  case held =>
    intro key entry hfind
    rw [hnext.find?_eq, hnext.distinct.lookup_eq_some_iff] at hfind
    rw [hf.find?_eq, hf.distinct.lookup_eq_some_iff]
    exact hheld _ hfind
  case left =>
    intro key entry hfind
    rw [hf.find?_eq, hf.distinct.lookup_eq_some_iff] at hfind
    rw [hnext.find?_eq, hnext.distinct.lookup_eq_some_iff]
    exact (hleft _ hfind).imp id fun hexpired => ⟨e.now, List.mem_singleton_self _, hexpired⟩

/-- What all calls preserve of it. -/
theorem rests_run (hf : Follows capacity h.store.shelf l) (hclosed : h.store.closed = true)
    (hw : h.store.writer = none) (events : List Event) :
    Rests h (events.map Event.now) (h.run events) ∧
      ∃ l', Follows capacity (h.run events).store.shelf l' := by
  induction events generalizing h l with
  | nil => exact ⟨.refl hclosed hw, l, hf⟩
  | cons e events ih =>
    obtain ⟨hstep, l', hnext⟩ := rests_step hf hclosed hw e
    obtain ⟨hrest, hlast⟩ := ih hnext hstep.closed hstep.released
    exact ⟨hstep.trans hrest, hlast⟩

end History

/-- A store is closed exactly if it has let its journal go. Closing it does nothing else, whether or
not the journal can be synced, and is for good: whatever is asked for afterwards, at any times and
whatever fails, the file stays as it is, nothing more is written or has to leave for something
newer, and no entry comes onto the shelf or is changed; each call only takes away what has expired
when it is made. Any change is refused, and closing again goes well. -/
theorem closed_for_good (hs : s.Reached) (m : Medium) :
    (s.closed = true ↔ s.writer = none) ∧
      ∀ (closing : Millis) (outlook : Outlook),
        let c := (History.start s m).step ⟨.close, closing, outlook⟩
        c.store = { s with writer := none, closed := true } ∧ c.medium.bytes = m.bytes ∧
          ∀ since : List Event,
            let r := c.run since
            Rests c (since.map Event.now) r ∧ (∀ e, Rests r [e.now] (r.step e)) ∧
              ∀ (m : Medium) (now : Millis),
                (∀ key value ttl, r.store.set m now key value ttl =
                  ⟨.error ((entryObjection? key value).elim .closed .invalid), r.store, m⟩) ∧
                (∀ key, r.store.delete m now key =
                  ⟨.error ((keyObjection? key).elim .closed .invalid), r.store, m⟩) ∧
                r.store.close m = ⟨.ok (), r.store, m⟩ := by
  refine ⟨hs.closed_iff, fun closing outlook => ?_⟩
  intro c
  have hstore : c.store = { s with writer := none, closed := true } := by
    rw [History.store_step]
    exact store_close s _
  have hbytes : c.medium.bytes = m.bytes := by
    rw [History.medium_step]
    exact (perform_of_no_record rfl).1
  obtain ⟨l, hf⟩ := hs.follows
  have hshelf : Follows s.shelf.capacity c.store.shelf l := by
    rw [hstore]
    exact hf
  have hclosed : c.store.closed = true := by rw [hstore]
  have hw : c.store.writer = none := by rw [hstore]
  refine ⟨hstore, hbytes, fun since => ?_⟩
  intro r
  obtain ⟨hrests, l', hlast⟩ := History.rests_run hshelf hclosed hw since
  refine ⟨hrests, fun e => (History.rests_step hlast hrests.closed hrests.released e).1,
    fun m now => ⟨?_, ?_, close_of_released hrests.released hrests.closed m⟩⟩
  · exact fun key value ttl => set_of_released hrests.released m now key value ttl
  · exact fun key => delete_of_released hrests.released m now key

/-- The journal cannot be synced when the store is closed; the entry that it holds is still served
in the last millisecond before its deadline, and another one is not taken on. -/
theorem closed_for_good_unsynced :
    let settings : Settings := { Settings.default with maxEntries := 2 }
    let stored : Event := ⟨.set "a" "1" (some (.ofMillis 10)), 5, .clear⟩
    let h := (History.start (.ofShelf (.empty 2) ⟨0, false⟩ settings) ⟨[], .clear⟩).run [stored]
    let unsynced : Outlook := ⟨none, .first 1, .none⟩
    let c := (History.start h.store h.medium).step ⟨.close, 6, unsynced⟩
    let since : List Event := [⟨.get "a", 14, .clear⟩, ⟨.set "b" "2" none, 14, .clear⟩]
    let r := c.run since
    h.store.Reached ∧ (h.store.close ⟨h.medium.bytes, unsynced⟩).answer.isOk = false ∧
      r.store.closed = true ∧ r.medium.bytes = h.medium.bytes ∧ r.store.counters.appended = 1 ∧
      r.store.shelf.find? "a" = some ⟨"1", some 15⟩ ∧ r.store.shelf.find? "b" = none ∧
      r.store.close ⟨[], unsynced⟩ = ⟨.ok (), r.store, ⟨[], unsynced⟩⟩ := by
  intro settings stored h unsynced
  have hs : h.store.Reached :=
    ⟨settings, 0, ⟨[], .clear⟩, _, _, [stored], Recovery.load_nil settings 0 .clear, rfl⟩
  have hfollows : Follows 2 h.store.shelf [("a", ⟨"1", some 15⟩)] :=
    History.follows_granted (h := .start (.ofShelf (.empty 2) ⟨0, false⟩ settings) ⟨[], .clear⟩)
      (e := stored) (r := .set "a" "1" (some 15)) (Follows.empty 2) (by decide +kernel)
  have hanswer : (h.store.close ⟨h.medium.bytes, unsynced⟩).answer.isOk = false := by
    decide +kernel
  have happended : h.store.counters.appended = 1 := by decide +kernel
  have hmain := closed_for_good hs h.medium
  clear_value h
  intro c since r
  obtain ⟨-, hmain⟩ := hmain
  obtain ⟨hstore, hbytes, hsince⟩ := hmain 6 unsynced
  obtain ⟨hrests, -, hrefuses⟩ := hsince since
  have hfind : ∀ key, c.store.shelf.find? key = [("a", ⟨"1", some 15⟩)].lookup key := by
    intro key
    rw [hstore]
    exact hfollows.find?_eq key
  have hlive : ¬∃ now ∈ since.map Event.now, Entry.hasExpired ⟨"1", some 15⟩ now = true := by
    decide
  have hcount := hrests.counters.appended
  rw [hstore] at hcount
  have ha := (hrests.left "a" ⟨"1", some 15⟩ (hfind "a")).resolve_right hlive
  have hb : r.store.shelf.find? "b" = none := by
    refine Option.eq_none_iff_forall_not_mem.mpr fun entry hentry => ?_
    have := hrests.held "b" entry hentry
    rw [hfind] at this
    cases this
  exact ⟨hs, hanswer, hrests.closed, hrests.bytes.trans hbytes, hcount.trans happended, ha, hb,
    (hrefuses ⟨[], unsynced⟩ 0).2.2⟩

end Store

end Larder
