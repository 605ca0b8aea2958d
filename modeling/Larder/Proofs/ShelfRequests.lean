import Larder.Proofs.Successions

/-! What is asked of a shelf by those who use a store, as a list of requests. Only a change that is
granted puts something on the shelf, so what a shelf keeps under requests it keeps in every run.
A key that is not put keeps its slot until it leaves, and a slot is made only when there is an
entry in every other. -/

namespace Larder

namespace Shelf

/-- The shelf after some requests. -/
def after (s : Shelf) (requests : List Request) : Shelf := (serveAll serve s requests).2

theorem after_cons (s : Shelf) (request : Request) (requests : List Request) :
    s.after (request :: requests) = (s.serve request).2.after requests := rfl

theorem after_append (s : Shelf) (as bs : List Request) :
    s.after (as ++ bs) = (s.after as).after bs := by
  induction as generalizing s with
  | nil => rfl
  | cons request as ih => exact ih (s.serve request).2

/-- Whatever a key has, it had before, in the same slot. -/
def Keeps (key : String) (s s' : Shelf) : Prop :=
  ∀ slot, s'.slots[key]? = some slot → s.slots[key]? = some slot

variable {s s' s'' : Shelf} {key other : String} {now : Millis} {capacity : Nat} {l : Ranking}

theorem Keeps.refl (key : String) (s : Shelf) : s.Keeps key s := fun _ h => h

theorem Keeps.trans (h : Keeps key s s') (h' : Keeps key s' s'') : Keeps key s s'' :=
  fun slot hslot => h slot (h' slot hslot)

theorem Keeps.find? (h : Keeps key s s') {entry : Entry} (hfind : s'.find? key = some entry) :
    s.find? key = some entry := by
  obtain ⟨slot, hslot, rfl⟩ := Option.map_eq_some_iff.mp hfind
  rw [Shelf.find?, h slot hslot]
  rfl

theorem keeps_erase (key other : String) (s : Shelf) (recency : Recency) :
    Keeps key s { s with slots := s.slots.erase other, recency } := by
  intro slot hslot
  rw [Std.HashMap.getElem?_erase] at hslot
  exact (Option.ite_none_left_eq_some.mp hslot).2

theorem keeps_remove (key other : String) (s : Shelf) : Keeps key s (s.remove other).2 := by
  unfold remove
  split
  · exact .refl key s
  · exact keeps_erase key other s _

theorem keeps_get (key other : String) (now : Millis) (s : Shelf) :
    Keeps key s (s.get other now).2 := by
  unfold get
  split
  · exact .refl key s
  · split
    · exact keeps_remove key other s
    · exact .refl key s

theorem keeps_removeIfExpired (key other : String) (now : Millis) (s : Shelf) :
    Keeps key s (s.removeIfExpired other now).2 := by
  unfold removeIfExpired
  split
  · exact keeps_remove key other s
  · exact .refl key s

theorem keeps_evictFrom (key : String) (fuel : Nat) (gone : List String) (s : Shelf) :
    Keeps key s (evictFrom fuel gone s).2 := by
  induction fuel generalizing gone s with
  | zero => exact .refl key s
  | succ fuel ih =>
    unfold evictFrom
    split
    · split
      · exact .refl key s
      · exact (keeps_erase key _ s _).trans (ih _ _)
    · exact .refl key s

theorem keeps_insert (h : other ≠ key) (s : Shelf) (slot : Slot) (recency : Recency) :
    Keeps key s { s with slots := s.slots.insert other slot, recency } := by
  intro slot hslot
  rw [Std.HashMap.getElem?_insert, if_neg (fun heq => h (beq_iff_eq.mp heq))] at hslot
  exact hslot

theorem keeps_put (h : other ≠ key) (s : Shelf) (value : String) (deadline : Deadline) :
    Keeps key s (s.put other value deadline).2 := by
  unfold put
  split
  · exact keeps_insert h s _ _
  · exact (keeps_insert h s _ _).trans (keeps_evictFrom key _ _ _)

/-- A request that does not put the key lets it keep what it has, or takes that away. -/
theorem keeps_serve {request : Request} (h : ∀ value deadline, request ≠ .put key value deadline)
    (s : Shelf) : Keeps key s (s.serve request).2 := by
  cases request with
  | put other value deadline =>
    refine keeps_put ?_ s value deadline
    rintro rfl
    exact h value deadline rfl
  | get other now => exact keeps_get key other now s
  | remove other => exact keeps_remove key other s
  | removeIfExpired other now => exact keeps_removeIfExpired key other now s
  | peek | expiredKeys | keysByRecency => exact .refl key s

theorem keeps_after {requests : List Request}
    (h : ∀ value deadline, Request.put key value deadline ∉ requests) (s : Shelf) :
    Keeps key s (s.after requests) := by
  induction requests generalizing s with
  | nil => exact .refl key s
  | cons request requests ih =>
    rw [after_cons]
    refine (keeps_serve (fun value deadline hput => ?_) s).trans
      (ih (fun value deadline hmem => h value deadline (List.mem_cons_of_mem _ hmem)) _)
    exact h value deadline (hput ▸ List.mem_cons_self)

theorem slotCount_evictFrom (fuel : Nat) (gone : List String) (s : Shelf) :
    (evictFrom fuel gone s).2.recency.slotCount = s.recency.slotCount := by
  induction fuel generalizing gone s with
  | zero => rfl
  | succ fuel ih =>
    unfold evictFrom
    split
    · have hevict := s.recency.slotCount_evictOldest
      split
      · rfl
      · rename_i holdest
        rw [ih]
        rwa [holdest] at hevict
    · rfl

theorem slotCount_remove (s : Shelf) (key : String) :
    (s.remove key).2.recency.slotCount = s.recency.slotCount := by
  unfold remove
  split
  · rfl
  · exact Recency.slotCount_remove _ _

/-- No request but one that puts something makes a slot. -/
theorem slotCount_serve {request : Request}
    (h : ∀ key value deadline, request ≠ .put key value deadline) (s : Shelf) :
    (s.serve request).2.recency.slotCount = s.recency.slotCount := by
  cases request with
  | put key value deadline => exact absurd rfl (h key value deadline)
  | get key now =>
    simp only [serve, get]
    split
    · rfl
    · split
      · exact slotCount_remove s key
      · exact Recency.slotCount_touch _ _
  | remove key => exact slotCount_remove s key
  | removeIfExpired key now =>
    simp only [serve, removeIfExpired]
    split
    · exact slotCount_remove s key
    · rfl
  | peek | expiredKeys | keysByRecency => rfl

theorem slotCount_after {requests : List Request}
    (h : ∀ key value deadline, Request.put key value deadline ∉ requests) (s : Shelf) :
    (s.after requests).recency.slotCount = s.recency.slotCount := by
  induction requests generalizing s with
  | nil => rfl
  | cons request requests ih =>
    rw [after_cons, ih fun key value deadline hmem =>
      h key value deadline (List.mem_cons_of_mem _ hmem)]
    exact slotCount_serve (fun key value deadline hput =>
      h key value deadline (hput ▸ List.mem_cons_self)) s

theorem slotCount_put_le (h : Follows capacity s l) (key value : String) (deadline : Deadline) :
    (s.put key value deadline).2.recency.slotCount ≤ max s.recency.slotCount (capacity + 1) := by
  obtain ⟨rows, hs, -, hle, -⟩ := h
  rcases hs.find key with ⟨hnone, -⟩ | ⟨as, row, bs, rfl, rfl, hslot⟩
  · have hpush := Recency.slotCount_push_le hs.recency key
    rw [List.length_map] at hpush
    rw [Stands.put_of_none hnone, evict, slotCount_evictFrom]
    refine Nat.le_trans hpush ?_
    omega
  · rw [Stands.put_of_some hslot]
    exact Nat.le_trans (Nat.le_of_eq (Recency.slotCount_touch _ _)) (Nat.le_max_left _ _)

theorem slotCount_serve_le (h : Follows capacity s l) (request : Request) :
    (s.serve request).2.recency.slotCount ≤ max s.recency.slotCount (capacity + 1) := by
  by_cases hput : ∃ key value deadline, request = .put key value deadline
  · obtain ⟨key, value, deadline, rfl⟩ := hput
    exact slotCount_put_le h key value deadline
  · rw [slotCount_serve fun key value deadline heq => hput ⟨key, value, deadline, heq⟩]
    exact Nat.le_max_left _ _

namespace Follows

theorem after (h : Follows capacity s l) (requests : List Request) :
    ∃ l', Follows capacity (s.after requests) l' := ⟨_, (h.serveAll requests).2⟩

/-- There is never more than one slot too many. -/
theorem slotCount_after_le (h : Follows capacity s l) (hle : s.recency.slotCount ≤ capacity + 1)
    (requests : List Request) : (s.after requests).recency.slotCount ≤ capacity + 1 := by
  induction requests generalizing s l with
  | nil => exact hle
  | cons request requests ih =>
    refine ih (h.serve request).2 (Nat.le_trans (slotCount_serve_le h request) ?_)
    exact Nat.max_le.mpr ⟨hle, Nat.le_refl _⟩

theorem capacity_eq (h : Follows capacity s l) : s.capacity = capacity := by
  obtain ⟨rows, -, -, -, hcapacity⟩ := h
  exact hcapacity

end Follows

/-- What is asked for by a record. -/
def Request.ofRecord : Record → Request
  | .set key value deadline => .put key value deadline
  | .delete key => .remove key

theorem change_eq_after (s : Shelf) (r : Record) : s.change r = s.after [.ofRecord r] := by
  cases r <;> rfl

/-- What is put is what some records store. -/
def Puts (rs : List Record) (requests : List Request) : Prop :=
  ∀ key value deadline, Request.put key value deadline ∈ requests →
    Record.set key value deadline ∈ rs

theorem puts_nil (rs : List Record) : Puts rs [] := fun _ _ _ h => (List.not_mem_nil h).elim

theorem Puts.append {rs qs : List Record} {as bs : List Request} (h : Puts rs as)
    (h' : Puts qs bs) : Puts (rs ++ qs) (as ++ bs) := by
  intro key value deadline hmem
  rcases List.mem_append.mp hmem with hmem | hmem
  · exact List.mem_append_left _ (h key value deadline hmem)
  · exact List.mem_append_right _ (h' key value deadline hmem)

/-- A key that no record stores is not put. -/
theorem Puts.keeps {rs : List Record} {requests : List Request} (h : Puts rs requests)
    (hunset : ∀ value deadline, .set key value deadline ∉ rs) (s : Shelf) :
    Keeps key s (s.after requests) :=
  keeps_after (fun value deadline hput => hunset value deadline (h key value deadline hput)) s

theorem puts_ofRecord (r : Record) : Puts [r] [.ofRecord r] := by
  intro key value deadline hmem
  cases r with
  | set => cases List.mem_singleton.mp hmem; exact List.mem_singleton_self _
  | delete => cases List.mem_singleton.mp hmem

/-- Requests to take expired entries away. -/
def expiries (now : Millis) (keys : List String) : List Request :=
  keys.map fun key => .removeIfExpired key now

theorem put_not_mem_expiries (now : Millis) (keys : List String) (key value : String)
    (deadline : Deadline) : Request.put key value deadline ∉ expiries now keys := by
  simp [expiries]

theorem puts_expiries (rs : List Record) (now : Millis) (keys : List String) :
    Puts rs (expiries now keys) :=
  fun key value deadline hput => absurd hput (put_not_mem_expiries now keys key value deadline)

theorem keeps_expiries (key : String) (now : Millis) (keys : List String) (s : Shelf) :
    Keeps key s (s.after (expiries now keys)) := keeps_after (put_not_mem_expiries now keys key) s

theorem shelf_removeExpired (now : Millis) (keys : List String) (s : Shelf) :
    (Sweep.removeExpired now keys s).2 = s.after (expiries now keys) := by
  induction keys generalizing s with
  | nil => rfl
  | cons key keys ih => exact ih (s.removeIfExpired key now).2

end Shelf

namespace Replay

open Larder.Shelf

/-- What is asked for by a record that is replayed. -/
theorem restore_eq_after (now : Millis) (s : Shelf) (r : Record) :
    ∃ request, restore now s r = s.after [request] := by
  cases r with
  | set key value deadline =>
    rw [restore]
    split
    · exact ⟨.remove key, rfl⟩
    · exact ⟨.put key value deadline, rfl⟩
  | delete key => exact ⟨.remove key, rfl⟩

theorem restoreAll_eq_after (now : Millis) (s : Shelf) (rs : List Record) :
    ∃ requests, restoreAll now s rs = s.after requests := by
  induction rs generalizing s with
  | nil => exact ⟨[], rfl⟩
  | cons r rs ih =>
    obtain ⟨request, hfirst⟩ := restore_eq_after now s r
    obtain ⟨requests, hrest⟩ := ih (restore now s r)
    rw [restoreAll_cons, hrest, hfirst, ← after_append]
    exact ⟨_, rfl⟩

end Replay

namespace Store

open Larder.Shelf (Follows Request Puts puts_nil puts_expiries expiries)

theorem shelf_slice (sweep : Sweep) (s : Store) (now : Millis) :
    ∃ keys, (sweep.slice s now).2.shelf = s.shelf.after (expiries now keys) := by
  unfold Sweep.slice
  split
  · exact ⟨[], rfl⟩
  · rename_i cursor _
    refine ⟨(s.shelf.expiredSlice cursor sweep.batch now).1, ?_⟩
    rw [← Shelf.shelf_removeExpired]
    dsimp only
    split <;> rfl

theorem shelf_runFrom (now : Millis) (fuel : Nat) (sweep : Sweep) (s : Store) :
    ∃ keys, (Sweep.runFrom now fuel sweep s).2.shelf = s.shelf.after (expiries now keys) := by
  induction fuel generalizing sweep s with
  | zero => exact ⟨[], rfl⟩
  | succ fuel ih =>
    unfold Sweep.runFrom
    split
    · exact ⟨[], rfl⟩
    · obtain ⟨keys, hfirst⟩ := shelf_slice sweep s now
      obtain ⟨keys', hrest⟩ := ih (sweep.slice s now).1 (sweep.slice s now).2
      refine ⟨keys ++ keys', hrest.trans ?_⟩
      rw [hfirst, ← Shelf.after_append, expiries, expiries, expiries, List.map_append]

/-- A call for which no record is written puts nothing on the shelf. -/
theorem requests_of_no_record {s : Store} {m : Medium} {now : Millis} {call : Call}
    (hr : call.record? s now = none) :
    ∃ requests, (s.perform m now call).store.shelf = s.shelf.after requests ∧ Puts [] requests := by
  cases call with
  | set key value ttl =>
    obtain ⟨o, ho⟩ := Call.record?_set_eq_none hr
    simp only [perform, set_of_objection ho]
    exact ⟨[], rfl, puts_nil _⟩
  | delete key =>
    obtain ⟨o, ho⟩ := Call.record?_delete_eq_none hr
    simp only [perform, delete_of_objection ho]
    exact ⟨[], rfl, puts_nil _⟩
  | get key =>
    refine ⟨[.get key now], shelf_get s now key, fun _ _ _ hmem => ?_⟩
    cases List.mem_singleton.mp hmem
  | slice sweep =>
    obtain ⟨keys, hkeys⟩ := shelf_slice sweep s now
    exact ⟨_, hkeys, puts_expiries [] now keys⟩
  | sweep batch =>
    obtain ⟨keys, hkeys⟩ :=
      shelf_runFrom now (s.shelf.recency.slotCount + 1) (.start batch) s
    exact ⟨_, hkeys, puts_expiries [] now keys⟩
  | close =>
    simp only [perform, store_close]
    exact ⟨[], rfl, puts_nil _⟩
  | contains key => exact ⟨[], rfl, puts_nil _⟩
  | stats => exact ⟨[], rfl, puts_nil _⟩

namespace History

/-- What a step asks of the shelf: nothing is put but what a change that is granted stores. -/
theorem requests_of_step (h : History) (e : Event) :
    ∃ requests, (h.step e).store.shelf = h.store.shelf.after requests ∧
      Puts (h.granted? e).toList requests := by
  rw [store_step]
  cases hr : e.call.record? h.store e.now with
  | none =>
    obtain ⟨requests, hshelf, hputs⟩ := requests_of_no_record (m := h.found e) hr
    exact ⟨requests, hshelf, fun _ _ _ hmem => absurd (hputs _ _ _ hmem) List.not_mem_nil⟩
  | some r =>
    have hshelf := shelf_of_record? (m := h.found e) hr
    cases hgranted : (h.store.perform (h.found e) e.now e.call).answer.granted with
    | true =>
      rw [granted?, if_pos hgranted, hr, hshelf, if_pos hgranted, Shelf.change_eq_after]
      exact ⟨_, rfl, Shelf.puts_ofRecord r⟩
    | false =>
      rw [hshelf, hgranted]
      exact ⟨[], rfl, puts_nil _⟩

theorem requests_of_run (h : History) (events : List Event) :
    ∃ requests since, (h.run events).store.shelf = h.store.shelf.after requests ∧
      (h.run events).accepted = h.accepted ++ since ∧ Puts since requests := by
  induction events generalizing h with
  | nil => exact ⟨[], [], rfl, (List.append_nil _).symm, puts_nil _⟩
  | cons e events ih =>
    obtain ⟨first, hfirst, hputs⟩ := h.requests_of_step e
    obtain ⟨rest, since, hrest, haccepted, hothers⟩ := ih (h.step e)
    refine ⟨first ++ rest, (h.granted? e).toList ++ since, ?_, ?_, hputs.append hothers⟩
    · rw [Shelf.after_append, ← hfirst]
      exact hrest
    · rw [← List.append_assoc, ← accepted_step]
      exact haccepted

end History

/-- A store that was loaded from some file and has been in use since, whatever failed on the way. -/
def Reached (s : Store) : Prop :=
  ∃ settings now m recovered m' events,
    Recovery.load settings now m = (.ok recovered, m') ∧
      s = ((History.start recovered.store m').run events).store

/-- A store that was loaded and has been in use since keeps to the room that the settings gave it. -/
theorem exists_requests_of_load {settings : Settings} {now : Millis} {m m' : Medium}
    {recovered : Recovered} (hload : Recovery.load settings now m = (.ok recovered, m'))
    (events : List Event) :
    ∃ requests, ((History.start recovered.store m').run events).store.shelf =
      (Shelf.empty settings.maxEntries).after requests := by
  obtain ⟨w, -, hstore⟩ := Recovery.load_ok hload
  obtain ⟨first, hfirst⟩ := Replay.restoreAll_eq_after now (.empty settings.maxEntries)
    (Replay.records (Journal.items m.bytes))
  obtain ⟨rest, -, hrest, -, -⟩ := (History.start recovered.store m').requests_of_run events
  refine ⟨first ++ rest, ?_⟩
  rw [hrest, History.start, hstore, Shelf.after_append, ← hfirst]
  rfl

theorem Reached.exists_requests {s : Store} (h : s.Reached) :
    ∃ capacity requests, s.shelf = (Shelf.empty capacity).after requests := by
  obtain ⟨settings, now, m, recovered, m', events, hload, rfl⟩ := h
  exact ⟨settings.maxEntries, exists_requests_of_load hload events⟩

theorem Reached.follows {s : Store} (h : s.Reached) :
    ∃ l, Follows s.shelf.capacity s.shelf l := by
  obtain ⟨capacity, requests, hshelf⟩ := h.exists_requests
  obtain ⟨l, hfollows⟩ := (Follows.empty capacity).after requests
  rw [← hshelf] at hfollows
  exact ⟨l, hfollows.capacity_eq.symm ▸ hfollows⟩

theorem Reached.slotCount_le {s : Store} (h : s.Reached) :
    s.shelf.recency.slotCount ≤ s.shelf.capacity + 1 := by
  obtain ⟨capacity, requests, hshelf⟩ := h.exists_requests
  obtain ⟨l, hfollows⟩ := (Follows.empty capacity).after requests
  rw [← hshelf] at hfollows
  rw [hfollows.capacity_eq, hshelf]
  exact (Follows.empty capacity).slotCount_after_le (Nat.zero_le _) requests

end Store

end Larder
