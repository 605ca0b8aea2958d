import Larder.Proofs.Expiry

/-! A sweep that nobody interrupts is one removal. Its slices go over the slots in their order,
and taking a key away empties its own slot and no other, so behind the cursor every slice finds
what the shelf held there before the sweep began. Cut at whatever places, the slices together
find the same keys in the same order, each once. -/

namespace Larder

namespace Recency

variable {r r' : Recency} {first mid stop : Nat}

theorem keysInSlots_append (r : Recency) (h : first ≤ mid) (h' : mid ≤ stop) :
    r.keysInSlots first mid ++ r.keysInSlots mid stop = r.keysInSlots first stop := by
  simp only [keysInSlots]
  rw [← List.filterMap_append, ← Array.toList_append, Array.extract_append_extract,
    Nat.min_eq_left h, Nat.max_eq_right h']

theorem length_keysInSlots_le (r : Recency) (first stop : Nat) :
    (r.keysInSlots first stop).length ≤ stop - first := by
  rw [keysInSlots_eq]
  refine Nat.le_trans (List.length_filterMap_le _ _) ?_
  rw [List.length_range']
  omega

/-- There is nothing behind the last slot. -/
theorem keysInSlots_of_le (h : r.slotCount ≤ stop) :
    r.keysInSlots first stop = r.keysInSlots first r.slotCount := by
  rw [keysInSlots_eq, keysInSlots_eq, Nat.min_eq_right h, Nat.min_self]

theorem keysInSlots_congr (hcount : r'.slotCount = r.slotCount)
    (h : ∀ i, first ≤ i → r'.get? ⟨i⟩ = r.get? ⟨i⟩) :
    r'.keysInSlots first stop = r.keysInSlots first stop := by
  rw [keysInSlots_eq, keysInSlots_eq, hcount]
  refine List.filterMap_congr fun i hi => ?_
  exact h i (List.mem_range'_1.mp hi).1

end Recency

namespace Shelf

variable {s : Shelf} {capacity : Nat} {l : Ranking} {key other : String} {now : Millis}
  {keys : List String} {first mid stop : Nat}

/-- The keys in a stretch of slots that have expired. -/
def expiredIn (s : Shelf) (now : Millis) (first stop : Nat) : List String :=
  (s.recency.keysInSlots first stop).filter fun key => s.isExpired key now

theorem expiredIn_append (s : Shelf) (now : Millis) (h : first ≤ mid) (h' : mid ≤ stop) :
    s.expiredIn now first mid ++ s.expiredIn now mid stop = s.expiredIn now first stop := by
  rw [expiredIn, expiredIn, ← List.filter_append, s.recency.keysInSlots_append h h', expiredIn]

theorem expiredIn_of_le (h : s.recency.slotCount ≤ stop) :
    s.expiredIn now first stop = s.expiredIn now first s.recency.slotCount := by
  rw [expiredIn, Recency.keysInSlots_of_le h, expiredIn]

theorem Stands.get?_remove {rows : List Row} (h : s.Stands rows) {i : Nat}
    (hi : ∀ slot, s.slots[key]? = some slot → slot.handle.slot ≠ i) :
    (s.remove key).2.recency.get? ⟨i⟩ = s.recency.get? ⟨i⟩ := by
  rcases h.find key with ⟨hnone, -⟩ | ⟨as, row, bs, rfl, rfl, hslot⟩
  · rw [remove_of_none hnone]
  · have hnext := h.remove_spec.2.1
    have hne : row.slot ≠ i := hi _ hslot
    refine Option.ext fun k => ?_
    rw [Recency.get?_eq_some_iff hnext.recency, Recency.get?_eq_some_iff h.recency,
      places_middle, List.map_append]
    simp [hne.symm]

theorem getElem?_remove (h : other ≠ key) (s : Shelf) :
    (s.remove other).2.slots[key]? = s.slots[key]? := by
  unfold remove
  split
  · rfl
  · rw [Std.HashMap.getElem?_erase, if_neg (fun heq => h (beq_iff_eq.mp heq))]

theorem getElem?_expiries (h : key ∉ keys) (s : Shelf) :
    (s.after (expiries now keys)).slots[key]? = s.slots[key]? := by
  induction keys generalizing s with
  | nil => rfl
  | cons first keys ih =>
    rw [List.mem_cons, not_or] at h
    refine (ih h.2 (s.removeIfExpired first now).2).trans ?_
    unfold removeIfExpired
    split
    · exact getElem?_remove (Ne.symm h.1) s
    · rfl

theorem isExpired_expiries (h : key ∉ keys) (s : Shelf) :
    (s.after (expiries now keys)).isExpired key now = s.isExpired key now := by
  rw [isExpired, getElem?_expiries h, isExpired]

/-- Slots of other keys stay as they are. -/
theorem Follows.get?_expiries (h : Follows capacity s l) {i : Nat}
    (hi : ∀ key ∈ keys, ∀ slot, s.slots[key]? = some slot → slot.handle.slot ≠ i) :
    (s.after (expiries now keys)).recency.get? ⟨i⟩ = s.recency.get? ⟨i⟩ := by
  induction keys generalizing s l with
  | nil => rfl
  | cons first keys ih =>
    have hfirst : (s.removeIfExpired first now).2.recency.get? ⟨i⟩ = s.recency.get? ⟨i⟩ := by
      obtain ⟨rows, hs, -, -, -⟩ := h
      unfold Shelf.removeIfExpired
      split
      · exact hs.get?_remove (hi first List.mem_cons_self)
      · rfl
    refine Eq.trans (ih (h.removeIfExpired first now).2 fun key hkey slot hslot => ?_) hfirst
    exact hi key (List.mem_cons_of_mem _ hkey) slot
      (keeps_removeIfExpired key first now s slot hslot)

/-- The key in a slot is found there by the map. -/
theorem Follows.exists_slot (h : Follows capacity s l) {i : Nat}
    (hget : s.recency.get? ⟨i⟩ = some key) :
    ∃ slot, s.slots[key]? = some slot ∧ slot.handle.slot = i := by
  obtain ⟨rows, hs, -, -, -⟩ := h
  obtain ⟨row, hrow, hplace⟩ := List.mem_map.mp ((Recency.get?_eq_some_iff hs.recency).mp hget)
  cases hplace
  exact ⟨row.held, (hs.slots _ _).mpr ⟨row, hrow, rfl, rfl⟩, rfl⟩

theorem Follows.slot_of_mem_keysInSlots (h : Follows capacity s l)
    (hkey : key ∈ s.recency.keysInSlots first stop) :
    ∃ slot, s.slots[key]? = some slot ∧ first ≤ slot.handle.slot ∧ slot.handle.slot < stop := by
  obtain ⟨i, hfirst, hstop, hget⟩ := Recency.mem_keysInSlots.mp hkey
  obtain ⟨slot, hslot, rfl⟩ := h.exists_slot hget
  exact ⟨slot, hslot, hfirst, hstop⟩

theorem Follows.nodup_keysInSlots (h : Follows capacity s l) (first stop : Nat) :
    (s.recency.keysInSlots first stop).Nodup := by
  rw [Recency.keysInSlots_eq]
  refine List.Nodup.filterMap (fun i j key hi hj => ?_) List.nodup_range'
  obtain ⟨slot, hslot, rfl⟩ := h.exists_slot hi
  obtain ⟨slot', hslot', rfl⟩ := h.exists_slot hj
  rw [hslot] at hslot'
  rw [Option.some.inj hslot']

theorem Follows.nodup_expiredIn (h : Follows capacity s l) (now : Millis) (first stop : Nat) :
    (s.expiredIn now first stop).Nodup := (h.nodup_keysInSlots first stop).filter _

/-- All slots together hold the expired keys there are. -/
theorem Follows.expiredIn_perm (h : Follows capacity s l) (now : Millis) :
    (s.expiredIn now 0 s.recency.slotCount).Perm (s.expiredKeys now) := by
  have hnodup : (s.expiredKeys now).Nodup := h.consistent.nodup.filter _
  rw [List.perm_ext_iff_of_nodup (h.nodup_expiredIn now _ _) hnodup]
  intro key
  rw [expiredIn, Shelf.expiredKeys, List.mem_filter, List.mem_filter, ← h.consistent.mem_iff]
  refine and_congr_left fun _ => ⟨fun hkey => ?_, fun hkey => ?_⟩
  · obtain ⟨slot, hslot, -⟩ := h.slot_of_mem_keysInSlots hkey
    rw [Std.HashMap.mem_iff_isSome_getElem?, hslot]
    rfl
  · rw [Std.HashMap.mem_iff_isSome_getElem?, Option.isSome_iff_exists] at hkey
    obtain ⟨slot, hslot⟩ := hkey
    rw [Recency.mem_keysInSlots]
    exact ⟨slot.handle.slot, Nat.zero_le _, h.handle_lt hslot, h.consistent.handle key slot hslot⟩

/-- What is found behind the slots that have been cleared is what was there before. -/
theorem Follows.expiredIn_expiries (h : Follows capacity s l) (now : Millis) (cursor stop : Nat) :
    (s.after (expiries now (s.expiredIn now 0 cursor))).expiredIn now cursor stop =
      s.expiredIn now cursor stop := by
  have hbefore : ∀ key ∈ s.expiredIn now 0 cursor, ∀ slot, s.slots[key]? = some slot →
      slot.handle.slot < cursor := by
    intro key hkey slot hslot
    obtain ⟨slot', hslot', -, hlt⟩ := h.slot_of_mem_keysInSlots (List.mem_filter.mp hkey).1
    rw [hslot] at hslot'
    rwa [Option.some.inj hslot']
  have hkeys : (s.after (expiries now (s.expiredIn now 0 cursor))).recency.keysInSlots cursor stop =
      s.recency.keysInSlots cursor stop := by
    refine Recency.keysInSlots_congr (slotCount_after (put_not_mem_expiries now _) s) fun i hi => ?_
    refine h.get?_expiries fun key hkey slot hslot => ?_
    have := hbefore key hkey slot hslot
    omega
  generalize s.expiredIn now 0 cursor = cleared at *
  rw [expiredIn, expiredIn, hkeys]
  refine List.filter_congr fun key hkey => isExpired_expiries (fun hmem => ?_) s
  obtain ⟨slot, hslot, hle, -⟩ := h.slot_of_mem_keysInSlots hkey
  have := hbefore key hmem slot hslot
  omega

/-- Taking away keys that have all expired, each once, counts them all. -/
theorem removed_removeExpired (hnodup : keys.Nodup) (h : ∀ key ∈ keys, s.isExpired key now = true) :
    (Sweep.removeExpired now keys s).1 = keys.length := by
  induction keys generalizing s with
  | nil => rfl
  | cons first keys ih =>
    obtain ⟨hnew, hnodup⟩ := List.nodup_cons.mp hnodup
    have hfirst := h first List.mem_cons_self
    have hrest : ∀ key ∈ keys, (s.removeIfExpired first now).2.isExpired key now = true := by
      intro key hkey
      have hne : first ≠ key := fun heq => hnew (heq ▸ hkey)
      rw [removeIfExpired, if_pos hfirst, isExpired, getElem?_remove hne, ← isExpired]
      exact h key (List.mem_cons_of_mem _ hkey)
    have hgone : (s.removeIfExpired first now).1 = true := by
      rw [removeIfExpired, if_pos hfirst]
      obtain ⟨slot, hslot⟩ := Option.isSome_iff_exists.mp
        (Std.HashMap.mem_iff_isSome_getElem?.mp (mem_of_isExpired hfirst))
      unfold remove
      rw [hslot]
    rw [Sweep.removeExpired]
    dsimp only
    rw [hgone, ih hnodup hrest, if_pos rfl, List.length_cons]

theorem expiredSlice_eq (s : Shelf) (cursor limit : Nat) (now : Millis) :
    s.expiredSlice cursor limit now =
      (s.expiredIn now cursor (cursor + max limit 1),
        if cursor + max limit 1 < s.recency.slotCount then some (cursor + max limit 1) else none) :=
  rfl

theorem lt_of_expiredSlice {cursor limit next : Nat}
    (h : (s.expiredSlice cursor limit now).2 = some next) :
    cursor < next ∧ next < s.recency.slotCount := by
  rw [expiredSlice_eq, Option.ite_none_right_eq_some, Option.some.injEq] at h
  omega

/-- The slices from a cursor on, one after the other, of a shelf that stays as it is. Each begins
where the one before it said. -/
def slicesFrom (s : Shelf) (limit : Nat) (now : Millis) (cursor : Nat) : List (List String) :=
  (s.expiredSlice cursor limit now).1 ::
    match _ : (s.expiredSlice cursor limit now).2 with
    | some next => s.slicesFrom limit now next
    | none => []
  termination_by s.recency.slotCount - cursor
  decreasing_by
    have := lt_of_expiredSlice ‹_›
    omega

theorem slicesFrom_eq (s : Shelf) (limit : Nat) (now : Millis) (cursor : Nat) :
    s.slicesFrom limit now cursor = s.expiredIn now cursor (cursor + max limit 1) ::
      if cursor + max limit 1 < s.recency.slotCount then
        s.slicesFrom limit now (cursor + max limit 1)
      else [] := by
  rw [slicesFrom]
  refine congrArg (_ :: ·) ?_
  split
  · rename_i next h
    rw [expiredSlice_eq, Option.ite_none_right_eq_some, Option.some.injEq] at h
    rw [if_pos h.1, h.2]
  · rename_i h
    rw [expiredSlice_eq, ite_eq_right_iff] at h
    rw [if_neg fun hlt => by cases h hlt]

/-- Cut into slices of whatever length, the rest of the slots holds the same keys. -/
theorem flatten_slicesFrom (s : Shelf) (limit : Nat) (now : Millis) (cursor : Nat) :
    (s.slicesFrom limit now cursor).flatten =
      s.expiredIn now cursor (max cursor s.recency.slotCount) := by
  induction cursor using slicesFrom.induct s limit now with
  | case1 cursor ih =>
    rw [slicesFrom_eq, List.flatten_cons]
    split
    · rename_i hmore
      rw [ih _ (if_pos hmore), Nat.max_eq_right (Nat.le_of_lt hmore),
        s.expiredIn_append now (Nat.le_add_right _ _) (Nat.le_of_lt hmore),
        Nat.max_eq_right (by omega)]
    · rename_i hlast
      rw [List.flatten_nil, List.append_nil, expiredIn_of_le (Nat.le_of_not_lt hlast),
        expiredIn_of_le (Nat.le_max_right _ _)]

theorem length_le_of_mem_slicesFrom {limit cursor : Nat}
    (h : keys ∈ s.slicesFrom limit now cursor) : keys.length ≤ max limit 1 := by
  induction cursor using slicesFrom.induct s limit now with
  | case1 cursor ih =>
    rw [slicesFrom_eq, List.mem_cons] at h
    rcases h with rfl | h
    · have hlength := s.recency.length_keysInSlots_le cursor (cursor + max limit 1)
      rw [Nat.add_sub_cancel_left] at hlength
      exact Nat.le_trans (List.length_filter_le _ _) hlength
    · split at h
      · rename_i hmore
        exact ih _ (if_pos hmore) h
      · cases h

/-- A stretch that ends where numbers end holds the same keys and is followed by the same one, as
long as numbers reach the last slot. -/
theorem expiredSlice_min {bound : Nat} (h : s.recency.slotCount ≤ bound) (cursor limit : Nat)
    (now : Millis) :
    let stop := min (cursor + max limit 1) bound
    s.expiredSlice cursor limit now =
      (s.expiredIn now cursor stop, if stop < s.recency.slotCount then some stop else none) := by
  intro stop
  rw [expiredSlice_eq]
  rcases Nat.le_total (cursor + max limit 1) bound with hle | hle
  · rw [show stop = cursor + max limit 1 from Nat.min_eq_left hle]
  · rw [show stop = bound from Nat.min_eq_right hle, if_neg (by omega), if_neg (by omega),
      expiredIn_of_le (Nat.le_trans h hle), expiredIn_of_le h]

end Shelf

namespace Store

open Larder.Shelf (Follows expiries)

variable {s : Store} {capacity : Nat} {l : Shelf.Ranking} {now : Millis}

/-- The store once these keys have been taken off the shelf, all of them at once. -/
def without (s : Store) (now : Millis) (keys : List String) : Store :=
  if keys = [] then s
  else recount { s with
    shelf := s.shelf.after (expiries now keys)
    counters := s.counters.expire keys.length }

theorem shelf_without (s : Store) (now : Millis) (keys : List String) :
    (s.without now keys).shelf = s.shelf.after (expiries now keys) := by
  unfold without
  split
  · rename_i h
    rw [h]
    rfl
  · rfl

theorem expirations_without (s : Store) (now : Millis) (keys : List String) :
    (s.without now keys).counters.expirations = s.counters.expirations + keys.length := by
  unfold without
  split
  · rename_i h
    rw [h]
    rfl
  · rfl

theorem without_nil (s : Store) (now : Millis) : s.without now [] = s := if_pos rfl

theorem without_append (s : Store) (now : Millis) (as bs : List String) :
    (s.without now as).without now bs = s.without now (as ++ bs) := by
  have hshelf := shelf_without s now as
  have hboth : (s.without now as).shelf.after (expiries now bs) =
      s.shelf.after (expiries now (as ++ bs)) := by
    rw [hshelf, ← Shelf.after_append, expiries, expiries, expiries, List.map_append]
  by_cases hb : bs = []
  · rw [hb, List.append_nil, without_nil]
  by_cases ha : as = []
  · rw [ha, List.nil_append, without_nil]
  have hab : as ++ bs ≠ [] := by simp [ha]
  rw [without, if_neg hb, hboth, without, if_neg ha, without, if_neg hab]
  simp only [recount, Counters.expire, Counters.hold, List.length_append, Nat.add_assoc]

/-- A slice takes away at once what has expired in its stretch. -/
theorem slice_eq_without (hf : Follows capacity s.shelf l) (batch cursor removed : Nat) :
    let found := s.shelf.expiredIn now cursor (cursor + max batch 1)
    Sweep.slice ⟨batch, some cursor, removed⟩ s now =
      (⟨batch, if cursor + max batch 1 < s.shelf.recency.slotCount then
          some (cursor + max batch 1) else none, removed + found.length⟩,
        s.without now found) := by
  intro found
  have hcount : (Sweep.removeExpired now found s.shelf).1 = found.length :=
    Shelf.removed_removeExpired (hf.nodup_expiredIn now _ _) fun key hkey =>
      (List.mem_filter.mp hkey).2
  have hshelf := Shelf.shelf_removeExpired now found s.shelf
  unfold Sweep.slice
  dsimp only
  rw [Shelf.expiredSlice_eq]
  dsimp only
  rw [hcount, hshelf, without]
  by_cases hfound : found = []
  · rw [hfound]
    rfl
  · have hlength : found.length ≠ 0 := fun h => hfound (List.length_eq_zero_iff.mp h)
    rw [if_neg hfound, if_neg hlength]

theorem runFrom_of_none (now : Millis) (fuel batch removed : Nat) (s : Store) :
    Sweep.runFrom now fuel ⟨batch, none, removed⟩ s = (removed, s) := by
  cases fuel <;> rfl

/-- A sweep that has taken away what had expired in front of its cursor goes on to take away the
rest, whatever its batch is. -/
theorem runFrom_without (hf : Follows capacity s.shelf l) {fuel batch cursor : Nat}
    (hfuel : s.shelf.recency.slotCount < fuel + cursor) :
    let cleared := s.shelf.expiredIn now 0 cursor
    let expired := s.shelf.expiredIn now 0 s.shelf.recency.slotCount
    Sweep.runFrom now fuel ⟨batch, some cursor, cleared.length⟩ (s.without now cleared) =
      (expired.length, s.without now expired) := by
  induction fuel generalizing cursor with
  | zero =>
    intro cleared expired
    have hall : cleared = expired := Shelf.expiredIn_of_le (by omega)
    rw [hall]
    rfl
  | succ fuel ih =>
    intro cleared expired
    have hshelf := shelf_without s now cleared
    obtain ⟨l', hnext⟩ := hf.after (expiries now cleared)
    rw [← hshelf] at hnext
    have hslice : Sweep.slice ⟨batch, some cursor, cleared.length⟩ (s.without now cleared) now =
        _ := slice_eq_without hnext batch cursor cleared.length
    have hslots : (s.without now cleared).shelf.recency.slotCount = s.shelf.recency.slotCount := by
      rw [hshelf]
      exact Shelf.slotCount_after (Shelf.put_not_mem_expiries now cleared) _
    have hfound : (s.without now cleared).shelf.expiredIn now cursor (cursor + max batch 1) =
        s.shelf.expiredIn now cursor (cursor + max batch 1) := by
      rw [hshelf]
      exact hf.expiredIn_expiries now cursor _
    have happend := s.shelf.expiredIn_append now (Nat.zero_le cursor)
      (Nat.le_add_right cursor (max batch 1))
    rw [hslots, hfound, ← List.length_append, without_append, happend] at hslice
    rw [Sweep.runFrom]
    dsimp only
    rw [hslice]
    dsimp only
    split
    · exact ih (by omega)
    · rename_i hlast
      rw [runFrom_of_none, Shelf.expiredIn_of_le (Nat.le_of_not_lt hlast)]

theorem sweep_eq_without (hf : Follows capacity s.shelf l) (now : Millis) (batch : Nat) :
    let expired := s.shelf.expiredIn now 0 s.shelf.recency.slotCount
    s.sweep now batch = (expired.length, s.without now expired) := by
  have hnone : s.shelf.expiredIn now 0 0 = [] := by
    rw [Shelf.expiredIn, List.length_eq_zero_iff.mp (Nat.le_zero.mp
      (s.shelf.recency.length_keysInSlots_le 0 0))]
    rfl
  have hrun : Sweep.runFrom now (s.shelf.recency.slotCount + 1) ⟨max batch 1, some 0, _⟩
      (s.without now (s.shelf.expiredIn now 0 0)) = _ := runFrom_without hf (by omega)
  rw [hnone, without_nil] at hrun
  exact hrun

theorem find?_sweep (hf : Follows capacity s.shelf l) (now : Millis) (batch : Nat) (key : String) :
    (s.sweep now batch).2.shelf.find? key =
      if key ∈ s.shelf.expiredKeys now then none else s.shelf.find? key := by
  rw [(sweep_follows hf now batch).find?_eq, Shelf.Ranking.lookup_live hf.distinct, ← hf.peek?_eq]
  cases hfind : s.shelf.find? key with
  | none =>
    rw [Shelf.peek?, hfind, ite_self]
    rfl
  | some entry =>
    rw [Shelf.peek?_of_find? hfind]
    exact if_congr (Shelf.mem_expiredKeys_iff hf hfind now).symm rfl rfl

theorem keysByRecency_sweep (hf : Follows capacity s.shelf l) (now : Millis) (batch : Nat) :
    (s.sweep now batch).2.shelf.keysByRecency =
      s.shelf.keysByRecency.filter fun key => decide (key ∉ s.shelf.expiredKeys now) := by
  rw [(sweep_follows hf now batch).keysByRecency_eq, hf.keysByRecency_eq, List.filter_map,
    Shelf.Ranking.live]
  refine congrArg (List.map Prod.fst) (List.filter_congr fun p hp => ?_)
  have hfind : s.shelf.find? p.1 = some p.2 := by
    rw [hf.find?_eq, hf.distinct.lookup_eq_some_iff]
    exact hp
  rw [Function.comp_apply, decide_not, ← Bool.decide_coe (p.2.hasExpired now)]
  exact congrArg not (decide_eq_decide.mpr (Shelf.mem_expiredKeys_iff hf hfind now).symm)

/-- A sweep that nobody interrupts removes the expired keys and nothing else and counts them; the
number of slots it looks through at a time does not matter. It is one removal of the keys of all
slices of the shelf as it was. Whatever their limit, those slices hold each expired key once and
have no more keys than they may, and nothing changes where a slice would end behind the last
number there is. -/
theorem sweep_at_once {s : Store} (hs : s.Reached) (now : Millis) (batch : Nat) :
    let expired := s.shelf.expiredKeys now
    let o := s.sweep now batch
    o.1 = expired.length ∧
      o.2.counters.expirations = s.counters.expirations + expired.length ∧
      (∀ key, o.2.shelf.find? key = if key ∈ expired then none else s.shelf.find? key) ∧
      o.2.shelf.keysByRecency =
        s.shelf.keysByRecency.filter (fun key => decide (key ∉ expired)) ∧
      (∀ batch', s.sweep now batch' = o) ∧
      ∀ limit,
        let slices := s.shelf.slicesFrom limit now 0
        o.2 = s.without now slices.flatten ∧ slices.flatten.Perm expired ∧
          slices.flatten.Nodup ∧ (∀ keys ∈ slices, keys.length ≤ max limit 1) ∧
          ∀ bound cursor, s.shelf.recency.slotCount ≤ bound →
            let stop := min (cursor + max limit 1) bound
            s.shelf.expiredSlice cursor limit now =
              (s.shelf.expiredIn now cursor stop,
                if stop < s.shelf.recency.slotCount then some stop else none) := by
  intro expired o
  obtain ⟨l, hf⟩ := hs.follows
  have hperm := hf.expiredIn_perm now
  have hsweep : ∀ batch, s.sweep now batch = _ := sweep_eq_without hf now
  have ho : o = _ := hsweep batch
  refine ⟨?_, ?_, find?_sweep hf now batch, keysByRecency_sweep hf now batch, ?_, fun limit => ?_⟩
  · rw [ho]
    exact hperm.length_eq
  · rw [ho]
    refine (expirations_without s now _).trans ?_
    rw [hperm.length_eq]
  · exact fun batch' => (hsweep batch').trans ho.symm
  · have hall := s.shelf.flatten_slicesFrom limit now 0
    rw [Nat.max_eq_right (Nat.zero_le _)] at hall
    intro slices
    have hlength : ∀ keys ∈ slices, keys.length ≤ max limit 1 :=
      fun keys hkeys => Shelf.length_le_of_mem_slicesFrom hkeys
    refine ⟨?_, ?_, ?_, hlength, fun bound cursor hbound => ?_⟩
    · rw [ho, hall]
    · rw [hall]
      exact hperm
    · rw [hall]
      exact hf.nodup_expiredIn now _ _
    · exact Shelf.expiredSlice_min hbound cursor limit now

/-- Three entries, of which the second has been deleted and has left its slot empty; the
others have expired. -/
theorem sweep_at_once_over_hole :
    let settings : Settings := { Settings.default with maxEntries := 3 }
    let begun : History := .start (.ofShelf (.empty 3) ⟨0, false⟩ settings) ⟨[], .clear⟩
    let s := (begun.run [⟨.set "a" "1" (some (.ofMillis 10)), 3, .clear⟩,
      ⟨.set "b" "2" none, 3, .clear⟩, ⟨.set "c" "3" (some (.ofMillis 10)), 3, .clear⟩,
      ⟨.delete "b", 3, .clear⟩]).store
    s.Reached ∧ s.shelf.expiredKeys 13 = ["c", "a"] ∧
      (s.sweep 13 0).1 = 2 ∧ (s.sweep 13 0).2.shelf.keysByRecency = [] ∧
      s.sweep 13 18446744073709551615 = s.sweep 13 0 ∧
      (s.shelf.slicesFrom 2 13 0).flatten.Perm ["c", "a"] := by
  intro settings begun s
  have hs : s.Reached :=
    ⟨settings, 3, ⟨[], .clear⟩, _, _, _, Recovery.load_nil settings 3 .clear, rfl⟩
  have hone := History.follows_granted (h := begun)
    (e := ⟨.set "a" "1" (some (.ofMillis 10)), 3, .clear⟩) (r := .set "a" "1" (some 13))
    (Follows.empty 3) (by decide +kernel)
  have htwo := History.follows_granted (e := ⟨.set "b" "2" none, 3, .clear⟩)
    (r := .set "b" "2" none) hone (by decide +kernel)
  have hthree := History.follows_granted (e := ⟨.set "c" "3" (some (.ofMillis 10)), 3, .clear⟩)
    (r := .set "c" "3" (some 13)) htwo (by decide +kernel)
  have hfour := History.follows_granted (e := ⟨.delete "b", 3, .clear⟩) (r := .delete "b") hthree
    (by decide +kernel)
  have hf : Follows 3 s.shelf [("c", ⟨"3", some 13⟩), ("a", ⟨"1", some 13⟩)] := by
    simp only [s, History.run, List.foldl]
    exact hfour
  have hexpired : s.shelf.expiredKeys 13 = ["c", "a"] := hf.expiredKeys_eq 13
  have hkeys : s.shelf.keysByRecency = ["c", "a"] := hf.keysByRecency_eq
  obtain ⟨hcount, -, -, horder, hsame, hslices⟩ := sweep_at_once hs 13 0
  clear_value s
  rw [hexpired] at hcount horder hslices
  refine ⟨hs, hexpired, hcount, ?_, hsame _, (hslices 2).2.1⟩
  rw [horder, hkeys]
  rfl

end Store

end Larder
