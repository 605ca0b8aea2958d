import Larder.Proofs.ShelfRequests

/-! When a sweep is through with an entry that has expired. Entries do not move between slots, so
one that has expired and outlasts a slice stands in a slot that the sweep has still to come to; and
a sweep that has come to all slots leaves nothing behind that had expired. -/

namespace Larder

namespace Shelf

variable {s s' : Shelf} {key : String} {now : Millis} {capacity : Nat} {l l' : Ranking}
  {slot : Slot}

theorem isExpired_of_slot (h : s.slots[key]? = some slot) :
    s.isExpired key now = slot.entry.hasExpired now := by
  rw [isExpired, h]

theorem Keeps.isExpired (h : Keeps key s s') (hexpired : s'.isExpired key now = true) :
    s.isExpired key now = true := by
  rw [Stands.isExpired_eq, Option.any_eq_true] at hexpired ⊢
  obtain ⟨entry, hfind, hexpired⟩ := hexpired
  exact ⟨entry, h.find? hfind, hexpired⟩

theorem find?_remove (s : Shelf) (key : String) : (s.remove key).2.find? key = none := by
  unfold remove
  split
  · rename_i hnone
    rw [find?, hnone]
    rfl
  · rw [find?, Std.HashMap.getElem?_erase_self]
    rfl

theorem isExpired_removeIfExpired (s : Shelf) (key : String) (now : Millis) :
    (s.removeIfExpired key now).2.isExpired key now = false := by
  unfold removeIfExpired
  split
  · rw [Stands.isExpired_eq, find?_remove]
    rfl
  · rename_i hlive
    exact eq_false_of_ne_true hlive

theorem keeps_removeExpired (key : String) (now : Millis) (keys : List String) (s : Shelf) :
    Keeps key s (Sweep.removeExpired now keys s).2 := by
  rw [shelf_removeExpired]
  exact keeps_expiries key now keys s

/-- Of these keys none is left that has expired. -/
theorem isExpired_removeExpired {keys : List String} (h : key ∈ keys) (s : Shelf) :
    (Sweep.removeExpired now keys s).2.isExpired key now = false := by
  induction keys generalizing s with
  | nil => cases h
  | cons first keys ih =>
    rcases List.mem_cons.mp h with rfl | h
    · refine eq_false_of_ne_true fun hexpired => ?_
      have hbefore :=
        (keeps_removeExpired key now keys (s.removeIfExpired key now).2).isExpired hexpired
      rw [isExpired_removeIfExpired] at hbefore
      cases hbefore
    · exact ih h (s.removeIfExpired first now).2

/-- A key stands in one slot. -/
theorem Stands.slot_eq {rows : List Row} (h : s.Stands rows) {i j : Nat}
    (hi : s.recency.get? ⟨i⟩ = some key) (hj : s.recency.get? ⟨j⟩ = some key) : i = j := by
  obtain ⟨row, hrow, hplace⟩ := List.mem_map.mp ((Recency.get?_eq_some_iff h.recency).mp hi)
  obtain ⟨row', hrow', hplace'⟩ := List.mem_map.mp ((Recency.get?_eq_some_iff h.recency).mp hj)
  cases hplace
  have hsame := List.inj_on_of_nodup_map h.nodup hrow hrow' (congrArg Prod.snd hplace').symm
  rw [hsame]
  exact congrArg Prod.fst hplace'

/-- An entry that has expired is found in the stretches that have its slot, and in no others. -/
theorem Follows.mem_expiredSlice_iff (h : Follows capacity s l) (hslot : s.slots[key]? = some slot)
    (cursor limit : Nat) (now : Millis) :
    key ∈ (s.expiredSlice cursor limit now).1 ↔
      cursor ≤ slot.handle.slot ∧ slot.handle.slot < cursor + max limit 1 ∧
        slot.entry.hasExpired now = true := by
  have hhandle := h.consistent.handle key slot hslot
  obtain ⟨rows, hs, -, -, -⟩ := h
  rw [expiredSlice, List.mem_filter, Recency.mem_keysInSlots, isExpired_of_slot hslot]
  constructor
  · rintro ⟨⟨i, hle, hlt, hget⟩, hexpired⟩
    obtain rfl := hs.slot_eq hget hhandle
    exact ⟨hle, hlt, hexpired⟩
  · rintro ⟨hle, hlt, hexpired⟩
    exact ⟨⟨slot.handle.slot, hle, hlt, hhandle⟩, hexpired⟩

theorem Follows.handle_lt (h : Follows capacity s l) (hslot : s.slots[key]? = some slot) :
    slot.handle.slot < s.recency.slotCount := by
  obtain ⟨n, hnode, -⟩ := Option.map_eq_some_iff.mp (h.consistent.handle key slot hslot)
  refine Recency.lt_slotCount_of_isLive ?_
  rw [Recency.isLive, hnode]
  rfl

end Shelf

namespace Sweep

open Larder.Shelf (Follows Keeps Slot expiries)

variable {sweep : Sweep} {s : Store} {now : Millis} {capacity : Nat} {l : Shelf.Ranking}
  {key : String} {slot : Slot}

/-- The sweep has still to come to a slot. -/
def Awaits (sweep : Sweep) (i : Nat) : Prop := ∃ cursor, sweep.cursor = some cursor ∧ cursor ≤ i

theorem awaits_start (batch i : Nat) : (start batch).Awaits i := ⟨0, rfl, Nat.zero_le i⟩

/-- A slice takes away what it finds and goes on behind it. -/
theorem slice_of_cursor {cursor : Nat} (h : sweep.cursor = some cursor) (s : Store)
    (now : Millis) :
    (sweep.slice s now).2.shelf =
        (removeExpired now (s.shelf.expiredSlice cursor sweep.batch now).1 s.shelf).2 ∧
      (sweep.slice s now).1.cursor =
        (if cursor + max sweep.batch 1 < s.shelf.recency.slotCount then
          some (cursor + max sweep.batch 1) else none) := by
  unfold slice
  rw [h]
  dsimp only
  refine ⟨?_, rfl⟩
  split <;> rfl

theorem keeps_slice (key : String) (sweep : Sweep) (s : Store) (now : Millis) :
    Keeps key s.shelf (sweep.slice s now).2.shelf := by
  obtain ⟨keys, hkeys⟩ := Store.shelf_slice sweep s now
  rw [hkeys]
  exact Shelf.keeps_expiries key now keys _

theorem keeps_runFrom (key : String) (now : Millis) (fuel : Nat) (sweep : Sweep) (s : Store) :
    Keeps key s.shelf (runFrom now fuel sweep s).2.shelf := by
  obtain ⟨keys, hkeys⟩ := Store.shelf_runFrom now fuel sweep s
  rw [hkeys]
  exact Shelf.keeps_expiries key now keys _

theorem slotCount_slice (sweep : Sweep) (s : Store) (now : Millis) :
    (sweep.slice s now).2.shelf.recency.slotCount = s.shelf.recency.slotCount := by
  obtain ⟨keys, hkeys⟩ := Store.shelf_slice sweep s now
  rw [hkeys]
  exact Shelf.slotCount_after (Shelf.put_not_mem_expiries now keys) _

/-- What has expired and outlasts a slice is in a slot that is still awaited. -/
theorem Awaits.slice (h : sweep.Awaits slot.handle.slot) (hf : Follows capacity s.shelf l)
    (hslot : (sweep.slice s now).2.shelf.slots[key]? = some slot)
    (hexpired : slot.entry.hasExpired now = true) :
    (sweep.slice s now).1.Awaits slot.handle.slot := by
  obtain ⟨cursor, hcursor, hle⟩ := h
  obtain ⟨hshelf, hnext⟩ := slice_of_cursor hcursor s now
  have hbefore := keeps_slice key sweep s now slot hslot
  have hpast : cursor + max sweep.batch 1 ≤ slot.handle.slot := by
    by_contra hlt
    have hfound := (hf.mem_expiredSlice_iff hbefore cursor sweep.batch now).mpr
      ⟨hle, Nat.lt_of_not_le hlt, hexpired⟩
    have hgone : (removeExpired now _ s.shelf).2.isExpired key now = false :=
      Shelf.isExpired_removeExpired hfound s.shelf
    rw [← hshelf, Shelf.isExpired_of_slot hslot, hexpired] at hgone
    cases hgone
  refine ⟨cursor + max sweep.batch 1, ?_, hpast⟩
  rw [hnext]
  exact if_pos (Nat.lt_of_le_of_lt hpast (hf.handle_lt hbefore))

/-- A sweep with enough turns to come to every slot leaves nothing that has expired in a slot that
it has still to come to. -/
theorem not_awaits_of_runFrom {fuel : Nat} (hf : Follows capacity s.shelf l)
    (hfuel : ∀ cursor, sweep.cursor = some cursor → s.shelf.recency.slotCount < fuel + cursor)
    (hslot : (runFrom now fuel sweep s).2.shelf.slots[key]? = some slot)
    (hexpired : slot.entry.hasExpired now = true) : ¬ sweep.Awaits slot.handle.slot := by
  induction fuel generalizing sweep s l with
  | zero =>
    rintro ⟨cursor, hcursor, hle⟩
    have hlt := hfuel cursor hcursor
    have := hf.handle_lt hslot
    omega
  | succ fuel ih =>
    rintro ⟨cursor, hcursor, hle⟩
    rw [runFrom, hcursor] at hslot
    dsimp only at hslot
    obtain ⟨l', hnext, -⟩ := Store.slice_sheds hf sweep now
    have hbefore := keeps_runFrom key now fuel _ _ slot hslot
    refine ih hnext (fun next hnextCursor => ?_) hslot (Awaits.slice ⟨cursor, hcursor, hle⟩ hf
      hbefore hexpired)
    rw [(slice_of_cursor hcursor s now).2] at hnextCursor
    obtain ⟨-, hnextCursor⟩ := Option.ite_none_right_eq_some.mp hnextCursor
    cases hnextCursor
    rw [slotCount_slice]
    have := hfuel cursor hcursor
    omega

end Sweep

namespace Store

open Larder.Shelf (Follows)

/-- A sweep that nobody interrupts takes away exactly what has expired. -/
theorem sweep_follows {s : Store} {capacity : Nat} {l : Shelf.Ranking}
    (h : Follows capacity s.shelf l) (now : Millis) (batch : Nat) :
    Follows capacity (s.sweep now batch).2.shelf (l.live now) := by
  obtain ⟨l', hnext, hsheds⟩ :=
    runFrom_sheds h now (s.shelf.recency.slotCount + 1) (.start batch)
  have hlive : ∀ p ∈ l', p.2.hasExpired now = false := by
    rintro ⟨key, entry⟩ hp
    refine eq_false_of_ne_true fun hexpired => ?_
    have hfind := hnext.distinct.lookup_eq_some_iff.mpr hp
    rw [← hnext.find?_eq] at hfind
    obtain ⟨slot, hslot, rfl⟩ := Option.map_eq_some_iff.mp hfind
    refine Sweep.not_awaits_of_runFrom h (fun cursor hcursor => ?_) hslot hexpired
      (Sweep.awaits_start batch _)
    cases hcursor
    omega
  rwa [← Shelf.Ranking.live_eq_self hlive, hsheds.live_eq h.distinct] at hnext

end Store

end Larder
