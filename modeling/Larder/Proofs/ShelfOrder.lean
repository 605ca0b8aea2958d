import Std.Data.HashMap.Lemmas
import Larder.Shelf
import Larder.Proofs.Arena

/-! A shelf gives the answers of a plain list of entries, the one used last first. Its map and
its arena stand for one list of rows: the arena has their slots and keys in order, the map finds
each of them by its key, and no key has two rows. Every request does to the rows what it does to
the list. -/

namespace Larder.Shelf

/-- Entries by their keys, the one used last first. -/
abbrev Ranking := List (String × Entry)

namespace Ranking

def without (l : Ranking) (key : String) : Ranking := l.filter fun p => p.1 ≠ key

/-- The entry goes to the front, and as many as there are too many leave at the back; the answer
are their keys, the one used longest ago first. -/
def put (capacity : Nat) (l : Ranking) (key value : String) (deadline : Deadline) :
    List String × Ranking :=
  let l := (key, ⟨value, deadline⟩) :: l.without key
  ((l.drop capacity).reverse.map Prod.fst, l.take capacity)

def get (l : Ranking) (key : String) (now : Millis) : Lookup × Ranking :=
  match l.lookup key with
  | none => (.miss, l)
  | some e =>
    if e.hasExpired now then (.expired, l.without key)
    else (.hit e.value, (key, e) :: l.without key)

def peek? (l : Ranking) (key : String) (now : Millis) : Option Entry :=
  (l.lookup key).filter fun e => !e.hasExpired now

def remove (l : Ranking) (key : String) : Bool × Ranking :=
  ((l.lookup key).isSome, l.without key)

def removeIfExpired (l : Ranking) (key : String) (now : Millis) : Bool × Ranking :=
  if (l.lookup key).any fun e => e.hasExpired now then (true, l.without key) else (false, l)

def expiredKeys (l : Ranking) (now : Millis) : List String :=
  (l.filter fun p => p.2.hasExpired now).map Prod.fst

end Ranking

/-- What a shelf can be asked for. -/
inductive Request
  | put (key value : String) (deadline : Deadline)
  | get (key : String) (now : Millis)
  | peek (key : String) (now : Millis)
  | remove (key : String)
  | removeIfExpired (key : String) (now : Millis)
  | expiredKeys (now : Millis)
  | keysByRecency

inductive Response
  | keys (keys : List String)
  | found (lookup : Lookup)
  | entry (entry : Option Entry)
  | removed (removed : Bool)

def serve (s : Shelf) : Request → Response × Shelf
  | .put key value deadline => let (gone, s) := s.put key value deadline; (.keys gone, s)
  | .get key now => let (lookup, s) := s.get key now; (.found lookup, s)
  | .peek key now => (.entry (s.peek? key now), s)
  | .remove key => let (removed, s) := s.remove key; (.removed removed, s)
  | .removeIfExpired key now =>
    let (removed, s) := s.removeIfExpired key now; (.removed removed, s)
  | .expiredKeys now => (.keys (s.expiredKeys now), s)
  | .keysByRecency => (.keys s.keysByRecency, s)

def Ranking.serve (capacity : Nat) (l : Ranking) : Request → Response × Ranking
  | .put key value deadline =>
    let (gone, l) := l.put capacity key value deadline; (.keys gone, l)
  | .get key now => let (lookup, l) := l.get key now; (.found lookup, l)
  | .peek key now => (.entry (l.peek? key now), l)
  | .remove key => let (removed, l) := l.remove key; (.removed removed, l)
  | .removeIfExpired key now =>
    let (removed, l) := l.removeIfExpired key now; (.removed removed, l)
  | .expiredKeys now => (.keys (l.expiredKeys now), l)
  | .keysByRecency => (.keys (l.map Prod.fst), l)

/-- All requests, one after the other. -/
def serveAll {State : Type} (serve : State → Request → Response × State) (s : State) :
    List Request → List Response × State
  | [] => ([], s)
  | request :: requests =>
    let (response, s) := serve s request
    let (responses, s) := serveAll serve s requests
    (response :: responses, s)

/-- An entry with its key and the slot the key stands in. -/
structure Row where
  slot : Nat
  key : String
  entry : Entry

namespace Row

def place (row : Row) : Nat × String := (row.slot, row.key)

def ranked (row : Row) : String × Entry := (row.key, row.entry)

def held (row : Row) : Slot := ⟨row.entry, ⟨row.slot⟩⟩

end Row

/-- What rows rank as. -/
def ranking (rows : List Row) : Ranking := rows.map Row.ranked

/-- A shelf's map and arena both stand for the same rows. -/
structure Stands (s : Shelf) (rows : List Row) : Prop where
  recency : s.recency.Holds (rows.map Row.place)
  nodup : (rows.map Row.key).Nodup
  slots : ∀ key slot, s.slots[key]? = some slot ↔ ∃ row ∈ rows, row.key = key ∧ row.held = slot
  size : s.slots.size = rows.length

theorem stands_empty (capacity : Nat) : (empty capacity).Stands [] := by
  refine ⟨Recency.holds_empty, List.nodup_nil, fun key slot => ?_, Std.HashMap.size_empty⟩
  simp [empty]

section Ranking

variable {as bs rows : List Row} {row : Row} {key : String}

theorem map_key_ranking (rows : List Row) : (ranking rows).map Prod.fst = rows.map Row.key := by
  rw [ranking, List.map_map]
  rfl

theorem map_snd_place (rows : List Row) :
    (rows.map Row.place).map Prod.snd = rows.map Row.key := by
  rw [List.map_map]
  rfl

theorem ranking_take (rows : List Row) (n : Nat) :
    ranking (rows.take n) = (ranking rows).take n := List.map_take

theorem map_key_drop (rows : List Row) (n : Nat) :
    ((ranking rows).drop n).reverse.map Prod.fst = (rows.drop n).reverse.map Row.key := by
  rw [ranking, ← List.map_drop, ← List.map_reverse, List.map_map]
  rfl

theorem nodup_keys_middle (h : ((as ++ row :: bs).map Row.key).Nodup) :
    row.key ∉ as.map Row.key ∧ row.key ∉ bs.map Row.key ∧ ((as ++ bs).map Row.key).Nodup := by
  rw [List.map_append, List.map_cons] at h
  obtain ⟨hkey, hrest⟩ := List.nodup_cons.mp (List.nodup_middle.mp h)
  rw [List.mem_append, not_or] at hkey
  rw [List.map_append]
  exact ⟨hkey.1, hkey.2, hrest⟩

theorem without_of_not_mem (h : key ∉ rows.map Row.key) :
    (ranking rows).without key = ranking rows := by
  rw [Ranking.without, List.filter_eq_self]
  rintro p hp
  obtain ⟨row, hrow, rfl⟩ := List.mem_map.mp hp
  rw [decide_eq_true_eq]
  rintro rfl
  exact h (List.mem_map_of_mem hrow)

theorem without_middle (h : ((as ++ row :: bs).map Row.key).Nodup) :
    (ranking (as ++ row :: bs)).without row.key = ranking (as ++ bs) := by
  obtain ⟨ha, hb, -⟩ := nodup_keys_middle h
  have hsplit : ranking (as ++ row :: bs) = ranking as ++ row.ranked :: ranking bs :=
    List.map_append
  have hrow : decide (row.ranked.1 ≠ row.key) = false := by simp [Row.ranked]
  rw [hsplit, Ranking.without, List.filter_append, List.filter_cons, hrow]
  have ha := without_of_not_mem ha
  have hb := without_of_not_mem hb
  rw [Ranking.without] at ha hb
  rw [ha, hb, if_neg Bool.false_ne_true, ranking, ranking, ← List.map_append]
  rfl

theorem lookup_of_not_mem (h : key ∉ rows.map Row.key) : (ranking rows).lookup key = none := by
  rw [List.lookup_eq_none_iff]
  rintro p hp
  obtain ⟨row, hrow, rfl⟩ := List.mem_map.mp hp
  rw [bne_iff_ne]
  rintro rfl
  exact h (List.mem_map_of_mem hrow)

theorem lookup_middle (h : ((as ++ row :: bs).map Row.key).Nodup) :
    (ranking (as ++ row :: bs)).lookup row.key = some row.entry := by
  obtain ⟨ha, -, -⟩ := nodup_keys_middle h
  rw [ranking, List.map_append, List.lookup_append]
  have := lookup_of_not_mem ha
  rw [ranking] at this
  rw [this, Option.none_or, List.map_cons, List.lookup_cons]
  simp [Row.ranked]

end Ranking

namespace Stands

variable {s : Shelf} {as bs rows : List Row} {row : Row} {key : String}

/-- A key has one row, which the map finds, or none. -/
theorem find (h : s.Stands rows) (key : String) :
    (s.slots[key]? = none ∧ key ∉ rows.map Row.key) ∨
      ∃ as row bs, rows = as ++ row :: bs ∧ row.key = key ∧ s.slots[key]? = some row.held := by
  cases hslot : s.slots[key]? with
  | none =>
    refine .inl ⟨rfl, fun hmem => ?_⟩
    obtain ⟨row, hrow, hkey⟩ := List.mem_map.mp hmem
    rw [(h.slots key row.held).mpr ⟨row, hrow, hkey, rfl⟩] at hslot
    cases hslot
  | some slot =>
    obtain ⟨row, hrow, hkey, rfl⟩ := (h.slots key slot).mp hslot
    obtain ⟨as, bs, hrows⟩ := List.append_of_mem hrow
    exact .inr ⟨as, row, bs, hrows, hkey, rfl⟩

theorem mem_middle {r : Row} : r ∈ as ++ row :: bs ↔ r = row ∨ r ∈ as ++ bs := by
  simp [or_left_comm]

theorem places_middle (as bs : List Row) (row : Row) :
    (as ++ row :: bs).map Row.place =
      as.map Row.place ++ (row.slot, row.key) :: bs.map Row.place := List.map_append

/-- Only a row's own key finds it. -/
theorem key_ne (h : s.Stands (as ++ row :: bs)) {r : Row} (hr : r ∈ as ++ bs) : r.key ≠ row.key := by
  obtain ⟨ha, hb, -⟩ := nodup_keys_middle h.nodup
  intro hkey
  rcases List.mem_append.mp hr with hr | hr
  · exact ha (hkey ▸ List.mem_map_of_mem hr)
  · exact hb (hkey ▸ List.mem_map_of_mem hr)

theorem leave (h : s.Stands (as ++ row :: bs)) :
    Stands { s with
      slots := s.slots.erase row.key
      recency := (s.recency.remove ⟨row.slot⟩).2 } (as ++ bs) := by
  have hrecency := h.recency
  rw [places_middle] at hrecency
  have hslot := (h.slots row.key row.held).mpr ⟨row, mem_middle.mpr (.inl rfl), rfl, rfl⟩
  refine ⟨?_, (nodup_keys_middle h.nodup).2.2, fun key slot => ?_, ?_⟩
  · rw [List.map_append]
    exact (Recency.remove_spec hrecency).2
  · rw [Std.HashMap.getElem?_erase]
    by_cases hkey : row.key = key
    · rw [if_pos (beq_iff_eq.mpr hkey)]
      refine ⟨fun h => (by cases h), ?_⟩
      rintro ⟨r, hr, hrkey, -⟩
      exact absurd (hrkey.trans hkey.symm) (h.key_ne hr)
    · rw [if_neg (fun h => hkey (beq_iff_eq.mp h)), h.slots]
      constructor
      · rintro ⟨r, hr, hrkey, hheld⟩
        rcases mem_middle.mp hr with rfl | hr
        · exact absurd hrkey hkey
        · exact ⟨r, hr, hrkey, hheld⟩
      · rintro ⟨r, hr, hrkey, hheld⟩
        exact ⟨r, mem_middle.mpr (.inr hr), hrkey, hheld⟩
  · have hmem : row.key ∈ s.slots := by
      rw [Std.HashMap.mem_iff_isSome_getElem?, hslot]
      rfl
    rw [Std.HashMap.size_erase, if_pos hmem, h.size, List.length_append, List.length_append,
      List.length_cons]
    omega

theorem promote (h : s.Stands (as ++ row :: bs)) :
    Stands { s with recency := (s.recency.touch ⟨row.slot⟩).2 } (row :: (as ++ bs)) := by
  have hrecency := h.recency
  rw [places_middle] at hrecency
  refine ⟨?_, ?_, fun key slot => ?_, ?_⟩
  · rw [List.map_cons, List.map_append]
    exact (Recency.touch_spec hrecency).2
  · have := h.nodup
    rw [List.map_append, List.map_cons] at this
    rw [List.map_cons, List.map_append]
    exact List.nodup_middle.mp this
  · simp only [h.slots, mem_middle, List.mem_cons]
  · rw [h.size, List.length_cons, List.length_append, List.length_append, List.length_cons]
    omega

/-- A row comes to those that have other keys, whether its key was in the map before or not. -/
theorem slots_insert {m : Std.HashMap String Slot} (row : Row)
    (h : ∀ key slot, row.key ≠ key →
      (m[key]? = some slot ↔ ∃ r ∈ rows, r.key = key ∧ r.held = slot))
    (hnew : row.key ∉ rows.map Row.key) (key : String) (slot : Slot) :
    (m.insert row.key row.held)[key]? = some slot ↔
      ∃ r ∈ row :: rows, r.key = key ∧ r.held = slot := by
  rw [Std.HashMap.getElem?_insert]
  by_cases hkey : row.key = key
  · rw [if_pos (beq_iff_eq.mpr hkey)]
    constructor
    · intro heq
      exact ⟨row, List.mem_cons_self, hkey, Option.some.inj heq⟩
    · rintro ⟨r, hr, hrkey, rfl⟩
      rcases List.mem_cons.mp hr with rfl | hr
      · rfl
      · exact absurd (hkey.trans hrkey.symm ▸ List.mem_map_of_mem hr) hnew
  · rw [if_neg (fun h => hkey (beq_iff_eq.mp h)), h key slot hkey]
    constructor
    · rintro ⟨r, hr, hrest⟩
      exact ⟨r, List.mem_cons_of_mem _ hr, hrest⟩
    · rintro ⟨r, hr, hrkey, hheld⟩
      rcases List.mem_cons.mp hr with rfl | hr
      · exact absurd hrkey hkey
      · exact ⟨r, hr, hrkey, hheld⟩

/-- Another entry in the row of the same key. -/
theorem renew (h : s.Stands (row :: rows)) (entry : Entry) :
    Stands { s with slots := s.slots.insert row.key ⟨entry, ⟨row.slot⟩⟩ }
      ({ row with entry } :: rows) := by
  have hslot := (h.slots row.key row.held).mpr ⟨row, List.mem_cons_self, rfl, rfl⟩
  obtain ⟨hnew, -⟩ := List.nodup_cons.mp h.nodup
  refine ⟨h.recency, h.nodup,
    slots_insert { row with entry } (fun key slot hkey => ?_) hnew, ?_⟩
  · rw [h.slots]
    constructor
    · rintro ⟨r, hr, hrkey, hheld⟩
      rcases List.mem_cons.mp hr with rfl | hr
      · exact absurd hrkey hkey
      · exact ⟨r, hr, hrkey, hheld⟩
    · rintro ⟨r, hr, hrest⟩
      exact ⟨r, List.mem_cons_of_mem _ hr, hrest⟩
  · have hmem : row.key ∈ s.slots := by
      rw [Std.HashMap.mem_iff_isSome_getElem?, hslot]
      rfl
    rw [Std.HashMap.size_insert, if_pos hmem, h.size]
    rfl

theorem enter (h : s.Stands rows) (hkey : key ∉ rows.map Row.key) (entry : Entry) :
    Stands { s with
      slots := s.slots.insert key ⟨entry, (s.recency.push key).1⟩
      recency := (s.recency.push key).2 } (⟨(s.recency.push key).1.slot, key, entry⟩ :: rows) := by
  have hnew : key ∉ s.slots := by
    rcases h.find key with ⟨hnone, -⟩ | ⟨as, row, bs, rfl, rfl, -⟩
    · rw [Std.HashMap.mem_iff_isSome_getElem?, hnone]
      exact Bool.false_ne_true
    · simp at hkey
  refine ⟨Recency.push_spec h.recency key, List.nodup_cons.mpr ⟨hkey, h.nodup⟩,
    slots_insert ⟨(s.recency.push key).1.slot, key, entry⟩
      (fun key slot _ => h.slots key slot) hkey, ?_⟩
  rw [Std.HashMap.size_insert, if_neg hnew, h.size]
  rfl

theorem find?_eq (h : s.Stands rows) (key : String) :
    s.find? key = (ranking rows).lookup key := by
  rcases h.find key with ⟨hnone, hkey⟩ | ⟨as, row, bs, rfl, rfl, hslot⟩
  · rw [find?, hnone, lookup_of_not_mem hkey]
    rfl
  · rw [find?, hslot, lookup_middle h.nodup]
    rfl

theorem isExpired_eq (s : Shelf) (key : String) (now : Millis) :
    s.isExpired key now = (s.find? key).any fun e => e.hasExpired now := by
  rw [isExpired, find?]
  cases s.slots[key]? <;> rfl

theorem keysByRecency_eq (h : s.Stands rows) : s.keysByRecency = rows.map Row.key := by
  rw [keysByRecency, Recency.keys_spec h.recency, map_snd_place]

theorem remove_spec (h : s.Stands (as ++ row :: bs)) :
    (s.remove row.key).1 = true ∧ (s.remove row.key).2.Stands (as ++ bs) ∧
      (s.remove row.key).2.capacity = s.capacity := by
  have hslot := (h.slots row.key row.held).mpr ⟨row, mem_middle.mpr (.inl rfl), rfl, rfl⟩
  unfold remove
  rw [hslot]
  exact ⟨rfl, h.leave, rfl⟩

theorem remove_of_none (h : s.slots[key]? = none) : s.remove key = (false, s) := by
  unfold remove
  rw [h]

/-- The keys of the rows there are too many of have left, after some others, and the rest of the
rows is there. -/
structure Trimmed (capacity : Nat) (rows : List Row) (gone : List String)
    (o : List String × Shelf) : Prop where
  gone : o.1 = gone.reverse ++ (rows.drop capacity).reverse.map Row.key
  stands : o.2.Stands (rows.take capacity)
  capacity : o.2.capacity = capacity

theorem trimmed_of_le (h : s.Stands rows) (hle : rows.length ≤ s.capacity) (gone : List String) :
    Trimmed s.capacity rows gone (gone.reverse, s) := by
  refine ⟨?_, ?_, rfl⟩
  · rw [List.drop_eq_nil_of_le hle]
    exact (List.append_nil _).symm
  · rw [List.take_of_length_le hle]
    exact h

theorem Trimmed.concat {capacity : Nat} {gone : List String} {o : List String × Shelf}
    (h : Trimmed capacity rows (row.key :: gone) o) (hle : capacity ≤ rows.length) :
    Trimmed capacity (rows ++ [row]) gone o := by
  refine ⟨?_, ?_, h.capacity⟩
  · rw [h.gone, List.drop_append_of_le_length hle, List.reverse_append, List.reverse_cons]
    simp
  · rw [List.take_append_of_le_length hle]
    exact h.stands

/-- As many rows leave at the back as there are too many. -/
theorem evictFrom_spec {fuel : Nat} (h : s.Stands rows) (hfuel : rows.length ≤ s.capacity + fuel)
    (gone : List String) : Trimmed s.capacity rows gone (evictFrom fuel gone s) := by
  induction fuel generalizing gone s rows with
  | zero => exact trimmed_of_le h hfuel gone
  | succ fuel ih =>
    have hsize : s.size = rows.length := h.size
    unfold evictFrom
    by_cases hlt : s.capacity < s.size
    · rw [if_pos hlt]
      rw [hsize] at hlt
      rcases List.eq_nil_or_concat rows with rfl | ⟨rows, row, rfl⟩
      · exact absurd hlt (Nat.not_lt_zero _)
      · rw [List.concat_eq_append] at *
        rw [List.length_append, List.length_singleton] at hlt hfuel
        have hrecency := h.recency
        rw [places_middle] at hrecency
        have hleave := h.leave
        rw [List.append_nil] at hleave
        have hkey := (Recency.remove_spec hrecency).1
        rw [Recency.evictOldest_eq hrecency]
        generalize s.recency.remove ⟨row.slot⟩ = o at *
        obtain ⟨key, recency⟩ := o
        cases hkey
        exact (ih hleave (Nat.le_of_succ_le_succ hfuel) (row.key :: gone)).concat
          (Nat.le_of_lt_succ hlt)
    · rw [if_neg hlt]
      rw [hsize] at hlt
      exact trimmed_of_le h (Nat.le_of_not_lt hlt) gone

theorem evict_spec (h : s.Stands rows) : Trimmed s.capacity rows [] s.evict :=
  evictFrom_spec h (h.size ▸ Nat.le_add_left _ _) []

theorem put_of_none (h : s.slots[key]? = none) (value : String) (deadline : Deadline) :
    s.put key value deadline = evict { s with
      slots := s.slots.insert key ⟨⟨value, deadline⟩, (s.recency.push key).1⟩
      recency := (s.recency.push key).2 } := by
  unfold put
  rw [h]

theorem put_of_some (h : s.slots[key]? = some row.held) (value : String) (deadline : Deadline) :
    s.put key value deadline = ([], { s with
      slots := s.slots.insert key ⟨⟨value, deadline⟩, ⟨row.slot⟩⟩
      recency := (s.recency.touch ⟨row.slot⟩).2 }) := by
  unfold put
  rw [h]
  rfl

end Stands

/-- A shelf stands for a ranking and keeps to its capacity. -/
def Follows (capacity : Nat) (s : Shelf) (l : Ranking) : Prop :=
  ∃ rows, s.Stands rows ∧ ranking rows = l ∧ rows.length ≤ capacity ∧ s.capacity = capacity

namespace Follows

variable {capacity : Nat} {s : Shelf} {l : Ranking}

theorem empty (capacity : Nat) : Follows capacity (.empty capacity) [] :=
  ⟨[], stands_empty capacity, rfl, Nat.zero_le _, rfl⟩

theorem find?_eq (h : Follows capacity s l) (key : String) : s.find? key = l.lookup key := by
  obtain ⟨rows, hs, rfl, -, -⟩ := h
  exact hs.find?_eq key

theorem put (h : Follows capacity s l) (key value : String) (deadline : Deadline) :
    (s.put key value deadline).1 = (l.put capacity key value deadline).1 ∧
      Follows capacity (s.put key value deadline).2 (l.put capacity key value deadline).2 := by
  obtain ⟨rows, hs, rfl, hle, hcapacity⟩ := h
  rcases hs.find key with ⟨hnone, hkey⟩ | ⟨as, row, bs, rfl, rfl, hslot⟩
  · have htrimmed := (hs.enter hkey ⟨value, deadline⟩).evict_spec
    rw [← Stands.put_of_none hnone] at htrimmed
    generalize hnew : Row.mk (s.recency.push key).1.slot key ⟨value, deadline⟩ = row at htrimmed
    have hranked : (key, (⟨value, deadline⟩ : Entry)) :: ranking rows = ranking (row :: rows) := by
      rw [← hnew]
      rfl
    rw [hcapacity] at htrimmed
    rw [Ranking.put, without_of_not_mem hkey, hranked]
    refine ⟨?_, _, htrimmed.stands, ranking_take _ _, List.length_take_le _ _, htrimmed.capacity⟩
    rw [htrimmed.gone, map_key_drop]
    rfl
  · have hrenewed := hs.promote.renew ⟨value, deadline⟩
    have hranked : (row.key, (⟨value, deadline⟩ : Entry)) :: ranking (as ++ bs) =
      ranking ({ row with entry := ⟨value, deadline⟩ } :: (as ++ bs)) := rfl
    have hlength : ({ row with entry := ⟨value, deadline⟩ } :: (as ++ bs)).length ≤ capacity := by
      simp only [List.length_append, List.length_cons] at hle ⊢
      omega
    rw [Stands.put_of_some hslot, Ranking.put, without_middle hs.nodup, hranked, map_key_drop,
      ← ranking_take, List.drop_eq_nil_of_le hlength, List.take_of_length_le hlength]
    exact ⟨rfl, _, hrenewed, rfl, hlength, hcapacity⟩

theorem remove (h : Follows capacity s l) (key : String) :
    (s.remove key).1 = (l.remove key).1 ∧
      Follows capacity (s.remove key).2 (l.remove key).2 := by
  obtain ⟨rows, hs, rfl, hle, hcapacity⟩ := h
  rcases hs.find key with ⟨hnone, hkey⟩ | ⟨as, row, bs, rfl, rfl, -⟩
  · rw [Stands.remove_of_none hnone, Ranking.remove, lookup_of_not_mem hkey,
      without_of_not_mem hkey]
    exact ⟨rfl, rows, hs, rfl, hle, hcapacity⟩
  · obtain ⟨hgone, hleft, hsame⟩ := hs.remove_spec
    have hlength : (as ++ bs).length ≤ capacity := by
      simp only [List.length_append, List.length_cons] at hle ⊢
      omega
    rw [Ranking.remove, lookup_middle hs.nodup, without_middle hs.nodup]
    exact ⟨hgone, as ++ bs, hleft, rfl, hlength, hsame.trans hcapacity⟩

theorem get (h : Follows capacity s l) (key : String) (now : Millis) :
    (s.get key now).1 = (l.get key now).1 ∧
      Follows capacity (s.get key now).2 (l.get key now).2 := by
  have hremove := (h.remove key).2
  obtain ⟨rows, hs, rfl, hle, hcapacity⟩ := h
  unfold Shelf.get Ranking.get
  rcases hs.find key with ⟨hnone, hkey⟩ | ⟨as, row, bs, rfl, rfl, hslot⟩
  · rw [hnone, lookup_of_not_mem hkey]
    exact ⟨rfl, rows, hs, rfl, hle, hcapacity⟩
  · have hlength : (row :: (as ++ bs)).length ≤ capacity := by
      simp only [List.length_append, List.length_cons] at hle ⊢
      omega
    rw [hslot, lookup_middle hs.nodup]
    dsimp only [Row.held]
    by_cases hexpired : row.entry.hasExpired now = true
    · rw [if_pos hexpired, if_pos hexpired]
      exact ⟨rfl, hremove⟩
    · rw [if_neg hexpired, if_neg hexpired, without_middle hs.nodup]
      exact ⟨rfl, row :: (as ++ bs), hs.promote, rfl, hlength, hcapacity⟩

theorem peek?_eq (h : Follows capacity s l) (key : String) (now : Millis) :
    s.peek? key now = l.peek? key now := by
  rw [Shelf.peek?, Ranking.peek?, h.find?_eq]

theorem removeIfExpired (h : Follows capacity s l) (key : String) (now : Millis) :
    (s.removeIfExpired key now).1 = (l.removeIfExpired key now).1 ∧
      Follows capacity (s.removeIfExpired key now).2 (l.removeIfExpired key now).2 := by
  obtain ⟨hgone, hleft⟩ := h.remove key
  rw [Shelf.removeIfExpired, Ranking.removeIfExpired, Stands.isExpired_eq, h.find?_eq]
  by_cases hexpired : ((l.lookup key).any fun e => e.hasExpired now) = true
  · rw [if_pos hexpired, if_pos hexpired]
    refine ⟨hgone.trans ?_, hleft⟩
    rw [Ranking.remove]
    cases hfind : l.lookup key with
    | none => rw [hfind] at hexpired; cases hexpired
    | some e => rfl
  · rw [if_neg hexpired, if_neg hexpired]
    exact ⟨rfl, h⟩

theorem keysByRecency_eq (h : Follows capacity s l) : s.keysByRecency = l.map Prod.fst := by
  obtain ⟨rows, hs, rfl, -, -⟩ := h
  rw [hs.keysByRecency_eq, map_key_ranking]

theorem expiredKeys_eq (h : Follows capacity s l) (now : Millis) :
    s.expiredKeys now = l.expiredKeys now := by
  obtain ⟨rows, hs, rfl, -, -⟩ := h
  rw [Shelf.expiredKeys, hs.keysByRecency_eq, Ranking.expiredKeys, ranking, List.filter_map,
    List.filter_map, List.map_map]
  have hsame : ∀ row ∈ rows, ((fun key => s.isExpired key now) ∘ Row.key) row =
      ((fun p => p.2.hasExpired now) ∘ Row.ranked) row := by
    intro row hrow
    obtain ⟨as, bs, rfl⟩ := List.append_of_mem hrow
    rw [Function.comp_apply, Stands.isExpired_eq, hs.find?_eq, lookup_middle hs.nodup]
    rfl
  rw [List.filter_congr hsame]
  rfl

theorem serve (h : Follows capacity s l) (request : Request) :
    (s.serve request).1 = (l.serve capacity request).1 ∧
      Follows capacity (s.serve request).2 (l.serve capacity request).2 := by
  cases request with
  | put key value deadline =>
    obtain ⟨hsame, hnext⟩ := h.put key value deadline
    exact ⟨congrArg Response.keys hsame, hnext⟩
  | get key now =>
    obtain ⟨hsame, hnext⟩ := h.get key now
    exact ⟨congrArg Response.found hsame, hnext⟩
  | peek key now => exact ⟨congrArg Response.entry (h.peek?_eq key now), h⟩
  | remove key =>
    obtain ⟨hsame, hnext⟩ := h.remove key
    exact ⟨congrArg Response.removed hsame, hnext⟩
  | removeIfExpired key now =>
    obtain ⟨hsame, hnext⟩ := h.removeIfExpired key now
    exact ⟨congrArg Response.removed hsame, hnext⟩
  | expiredKeys now => exact ⟨congrArg Response.keys (h.expiredKeys_eq now), h⟩
  | keysByRecency => exact ⟨congrArg Response.keys h.keysByRecency_eq, h⟩

theorem serveAll (h : Follows capacity s l) (requests : List Request) :
    (Shelf.serveAll Shelf.serve s requests).1 =
        (Shelf.serveAll (Ranking.serve capacity) l requests).1 ∧
      Follows capacity (Shelf.serveAll Shelf.serve s requests).2
        (Shelf.serveAll (Ranking.serve capacity) l requests).2 := by
  induction requests generalizing s l with
  | nil => exact ⟨rfl, h⟩
  | cons request requests ih =>
    obtain ⟨hsame, hnext⟩ := h.serve request
    obtain ⟨hrest, hlast⟩ := ih hnext
    exact ⟨congrArg₂ List.cons hsame hrest, hlast⟩

end Follows

/-- A shelf's map and its arena have the same keys, each once, every handle names the slot of
its own key, and a look at all entries of the map, in whatever order it has them, finds the same
expired keys as one at the keys of the arena. -/
structure Consistent (s : Shelf) : Prop where
  mem_iff : ∀ key, key ∈ s.slots ↔ key ∈ s.keysByRecency
  handle : ∀ key slot, s.slots[key]? = some slot → s.recency.get? slot.handle = some key
  nodup : s.keysByRecency.Nodup
  size : s.recency.size = s.size
  bound : s.size ≤ s.capacity
  expired : ∀ now, ((s.slots.toList.filter fun p => p.2.entry.hasExpired now).map Prod.fst).Perm
    (s.expiredKeys now)

theorem mem_expired_iff (s : Shelf) (now : Millis) (key : String) :
    key ∈ (s.slots.toList.filter fun p => p.2.entry.hasExpired now).map Prod.fst ↔
      s.isExpired key now = true := by
  rw [isExpired, List.mem_map]
  constructor
  · rintro ⟨⟨key, slot⟩, hmem, rfl⟩
    obtain ⟨hmem, hexpired⟩ := List.mem_filter.mp hmem
    rw [Std.HashMap.mem_toList_iff_getElem?_eq_some] at hmem
    rw [hmem]
    exact hexpired
  · intro hexpired
    cases hslot : s.slots[key]? with
    | none => rw [hslot] at hexpired; cases hexpired
    | some slot =>
      rw [hslot] at hexpired
      have hmem := Std.HashMap.mem_toList_iff_getElem?_eq_some.mpr hslot
      exact ⟨(key, slot), List.mem_filter.mpr ⟨hmem, hexpired⟩, rfl⟩

theorem mem_of_isExpired {s : Shelf} {now : Millis} {key : String}
    (h : s.isExpired key now = true) : key ∈ s.slots := by
  rw [Std.HashMap.mem_iff_isSome_getElem?]
  rw [isExpired] at h
  cases hslot : s.slots[key]? with
  | none => rw [hslot] at h; cases h
  | some slot => rfl

theorem Follows.consistent {capacity : Nat} {s : Shelf} {l : Ranking}
    (h : Follows capacity s l) : s.Consistent := by
  obtain ⟨rows, hs, rfl, hle, hcapacity⟩ := h
  have hkeys := hs.keysByRecency_eq
  have hmem : ∀ key, key ∈ s.slots ↔ key ∈ s.keysByRecency := by
    intro key
    rw [hkeys, Std.HashMap.mem_iff_isSome_getElem?]
    rcases hs.find key with ⟨hnone, hkey⟩ | ⟨as, row, bs, rfl, rfl, hslot⟩
    · simp [hnone, hkey]
    · simp [hslot]
  refine ⟨hmem, fun key slot hslot => ?_, hkeys ▸ hs.nodup, ?_, ?_, fun now => ?_⟩
  · obtain ⟨row, hrow, rfl, rfl⟩ := (hs.slots key slot).mp hslot
    exact (Recency.get?_eq_some_iff hs.recency).mpr (List.mem_map_of_mem hrow)
  · rw [hs.recency.size, List.length_map]
    exact hs.size.symm
  · rw [hcapacity]
    exact Nat.le_trans (Nat.le_of_eq hs.size) hle
  · have hdistinct : (s.slots.toList.map Prod.fst).Nodup := by
      rw [Std.HashMap.map_fst_toList_eq_keys]
      exact Std.HashMap.nodup_keys
    have hfound := hdistinct.sublist ((List.filter_sublist
      (p := fun p => p.2.entry.hasExpired now)).map Prod.fst)
    have hordered : (s.expiredKeys now).Nodup := (hkeys ▸ hs.nodup).filter _
    rw [List.perm_ext_iff_of_nodup hfound hordered]
    intro key
    rw [mem_expired_iff, expiredKeys, List.mem_filter, ← hmem]
    exact ⟨fun h => ⟨mem_of_isExpired h, h⟩, And.right⟩

/-- From an empty shelf of any capacity, every request is answered as by the plain list, in
whatever order they come, and then the shelf has the entries of the list in its order and its
map and its arena agree. -/
theorem serveAll_eq_ranking (capacity : Nat) (requests : List Request) :
    let o := serveAll serve (empty capacity) requests
    let p := serveAll (Ranking.serve capacity) [] requests
    o.1 = p.1 ∧ (∀ key, o.2.find? key = p.2.lookup key) ∧
      o.2.keysByRecency = p.2.map Prod.fst ∧ o.2.Consistent ∧ o.2.capacity = capacity := by
  intro o p
  obtain ⟨hsame, hfollows⟩ := (Follows.empty capacity).serveAll requests
  refine ⟨hsame, hfollows.find?_eq, hfollows.keysByRecency_eq, hfollows.consistent, ?_⟩
  obtain ⟨rows, -, -, -, hcapacity⟩ := hfollows
  exact hcapacity

end Larder.Shelf
