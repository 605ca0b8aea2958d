import Mathlib.Data.List.Nodup
import Mathlib.Data.List.Perm.Subperm
import Larder.Recency

/-! The arena as the order it stands for. A stretch of keys is linked if every key's node names
the slots of its neighbours; two stretches are linked one behind the other exactly if they are
so together, and only the nodes at the seam know of it. So taking a key out and putting one in
front are changes at seams, and all other nodes stay as they are. -/

namespace Larder.Recency

/-- Keys in their slots, the one used last first. -/
abbrev Places := List (Nat × String)

def slotsOf (ps : Places) : List Nat := ps.map Prod.fst

/-- The first slot of some places, or what stands behind them. -/
def firstSlot (ps : Places) (older : Option Nat) : Option Nat := (ps.head?.map Prod.fst).or older

/-- The last slot of some places, or what stands before them. -/
def lastSlot (newer : Option Nat) (ps : Places) : Option Nat := (ps.getLast?.map Prod.fst).or newer

/-- Every node of a stretch names its neighbours; `newer` and `older` are those of the stretch. -/
def Linked (nodes : Nat → Option Node) (newer : Option Nat) : Places → Option Nat → Prop
  | [], _ => True
  | (i, key) :: ps, older =>
    nodes i = some ⟨key, newer, firstSlot ps older⟩ ∧ Linked nodes (some i) ps older

@[simp]
theorem slotsOf_nil : slotsOf [] = [] := rfl

@[simp]
theorem slotsOf_cons (p : Nat × String) (ps : Places) : slotsOf (p :: ps) = p.1 :: slotsOf ps := rfl

@[simp]
theorem slotsOf_append (as bs : Places) : slotsOf (as ++ bs) = slotsOf as ++ slotsOf bs :=
  List.map_append

@[simp]
theorem firstSlot_nil (older : Option Nat) : firstSlot [] older = older := rfl

@[simp]
theorem firstSlot_cons (p : Nat × String) (ps : Places) (older : Option Nat) :
    firstSlot (p :: ps) older = some p.1 := rfl

theorem firstSlot_append (as bs : Places) (older : Option Nat) :
    firstSlot (as ++ bs) older = firstSlot as (firstSlot bs older) := by
  cases as <;> rfl

@[simp]
theorem lastSlot_nil (newer : Option Nat) : lastSlot newer [] = newer := rfl

@[simp]
theorem lastSlot_concat (newer : Option Nat) (ps : Places) (p : Nat × String) :
    lastSlot newer (ps ++ [p]) = some p.1 := by
  rw [lastSlot, List.getLast?_concat]
  rfl

theorem lastSlot_append (newer : Option Nat) (as bs : Places) :
    lastSlot newer (as ++ bs) = lastSlot (lastSlot newer as) bs := by
  rcases List.eq_nil_or_concat bs with rfl | ⟨bs, p, rfl⟩
  · rw [List.append_nil, lastSlot_nil]
  · rw [List.concat_eq_append, ← List.append_assoc, lastSlot_concat, lastSlot_concat]

theorem lastSlot_cons (newer : Option Nat) (p : Nat × String) (ps : Places) :
    lastSlot newer (p :: ps) = lastSlot (some p.1) ps :=
  lastSlot_append newer [p] ps

theorem mem_of_firstSlot {ps : Places} {i : Nat} (h : firstSlot ps none = some i) :
    i ∈ slotsOf ps := by
  cases ps with
  | nil => cases h
  | cons p ps =>
    cases h
    exact List.mem_cons_self

theorem mem_of_lastSlot {ps : Places} {i : Nat} (h : lastSlot none ps = some i) :
    i ∈ slotsOf ps := by
  rcases List.eq_nil_or_concat ps with rfl | ⟨ps, p, rfl⟩
  · cases h
  · rw [List.concat_eq_append, lastSlot_concat] at h
    cases h
    simp

section Linked

variable {nodes nodes' : Nat → Option Node} {newer older : Option Nat}

theorem linked_append (as bs : Places) :
    Linked nodes newer (as ++ bs) older ↔
      Linked nodes newer as (firstSlot bs older) ∧ Linked nodes (lastSlot newer as) bs older := by
  induction as generalizing newer with
  | nil => simp [Linked]
  | cons p as ih =>
    rw [List.cons_append, Linked, Linked, ih, lastSlot_cons, firstSlot_append, and_assoc]

/-- A stretch does not depend on the nodes outside it. -/
theorem Linked.congr {ps : Places} (h : Linked nodes newer ps older)
    (hsame : ∀ i ∈ slotsOf ps, nodes' i = nodes i) : Linked nodes' newer ps older := by
  induction ps generalizing newer with
  | nil => trivial
  | cons p ps ih =>
    obtain ⟨hnode, hrest⟩ := h
    refine ⟨(hsame p.1 List.mem_cons_self).trans hnode, ih hrest fun i hi => ?_⟩
    exact hsame i (List.mem_cons_of_mem _ hi)

/-- Behind another neighbour only the first node is another. -/
theorem Linked.setNewer {ps : Places} (h : Linked nodes newer ps older)
    (hnodup : (slotsOf ps).Nodup) {newer' : Option Nat}
    (hfirst : ∀ i, firstSlot ps none = some i →
      nodes' i = (nodes i).map fun n => { n with newer := newer' })
    (hsame : ∀ i ∈ slotsOf ps, firstSlot ps none ≠ some i → nodes' i = nodes i) :
    Linked nodes' newer' ps older := by
  cases ps with
  | nil => trivial
  | cons p ps =>
    obtain ⟨hnode, hrest⟩ := h
    obtain ⟨hnew, -⟩ := List.nodup_cons.mp hnodup
    refine ⟨?_, hrest.congr fun i hi => hsame i (List.mem_cons_of_mem _ hi) ?_⟩
    · rw [hfirst p.1 rfl, hnode]
      rfl
    · rintro h
      cases h
      exact hnew hi

/-- Before another neighbour only the last node is another. -/
theorem Linked.setOlder {ps : Places} (h : Linked nodes newer ps older)
    (hnodup : (slotsOf ps).Nodup) {older' : Option Nat}
    (hlast : ∀ i, lastSlot none ps = some i →
      nodes' i = (nodes i).map fun n => { n with older := older' })
    (hsame : ∀ i ∈ slotsOf ps, lastSlot none ps ≠ some i → nodes' i = nodes i) :
    Linked nodes' newer ps older' := by
  rcases List.eq_nil_or_concat ps with rfl | ⟨ps, p, rfl⟩
  · trivial
  · rw [List.concat_eq_append] at *
    rw [slotsOf_append, List.nodup_append] at hnodup
    rw [linked_append] at h ⊢
    obtain ⟨hfront, hnode, -⟩ := h
    refine ⟨hfront.congr fun i hi => hsame i ?_ ?_, ?_, trivial⟩
    · rw [slotsOf_append]
      exact List.mem_append_left _ hi
    · rw [lastSlot_concat]
      rintro h
      cases h
      exact hnodup.2.2 _ hi _ List.mem_cons_self rfl
    · rw [hlast p.1 (lastSlot_concat none ps p), hnode]
      rfl

end Linked

/-- Tells a node, or the arena if there is none, what stands before it now. -/
def joinNewer (r : Recency) (i : Option Nat) (newer : Option Nat) : Recency :=
  match i with
  | some i => r.setNewer i newer
  | none => { r with oldest := newer }

/-- Tells a node, or the arena if there is none, what stands behind it now. -/
def joinOlder (r : Recency) (i : Option Nat) (older : Option Nat) : Recency :=
  match i with
  | some i => r.setOlder i older
  | none => { r with newest := older }

theorem detach_eq {r : Recency} {i : Nat} {n : Node} (h : r.node? i = some n) :
    r.detach i =
      (((r.joinOlder n.newer n.older).joinNewer n.older n.newer).setNewer i none).setOlder i
        none := by
  unfold detach
  rw [h]
  rfl

theorem attachFront_eq (r : Recency) (i : Nat) :
    r.attachFront i =
      { ((r.setNewer i none).setOlder i r.newest).joinNewer r.newest (some i) with
        newest := some i } := rfl

theorem node?_setNewer (r : Recency) (i : Nat) (newer : Option Nat) (j : Nat) :
    (r.setNewer i newer).node? j =
      if i = j then (r.node? j).map fun n => { n with newer } else r.node? j := by
  unfold node? setNewer
  rw [Array.getElem?_modify]
  by_cases h : i = j
  · rw [if_pos h, if_pos h]
    cases r.slots[j]? <;> rfl
  · rw [if_neg h, if_neg h]

theorem node?_setOlder (r : Recency) (i : Nat) (older : Option Nat) (j : Nat) :
    (r.setOlder i older).node? j =
      if i = j then (r.node? j).map fun n => { n with older } else r.node? j := by
  unfold node? setOlder
  rw [Array.getElem?_modify]
  by_cases h : i = j
  · rw [if_pos h, if_pos h]
    cases r.slots[j]? <;> rfl
  · rw [if_neg h, if_neg h]

theorem node?_joinNewer (r : Recency) (i newer : Option Nat) (j : Nat) :
    (r.joinNewer i newer).node? j =
      if i = some j then (r.node? j).map fun n => { n with newer } else r.node? j := by
  cases i with
  | none => rfl
  | some i =>
    rw [joinNewer, node?_setNewer]
    simp only [Option.some.injEq]

theorem node?_joinOlder (r : Recency) (i older : Option Nat) (j : Nat) :
    (r.joinOlder i older).node? j =
      if i = some j then (r.node? j).map fun n => { n with older } else r.node? j := by
  cases i with
  | none => rfl
  | some i =>
    rw [joinOlder, node?_setOlder]
    simp only [Option.some.injEq]

@[simp]
theorem newest_joinNewer (r : Recency) (i newer : Option Nat) :
    (r.joinNewer i newer).newest = r.newest := by cases i <;> rfl

@[simp]
theorem oldest_joinOlder (r : Recency) (i older : Option Nat) :
    (r.joinOlder i older).oldest = r.oldest := by cases i <;> rfl

theorem oldest_joinNewer (r : Recency) (i newer : Option Nat) :
    (r.joinNewer i newer).oldest = if i = none then newer else r.oldest := by cases i <;> rfl

theorem newest_joinOlder (r : Recency) (i older : Option Nat) :
    (r.joinOlder i older).newest = if i = none then older else r.newest := by cases i <;> rfl

/-- The same slots are taken, and the others wait in the same order. -/
structure SameSlots (r r' : Recency) : Prop where
  free : r'.free = r.free
  slotCount : r'.slotCount = r.slotCount
  size : r'.size = r.size
  isLive : ∀ i, r'.isLive i = r.isLive i

theorem SameSlots.trans {r r' r'' : Recency} (h : SameSlots r r') (h' : SameSlots r' r'') :
    SameSlots r r'' :=
  ⟨h'.free.trans h.free, h'.slotCount.trans h.slotCount, h'.size.trans h.size,
    fun i => (h'.isLive i).trans (h.isLive i)⟩

theorem sameSlots_setNewer (r : Recency) (i : Nat) (newer : Option Nat) :
    SameSlots r (r.setNewer i newer) := by
  refine ⟨rfl, Array.size_modify, rfl, fun j => ?_⟩
  rw [isLive, isLive, node?_setNewer]
  split
  · exact Option.isSome_map
  · rfl

theorem sameSlots_setOlder (r : Recency) (i : Nat) (older : Option Nat) :
    SameSlots r (r.setOlder i older) := by
  refine ⟨rfl, Array.size_modify, rfl, fun j => ?_⟩
  rw [isLive, isLive, node?_setOlder]
  split
  · exact Option.isSome_map
  · rfl

theorem sameSlots_joinNewer (r : Recency) (i newer : Option Nat) :
    SameSlots r (r.joinNewer i newer) := by
  cases i with
  | none => exact ⟨rfl, rfl, rfl, fun _ => rfl⟩
  | some i => exact sameSlots_setNewer r i newer

theorem sameSlots_joinOlder (r : Recency) (i older : Option Nat) :
    SameSlots r (r.joinOlder i older) := by
  cases i with
  | none => exact ⟨rfl, rfl, rfl, fun _ => rfl⟩
  | some i => exact sameSlots_setOlder r i older

theorem sameSlots_detach (r : Recency) (i : Nat) : SameSlots r (r.detach i) := by
  cases h : r.node? i with
  | none =>
    rw [detach, h]
    exact ⟨rfl, rfl, rfl, fun _ => rfl⟩
  | some n =>
    rw [detach_eq h]
    exact (((sameSlots_joinOlder r _ _).trans (sameSlots_joinNewer _ _ _)).trans
      (sameSlots_setNewer _ _ _)).trans (sameSlots_setOlder _ _ _)

theorem sameSlots_attachFront (r : Recency) (i : Nat) : SameSlots r (r.attachFront i) := by
  have h := ((sameSlots_setNewer r i none).trans (sameSlots_setOlder _ i r.newest)).trans
    (sameSlots_joinNewer _ r.newest (some i))
  rw [attachFront_eq]
  exact ⟨h.free, h.slotCount, h.size, h.isLive⟩

/-- The empty slots wait on the stack, each once. -/
structure Vacant (r : Recency) : Prop where
  nodup : r.free.Nodup
  mem_iff : ∀ i, i ∈ r.free ↔ i < r.slotCount ∧ r.isLive i = false

theorem Vacant.of_sameSlots {r r' : Recency} (h : r.Vacant) (hsame : SameSlots r r') :
    r'.Vacant := by
  refine ⟨hsame.free ▸ h.nodup, fun i => ?_⟩
  rw [hsame.free, hsame.slotCount, hsame.isLive, h.mem_iff]

/-- The arena stands for some places: they are linked from its newest slot to its oldest, and
all other slots are empty. -/
structure Holds (r : Recency) (ps : Places) : Prop where
  linked : Linked r.node? none ps none
  nodup : (slotsOf ps).Nodup
  others : ∀ i, i ∉ slotsOf ps → r.node? i = none
  newest : r.newest = firstSlot ps none
  oldest : r.oldest = lastSlot none ps
  vacant : r.Vacant
  size : r.size = ps.length

/-- The arena stands for some places, and one more key is in a slot but linked to none. -/
structure Apart (r : Recency) (i : Nat) (key : String) (ps : Places) : Prop where
  alone : r.node? i = some ⟨key, none, none⟩
  linked : Linked r.node? none ps none
  nodup : (i :: slotsOf ps).Nodup
  others : ∀ j, j ∉ i :: slotsOf ps → r.node? j = none
  newest : r.newest = firstSlot ps none
  oldest : r.oldest = lastSlot none ps
  vacant : r.Vacant
  size : r.size = ps.length + 1

theorem holds_empty : Holds empty [] := by
  refine ⟨trivial, List.nodup_nil, fun i _ => rfl, rfl, rfl, ⟨List.nodup_nil, fun i => ?_⟩, rfl⟩
  exact ⟨fun h => (List.not_mem_nil h).elim, fun h => (Nat.not_lt_zero i h.1).elim⟩

theorem exists_of_mem_slotsOf {ps : Places} {i : Nat} (h : i ∈ slotsOf ps) :
    ∃ as key bs, ps = as ++ (i, key) :: bs := by
  obtain ⟨⟨i, key⟩, hmem, rfl⟩ := List.mem_map.mp h
  obtain ⟨as, bs, rfl⟩ := List.append_of_mem hmem
  exact ⟨as, key, bs, rfl⟩

section Spec

variable {r : Recency} {i : Nat} {key : String} {as bs ps : Places}

theorem Holds.node?_eq (h : r.Holds (as ++ (i, key) :: bs)) :
    r.node? i = some ⟨key, lastSlot none as, firstSlot bs none⟩ :=
  ((linked_append as _).mp h.linked).2.1

/-- No slot is named twice. -/
theorem nodup_middle (h : (slotsOf (as ++ (i, key) :: bs)).Nodup) :
    i ∉ slotsOf as ∧ i ∉ slotsOf bs ∧ (slotsOf as).Nodup ∧ (slotsOf bs).Nodup ∧
      ∀ j ∈ slotsOf as, j ∉ slotsOf bs := by
  rw [slotsOf_append, slotsOf_cons] at h
  obtain ⟨hi, hrest⟩ := List.nodup_cons.mp (List.nodup_middle.mp h)
  rw [List.mem_append, not_or] at hi
  obtain ⟨hna, hnb, hab⟩ := List.nodup_append.mp hrest
  exact ⟨hi.1, hi.2, hna, hnb, fun j hja hjb => hab j hja j hjb rfl⟩

theorem node?_detach {n : Node} (h : r.node? i = some n) (hnewer : n.newer ≠ some i)
    (holder : n.older ≠ some i) (j : Nat) :
    (r.detach i).node? j =
      if i = j then some ⟨n.key, none, none⟩
      else
        let m := if n.newer = some j then (r.node? j).map fun m => { m with older := n.older }
          else r.node? j
        if n.older = some j then m.map fun m => { m with newer := n.newer } else m := by
  rw [detach_eq h]
  simp only [node?_setOlder, node?_setNewer, node?_joinNewer, node?_joinOlder]
  by_cases hij : i = j
  · subst hij
    simp only [if_true, if_neg hnewer, if_neg holder, h]
    rfl
  · simp only [if_neg hij]

theorem newest_detach {n : Node} (h : r.node? i = some n) :
    (r.detach i).newest = if n.newer = none then n.older else r.newest := by
  rw [detach_eq h]
  simp only [setNewer, setOlder, newest_joinNewer, newest_joinOlder]

theorem oldest_detach {n : Node} (h : r.node? i = some n) :
    (r.detach i).oldest = if n.older = none then n.newer else r.oldest := by
  rw [detach_eq h]
  simp only [setNewer, setOlder, oldest_joinNewer, oldest_joinOlder]

/-- The stretches before and behind a key that leaves are linked to each other. -/
theorem linked_detach (h : r.Holds (as ++ (i, key) :: bs)) :
    Linked (r.detach i).node? none (as ++ bs) none := by
  obtain ⟨hia, hib, hna, hnb, hab⟩ := nodup_middle h.nodup
  obtain ⟨hlinka, hnode, hlinkb⟩ := (linked_append as _).mp h.linked
  have hnodes := node?_detach hnode (fun h => hia (mem_of_lastSlot h))
    (fun h => hib (mem_of_firstSlot h))
  refine (linked_append as bs).mpr
    ⟨hlinka.setOlder hna (fun j hj => ?_) (fun j hj hlast => ?_),
      hlinkb.setNewer hnb (fun j hj => ?_) (fun j hj hfirst => ?_)⟩
  · have hja := mem_of_lastSlot hj
    have hjb : firstSlot bs none ≠ some j := fun h => hab j hja (mem_of_firstSlot h)
    rw [hnodes, if_neg (by rintro rfl; exact hia hja)]
    simp only [if_pos hj, if_neg hjb]
  · have hjb : firstSlot bs none ≠ some j := fun h => hab j hj (mem_of_firstSlot h)
    rw [hnodes, if_neg (by rintro rfl; exact hia hj)]
    simp only [if_neg hlast, if_neg hjb]
  · have hjb := mem_of_firstSlot hj
    have hja : lastSlot none as ≠ some j := fun h => hab j (mem_of_lastSlot h) hjb
    rw [hnodes, if_neg (by rintro rfl; exact hib hjb)]
    simp only [if_pos hj, if_neg hja]
  · have hja : lastSlot none as ≠ some j := fun h => hab j (mem_of_lastSlot h) hj
    rw [hnodes, if_neg (by rintro rfl; exact hib hj)]
    simp only [if_neg hfirst, if_neg hja]

theorem detach_spec (h : r.Holds (as ++ (i, key) :: bs)) : (r.detach i).Apart i key (as ++ bs) := by
  obtain ⟨hia, hib, -, -, -⟩ := nodup_middle h.nodup
  have hnode := h.node?_eq
  have hsame := sameSlots_detach r i
  have hnodes := node?_detach hnode (fun h => hia (mem_of_lastSlot h))
    (fun h => hib (mem_of_firstSlot h))
  refine ⟨?_, linked_detach h, ?_, fun j hj => ?_, ?_, ?_, h.vacant.of_sameSlots hsame, ?_⟩
  · rw [hnodes, if_pos rfl]
  · have := h.nodup
    rw [slotsOf_append, slotsOf_cons] at this
    rw [slotsOf_append]
    exact List.nodup_middle.mp this
  · rw [List.mem_cons, not_or, slotsOf_append, List.mem_append, not_or] at hj
    have hnone : r.node? j = none := by
      apply h.others
      rw [slotsOf_append, List.mem_append, slotsOf_cons, List.mem_cons, not_or, not_or]
      exact ⟨hj.2.1, hj.1, hj.2.2⟩
    rw [hnodes, if_neg (Ne.symm hj.1), hnone]
    simp
  · rw [newest_detach hnode, h.newest]
    cases as with
    | nil => rfl
    | cons p as => simp [lastSlot]
  · rw [oldest_detach hnode, h.oldest]
    cases bs with
    | nil => simp
    | cons p bs => simp [lastSlot_append, lastSlot_cons]
  · rw [hsame.size, h.size, List.length_append, List.length_append, List.length_cons]
    omega

theorem node?_attachFront (h : r.newest ≠ some i) (j : Nat) :
    (r.attachFront i).node? j =
      if i = j then (r.node? i).map fun n => ⟨n.key, none, r.newest⟩
      else if r.newest = some j then (r.node? j).map fun n => { n with newer := some i }
      else r.node? j := by
  have hnode : (r.attachFront i).node? j =
      (((r.setNewer i none).setOlder i r.newest).joinNewer r.newest (some i)).node? j := rfl
  rw [hnode]
  simp only [node?_setOlder, node?_setNewer, node?_joinNewer]
  by_cases hij : i = j
  · subst hij
    simp only [if_true, if_neg h]
    cases r.node? i <;> rfl
  · simp only [if_neg hij]

theorem attachFront_spec (h : r.Apart i key ps) : (r.attachFront i).Holds ((i, key) :: ps) := by
  have hsame := sameSlots_attachFront r i
  obtain ⟨hi, hnodup⟩ := List.nodup_cons.mp h.nodup
  have hne : r.newest ≠ some i := by
    rw [h.newest]
    exact fun h => hi (mem_of_firstSlot h)
  have hnodes := node?_attachFront hne
  refine ⟨⟨?_, h.linked.setNewer hnodup (fun j hj => ?_) (fun j hj hfirst => ?_)⟩, h.nodup,
    fun j hj => ?_, rfl, ?_, h.vacant.of_sameSlots hsame, ?_⟩
  · rw [hnodes, if_pos rfl, h.alone, h.newest]
    rfl
  · have hij : i ≠ j := by
      rintro rfl
      exact hi (mem_of_firstSlot hj)
    rw [hnodes, if_neg hij, h.newest, if_pos hj]
  · have hij : i ≠ j := by
      rintro rfl
      exact hi hj
    rw [hnodes, if_neg hij, h.newest, if_neg hfirst]
  · have hnone := h.others j hj
    rw [slotsOf_cons, List.mem_cons, not_or] at hj
    rw [hnodes, if_neg (Ne.symm hj.1), hnone]
    simp
  · rw [attachFront_eq]
    simp only [oldest_joinNewer, setOlder, setNewer, h.newest, h.oldest, lastSlot_cons]
    cases ps with
    | nil => rfl
    | cons p ps =>
      rw [firstSlot_cons, if_neg (Option.some_ne_none _), lastSlot_cons none, lastSlot_cons]
  · rw [hsame.size, h.size, List.length_cons]

theorem isLive_iff (h : r.Holds ps) (i : Nat) : r.isLive i = true ↔ i ∈ slotsOf ps := by
  constructor
  · intro hlive
    by_contra hi
    rw [isLive, h.others i hi] at hlive
    cases hlive
  · intro hi
    obtain ⟨as, key, bs, rfl⟩ := exists_of_mem_slotsOf hi
    rw [isLive, h.node?_eq]
    rfl

theorem lt_slotCount_of_isLive (h : r.isLive i = true) : i < r.slotCount := by
  by_contra hle
  rw [isLive, node?, slotCount] at *
  rw [Array.getElem?_eq_none (Nat.le_of_not_lt hle)] at h
  cases h

theorem length_le_slotCount (h : r.Holds ps) : ps.length ≤ r.slotCount := by
  have hsub : slotsOf ps ⊆ List.range r.slotCount := by
    intro i hi
    rw [List.mem_range]
    exact lt_slotCount_of_isLive ((isLive_iff h i).mpr hi)
  have := (List.subperm_of_subset h.nodup hsub).length_le
  rwa [List.length_range, slotsOf, List.length_map] at this

theorem node?_of_slots {r' : Recency} {j : Nat} {n : Option Node} (h : r'.slots[j]? = some n) :
    r'.node? j = n := by
  rw [node?, h]

/-- A key goes to the slot that has waited shortest, or to a new one if none waits. -/
theorem place_spec (h : r.Vacant) (key : String) :
    r.isLive (r.place key).1 = false ∧
      (∀ j, (r.place key).2.node? j =
        if (r.place key).1 = j then some ⟨key, none, none⟩ else r.node? j) ∧
      (r.place key).2.Vacant := by
  have hmem := h.mem_iff
  have hnodup := h.nodup
  cases hfree : r.free with
  | cons i free =>
    rw [hfree] at hmem hnodup
    obtain ⟨hlt, hlive⟩ := (hmem i).mp List.mem_cons_self
    obtain ⟨hnew, hnodup⟩ := List.nodup_cons.mp hnodup
    have hplace : r.place key =
        (i, { r with slots := r.slots.setIfInBounds i (some ⟨key, none, none⟩), free }) := by
      rw [place, hfree]
    have hnodes : ∀ j, (r.place key).2.node? j =
        if i = j then some ⟨key, none, none⟩ else r.node? j := by
      intro j
      rw [hplace]
      by_cases hij : i = j
      · subst hij
        rw [if_pos rfl]
        exact node?_of_slots (Array.getElem?_setIfInBounds_self_of_lt hlt)
      · rw [if_neg hij, node?, node?, Array.getElem?_setIfInBounds_ne hij]
    have hslot : (r.place key).1 = i := by rw [hplace]
    rw [hslot]
    refine ⟨hlive, hnodes, by rw [hplace]; exact hnodup, fun j => ?_⟩
    rw [isLive, hnodes, hplace, slotCount, Array.size_setIfInBounds]
    by_cases hij : i = j
    · subst hij
      simp [hnew]
    · rw [if_neg hij]
      have := hmem j
      rw [List.mem_cons, or_iff_right (Ne.symm hij)] at this
      exact this
  | nil =>
    rw [hfree] at hmem
    have hplace : r.place key =
        (r.slots.size, { r with slots := r.slots.push (some ⟨key, none, none⟩) }) := by
      rw [place, hfree]
    have hnodes : ∀ j, (r.place key).2.node? j =
        if r.slots.size = j then some ⟨key, none, none⟩ else r.node? j := by
      intro j
      rw [hplace]
      by_cases hij : r.slots.size = j
      · subst hij
        rw [if_pos rfl]
        exact node?_of_slots Array.getElem?_push_size
      · rw [if_neg hij, node?, node?, Array.getElem?_push, if_neg (Ne.symm hij)]
    have hslot : (r.place key).1 = r.slots.size := by rw [hplace]
    rw [hslot]
    refine ⟨?_, hnodes, by rw [hplace]; exact h.nodup, fun j => ?_⟩
    · rw [isLive, node?, Array.getElem?_eq_none (Nat.le_refl _)]
      rfl
    · rw [isLive, hnodes, hplace, slotCount, Array.size_push]
      by_cases hij : r.slots.size = j
      · subst hij
        simp [hfree]
      · rw [if_neg hij]
        have := hmem j
        rw [slotCount] at this
        rw [hfree, this]
        exact and_congr_left fun _ => by omega

theorem place_apart (h : r.Holds ps) (key : String) :
    Apart { (r.place key).2 with size := (r.place key).2.size + 1 } (r.place key).1 key ps := by
  obtain ⟨hlive, hnodes, hvacant⟩ := place_spec h.vacant key
  have hi : (r.place key).1 ∉ slotsOf ps := by
    intro hi
    rw [(isLive_iff h _).mpr hi] at hlive
    cases hlive
  have hfields : (r.place key).2.newest = r.newest ∧ (r.place key).2.oldest = r.oldest ∧
      (r.place key).2.size = r.size := by
    unfold place
    split <;> exact ⟨rfl, rfl, rfl⟩
  refine ⟨(hnodes _).trans (if_pos rfl), h.linked.congr fun j hj => ?_,
    List.nodup_cons.mpr ⟨hi, h.nodup⟩, fun j hj => ?_, hfields.1.trans h.newest,
    hfields.2.1.trans h.oldest, ⟨hvacant.nodup, hvacant.mem_iff⟩, ?_⟩
  · refine (hnodes j).trans (if_neg ?_)
    rintro rfl
    exact hi hj
  · rw [List.mem_cons, not_or] at hj
    exact ((hnodes j).trans (if_neg (Ne.symm hj.1))).trans (h.others j hj.2)
  · exact congrArg (· + 1) (hfields.2.2.trans h.size)

theorem push_spec (h : r.Holds ps) (key : String) :
    (r.push key).2.Holds (((r.push key).1.slot, key) :: ps) :=
  attachFront_spec (place_apart h key)

theorem touch_spec (h : r.Holds (as ++ (i, key) :: bs)) :
    (r.touch ⟨i⟩).1 = true ∧ (r.touch ⟨i⟩).2.Holds ((i, key) :: (as ++ bs)) := by
  have hlive : r.isLive i = true := (isLive_iff h i).mpr (by simp)
  unfold touch
  simp only [hlive, Bool.not_true, Bool.false_eq_true, if_false]
  by_cases hnewest : r.newest = some i
  · rw [if_pos hnewest]
    refine ⟨rfl, ?_⟩
    -- the newest slot is named once, so nothing stands before it
    have has : as = [] := by
      cases as with
      | nil => rfl
      | cons p as =>
        rw [h.newest, List.cons_append, firstSlot_cons] at hnewest
        obtain ⟨hia, -⟩ := nodup_middle h.nodup
        cases hnewest
        exact absurd List.mem_cons_self hia
    subst has
    exact h
  · rw [if_neg hnewest]
    exact ⟨rfl, attachFront_spec (detach_spec h)⟩

theorem touch_of_empty (h : r.isLive i = false) : r.touch ⟨i⟩ = (false, r) := by
  unfold touch
  simp [h]

theorem remove_of_empty (h : r.isLive i = false) : r.remove ⟨i⟩ = (none, r) := by
  have hnone : r.node? i = none := by
    rw [isLive] at h
    cases hn : r.node? i with
    | none => rfl
    | some n => rw [hn] at h; cases h
  rw [remove]
  simp only [hnone]

theorem remove_eq {n : Node} (h : r.node? i = some n) :
    r.remove ⟨i⟩ = (some n.key,
      { r.detach i with
        slots := (r.detach i).slots.setIfInBounds i none
        free := i :: (r.detach i).free
        size := (r.detach i).size - 1 }) := by
  rw [remove]
  simp only [h]

theorem node?_remove {n : Node} (h : r.node? i = some n) (j : Nat) :
    (r.remove ⟨i⟩).2.node? j = if i = j then none else (r.detach i).node? j := by
  rw [remove_eq h]
  by_cases hij : i = j
  · subst hij
    have hlive : (r.detach i).isLive i = true := by
      rw [(sameSlots_detach r i).isLive, isLive, h]
      rfl
    rw [if_pos rfl]
    exact node?_of_slots (Array.getElem?_setIfInBounds_self_of_lt (lt_slotCount_of_isLive hlive))
  · rw [if_neg hij, node?, node?, Array.getElem?_setIfInBounds_ne hij]

/-- The slot of a key that has left is the next one to be used. -/
theorem vacant_remove (h : r.Vacant) {n : Node} (hnode : r.node? i = some n) :
    (r.remove ⟨i⟩).2.Vacant := by
  have hdetach := h.of_sameSlots (sameSlots_detach r i)
  have hlive : (r.detach i).isLive i = true := by
    rw [(sameSlots_detach r i).isLive, isLive, hnode]
    rfl
  have hfree : i ∉ (r.detach i).free := by
    intro hmem
    rw [((hdetach.mem_iff i).mp hmem).2] at hlive
    cases hlive
  have hfields := congrArg Prod.snd (remove_eq hnode)
  refine ⟨?_, fun j => ?_⟩
  · rw [hfields]
    exact List.nodup_cons.mpr ⟨hfree, hdetach.nodup⟩
  · rw [isLive, node?_remove hnode, hfields, slotCount, Array.size_setIfInBounds]
    by_cases hij : i = j
    · subst hij
      simpa [slotCount] using lt_slotCount_of_isLive hlive
    · rw [if_neg hij, List.mem_cons, or_iff_right (Ne.symm hij)]
      exact hdetach.mem_iff j

theorem remove_spec (h : r.Holds (as ++ (i, key) :: bs)) :
    (r.remove ⟨i⟩).1 = some key ∧ (r.remove ⟨i⟩).2.Holds (as ++ bs) := by
  have hapart := detach_spec h
  have hnode := h.node?_eq
  obtain ⟨hi, hnodup⟩ := List.nodup_cons.mp hapart.nodup
  have hkept : ∀ j ∈ slotsOf (as ++ bs), (r.remove ⟨i⟩).2.node? j = (r.detach i).node? j := by
    intro j hj
    rw [node?_remove hnode, if_neg]
    rintro rfl
    exact hi hj
  have hfields := congrArg Prod.snd (remove_eq hnode)
  refine ⟨by rw [remove_eq hnode], hapart.linked.congr hkept, hnodup, fun j hj => ?_, ?_, ?_,
    vacant_remove h.vacant hnode, ?_⟩
  · rw [node?_remove hnode]
    by_cases hij : i = j
    · rw [if_pos hij]
    · rw [if_neg hij]
      exact hapart.others j (List.not_mem_cons_of_ne_of_not_mem (Ne.symm hij) hj)
  · rw [hfields]
    exact hapart.newest
  · rw [hfields]
    exact hapart.oldest
  · rw [hfields]
    exact congrArg (· - 1) hapart.size

/-- The oldest key is removed by its slot. -/
theorem evictOldest_eq (h : r.Holds (ps ++ [(i, key)])) : r.evictOldest = r.remove ⟨i⟩ := by
  rw [evictOldest, h.oldest, lastSlot_concat]

theorem evictOldest_of_nil (h : r.Holds []) : r.evictOldest = (none, r) := by
  have holdest : r.oldest = none := h.oldest
  unfold evictOldest
  rw [holdest]

theorem get?_eq_some_iff (h : r.Holds ps) : r.get? ⟨i⟩ = some key ↔ (i, key) ∈ ps := by
  constructor
  · intro hget
    have hlive : r.isLive i = true := by
      rw [isLive]
      cases hn : r.node? i with
      | none => rw [get?, hn] at hget; cases hget
      | some n => rfl
    obtain ⟨as, key', bs, rfl⟩ := exists_of_mem_slotsOf ((isLive_iff h i).mp hlive)
    rw [get?, h.node?_eq] at hget
    cases hget
    simp
  · intro hmem
    obtain ⟨as, bs, rfl⟩ := List.append_of_mem hmem
    rw [get?, h.node?_eq]
    rfl

theorem node?_eq_some_iff {n : Node} : r.node? i = some n ↔ r.slots[i]? = some (some n) := by
  unfold node?
  split
  · rename_i m h
    rw [h, Option.some.injEq]
  · rename_i h
    simp [h]

/-- The keys in a stretch of slots are those whose slot is in it. -/
theorem mem_keysInSlots {first stop : Nat} :
    key ∈ r.keysInSlots first stop ↔ ∃ i, first ≤ i ∧ i < stop ∧ r.get? ⟨i⟩ = some key := by
  simp only [keysInSlots, List.mem_filterMap, Array.mem_toList_iff, Array.mem_iff_getElem?,
    Array.getElem?_extract, get?, Option.map_eq_some_iff, node?_eq_some_iff]
  constructor
  · rintro ⟨slot, ⟨k, hk⟩, n, rfl, hkey⟩
    obtain ⟨hlt, hslot⟩ := Option.ite_none_right_eq_some.mp hk
    exact ⟨first + k, by omega, by omega, n, hslot, hkey⟩
  · rintro ⟨i, hfirst, hstop, n, hslot, hkey⟩
    have hlt := (Array.getElem?_eq_some_iff.mp hslot).1
    refine ⟨some n, ⟨i - first, ?_⟩, n, rfl, hkey⟩
    rw [if_pos (by omega), Nat.add_sub_cancel' hfirst, hslot]

theorem keysInSlots_eq (r : Recency) (first stop : Nat) :
    r.keysInSlots first stop =
      (List.range' first (min stop r.slotCount - first)).filterMap fun i => r.get? ⟨i⟩ := by
  have hnodes : (r.slots.extract first stop).toList =
      (List.range' first (min stop r.slotCount - first)).map r.node? := by
    refine List.ext_getElem? fun k => ?_
    rw [Array.getElem?_toList, Array.getElem?_extract, List.getElem?_map, slotCount]
    split
    · rename_i hk
      have hlt : first + k < r.slots.size := by omega
      rw [List.getElem?_range' hk, Nat.one_mul, Option.map_some, node?,
        Array.getElem?_eq_getElem hlt]
    · rename_i hk
      rw [List.getElem?_eq_none (by rw [List.length_range']; omega), Option.map_none]
  rw [keysInSlots, hnodes, List.filterMap_map]
  rfl

@[simp]
theorem slotCount_touch (r : Recency) (h : Handle) : (r.touch h).2.slotCount = r.slotCount := by
  unfold touch
  split
  · rfl
  · split
    · rfl
    · exact (sameSlots_attachFront _ _).slotCount.trans (sameSlots_detach r _).slotCount

@[simp]
theorem slotCount_remove (r : Recency) (h : Handle) : (r.remove h).2.slotCount = r.slotCount := by
  unfold remove
  split
  · rfl
  · exact Array.size_setIfInBounds.trans (sameSlots_detach r _).slotCount

@[simp]
theorem slotCount_evictOldest (r : Recency) : r.evictOldest.2.slotCount = r.slotCount := by
  unfold evictOldest
  split
  · rfl
  · exact slotCount_remove r _

/-- Where no slot waits, all of them are taken. -/
theorem slotCount_le_length (h : r.Holds ps) (hfree : r.free = []) : r.slotCount ≤ ps.length := by
  have hsub : List.range r.slotCount ⊆ slotsOf ps := by
    intro i hi
    rw [← isLive_iff h]
    by_contra hlive
    have hwaits := (h.vacant.mem_iff i).mpr ⟨List.mem_range.mp hi, eq_false_of_ne_true hlive⟩
    rw [hfree] at hwaits
    cases hwaits
  have hle := List.nodup_range.length_le_of_subset hsub
  rwa [List.length_range, slotsOf, List.length_map] at hle

/-- A slot is made only where all others are taken. -/
theorem slotCount_push_le (h : r.Holds ps) (key : String) :
    (r.push key).2.slotCount ≤ max r.slotCount (ps.length + 1) := by
  have hpush : (r.push key).2.slotCount = (r.place key).2.slotCount :=
    (sameSlots_attachFront _ _).slotCount
  rw [hpush]
  cases hfree : r.free with
  | cons i free =>
    have hsame : (r.place key).2.slotCount = r.slotCount := by
      unfold place
      rw [hfree]
      exact Array.size_setIfInBounds
    exact hsame ▸ Nat.le_max_left _ _
  | nil =>
    have hmore : (r.place key).2.slotCount = r.slotCount + 1 := by
      unfold place
      rw [hfree]
      exact Array.size_push _
    have hfull := slotCount_le_length h hfree
    omega

/-- Following the older neighbours from the first of some places meets their keys in order. -/
theorem keysFrom_spec {newer : Option Nat} {fuel : Nat} (h : Linked r.node? newer ps none)
    (hfuel : ps.length ≤ fuel) : r.keysFrom fuel (firstSlot ps none) = ps.map Prod.snd := by
  induction ps generalizing newer fuel with
  | nil => cases fuel <;> rfl
  | cons p ps ih =>
    obtain ⟨fuel, rfl⟩ : ∃ n, fuel = n + 1 := ⟨fuel - 1, by simp at hfuel; omega⟩
    obtain ⟨hnode, hrest⟩ := h
    rw [firstSlot_cons, keysFrom, hnode]
    dsimp only
    rw [ih hrest (Nat.le_of_succ_le_succ hfuel), List.map_cons]

theorem keys_spec (h : r.Holds ps) : r.keys = ps.map Prod.snd := by
  rw [keys, h.newest]
  exact keysFrom_spec h.linked (length_le_slotCount h)

end Spec

end Larder.Recency
