import Larder.Proofs.Arena

/-! The arena with every slot checked before it is reached for. A step that would reach for a slot
that is not there gives nothing, and so does one that would count a key less where none is counted.
Where the arena stands for some places no step comes to that: the slots that nodes, ends and the
stack name are all there, and they still are between taking a key out and putting it in front. -/

namespace Larder.Recency

/-- The arena as changed in one slot, if it has that slot. -/
def within? (r : Recency) (i : Nat) (next : Recency) : Option Recency :=
  if i < r.slotCount then some next else none

def joinNewer? (r : Recency) (i newer : Option Nat) : Option Recency :=
  match i with
  | some i => r.within? i (r.setNewer i newer)
  | none => some { r with oldest := newer }

def joinOlder? (r : Recency) (i older : Option Nat) : Option Recency :=
  match i with
  | some i => r.within? i (r.setOlder i older)
  | none => some { r with newest := older }

def detach? (r : Recency) (i : Nat) : Option Recency :=
  match r.slots[i]? with
  | none => none
  | some none => some r
  | some (some n) => do
    let r ← r.joinOlder? n.newer n.older
    let r ← r.joinNewer? n.older n.newer
    r.within? i ((r.setNewer i none).setOlder i none)

def attachFront? (r : Recency) (i : Nat) : Option Recency := do
  let front := r.newest
  let r ← r.within? i ((r.setNewer i none).setOlder i front)
  let r ← r.joinNewer? front (some i)
  some { r with newest := some i }

def place? (r : Recency) (key : String) : Option (Nat × Recency) :=
  match r.free with
  | i :: _ => if i < r.slotCount then some (r.place key) else none
  | [] => some (r.place key)

def push? (r : Recency) (key : String) : Option (Handle × Recency) := do
  let (i, r) ← r.place? key
  let r ← { r with size := r.size + 1 }.attachFront? i
  some (⟨i⟩, r)

def touch? (r : Recency) (h : Handle) : Option (Bool × Recency) :=
  if !r.isLive h.slot then some (false, r)
  else if r.newest = some h.slot then some (true, r)
  else do
    let r ← r.detach? h.slot
    let r ← r.attachFront? h.slot
    some (true, r)

def remove? (r : Recency) (h : Handle) : Option (Option String × Recency) :=
  match r.node? h.slot with
  | none => some (none, r)
  | some n => do
    let r ← r.detach? h.slot
    if h.slot < r.slotCount ∧ 0 < r.size then
      some (some n.key,
        { r with
          slots := r.slots.setIfInBounds h.slot none
          free := h.slot :: r.free
          size := r.size - 1 })
    else none

def evictOldest? (r : Recency) : Option (Option String × Recency) :=
  match r.oldest with
  | none => some (none, r)
  | some i => r.remove? ⟨i⟩

section Spec

variable {r : Recency} {i : Nat} {key : String} {as bs ps : Places}

theorem within?_eq (h : i < r.slotCount) (next : Recency) : r.within? i next = some next :=
  if_pos h

theorem joinNewer?_eq {i : Option Nat} (h : ∀ j, i = some j → j < r.slotCount)
    (newer : Option Nat) : r.joinNewer? i newer = some (r.joinNewer i newer) := by
  cases i with
  | none => rfl
  | some j => exact within?_eq (h j rfl) _

theorem joinOlder?_eq {i : Option Nat} (h : ∀ j, i = some j → j < r.slotCount)
    (older : Option Nat) : r.joinOlder? i older = some (r.joinOlder i older) := by
  cases i with
  | none => rfl
  | some j => exact within?_eq (h j rfl) _

/-- A node that names neighbours that are there can be taken out. -/
theorem detach?_eq {n : Node} (h : r.node? i = some n)
    (hnewer : ∀ j, n.newer = some j → j < r.slotCount)
    (holder : ∀ j, n.older = some j → j < r.slotCount) : r.detach? i = some (r.detach i) := by
  have hlt : i < r.slotCount := lt_slotCount_of_isLive (by rw [isLive, h]; rfl)
  have hfirst := (sameSlots_joinOlder r n.newer n.older).slotCount
  have hboth := (sameSlots_joinNewer (r.joinOlder n.newer n.older) n.older n.newer).slotCount
  -- joining neighbours makes and takes no slot, so what was there is still there
  rw [detach?, node?_eq_some_iff.mp h]
  dsimp only
  rw [joinOlder?_eq hnewer, Option.bind_eq_bind, Option.bind_some,
    joinNewer?_eq fun j hj => hfirst ▸ holder j hj, Option.bind_some,
    within?_eq (by rwa [hboth, hfirst]), detach_eq h]

theorem attachFront?_eq (hi : i < r.slotCount) (h : ∀ j, r.newest = some j → j < r.slotCount) :
    r.attachFront? i = some (r.attachFront i) := by
  have hsame := ((sameSlots_setNewer r i none).trans (sameSlots_setOlder _ i r.newest)).slotCount
  rw [attachFront?, within?_eq hi, Option.bind_eq_bind, Option.bind_some,
    joinNewer?_eq fun j hj => hsame ▸ h j hj]
  rfl

theorem Holds.lt_slotCount (h : r.Holds ps) (hi : i ∈ slotsOf ps) : i < r.slotCount :=
  lt_slotCount_of_isLive ((isLive_iff h i).mpr hi)

theorem Holds.detach?_eq (h : r.Holds (as ++ (i, key) :: bs)) :
    r.detach? i = some (r.detach i) := by
  refine Recency.detach?_eq h.node?_eq (fun j hj => h.lt_slotCount ?_) fun j hj => h.lt_slotCount ?_
  · rw [slotsOf_append]
    exact List.mem_append_left _ (mem_of_lastSlot hj)
  · rw [slotsOf_append, slotsOf_cons]
    exact List.mem_append_right _ (List.mem_cons_of_mem _ (mem_of_firstSlot hj))

theorem Apart.lt_slotCount (h : r.Apart i key ps) {j : Nat} (hj : j ∈ i :: slotsOf ps) :
    j < r.slotCount := by
  refine lt_slotCount_of_isLive ?_
  rcases List.mem_cons.mp hj with rfl | hj
  · rw [isLive, h.alone]
    rfl
  · obtain ⟨as, k, bs, rfl⟩ := exists_of_mem_slotsOf hj
    rw [isLive, ((linked_append as _).mp h.linked).2.1]
    rfl

theorem Apart.attachFront?_eq (h : r.Apart i key ps) :
    r.attachFront? i = some (r.attachFront i) := by
  refine Recency.attachFront?_eq (h.lt_slotCount List.mem_cons_self) fun j hj => ?_
  rw [h.newest] at hj
  exact h.lt_slotCount (List.mem_cons_of_mem _ (mem_of_firstSlot hj))

theorem place?_eq (h : r.Vacant) (key : String) : r.place? key = some (r.place key) := by
  unfold place?
  split
  · rename_i i free hfree
    have hmem : i ∈ r.free := by
      rw [hfree]
      exact List.mem_cons_self
    exact if_pos ((h.mem_iff i).mp hmem).1
  · rfl

theorem push?_eq (h : r.Holds ps) (key : String) : r.push? key = some (r.push key) := by
  rw [push?, place?_eq h.vacant, Option.bind_eq_bind, Option.bind_some]
  dsimp only
  rw [(place_apart h key).attachFront?_eq]
  rfl

theorem touch?_eq (h : r.Holds ps) (handle : Handle) : r.touch? handle = some (r.touch handle) := by
  unfold touch? touch
  split
  · rfl
  · rename_i hlive
    rw [Bool.not_eq_true', Bool.not_eq_false] at hlive
    obtain ⟨as, key, bs, rfl⟩ := exists_of_mem_slotsOf ((isLive_iff h _).mp hlive)
    split
    · rfl
    · rw [h.detach?_eq, Option.bind_eq_bind, Option.bind_some, (detach_spec h).attachFront?_eq]
      rfl

theorem remove?_eq (h : r.Holds ps) (handle : Handle) :
    r.remove? handle = some (r.remove handle) := by
  unfold remove? remove
  cases hnode : r.node? handle.slot with
  | none => rfl
  | some n =>
    have hlive : r.isLive handle.slot = true := by
      rw [isLive, hnode]
      rfl
    obtain ⟨as, key, bs, rfl⟩ := exists_of_mem_slotsOf ((isLive_iff h _).mp hlive)
    have hapart := detach_spec h
    have hpos : 0 < (r.detach handle.slot).size := by
      rw [hapart.size]
      exact Nat.succ_pos _
    dsimp only
    rw [h.detach?_eq, Option.bind_eq_bind, Option.bind_some,
      if_pos ⟨hapart.lt_slotCount List.mem_cons_self, hpos⟩]

theorem evictOldest?_eq (h : r.Holds ps) : r.evictOldest? = some r.evictOldest := by
  unfold evictOldest? evictOldest
  cases r.oldest with
  | none => rfl
  | some i => exact remove?_eq h ⟨i⟩

end Spec

end Larder.Recency
