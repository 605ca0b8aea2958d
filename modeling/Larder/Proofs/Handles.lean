import Mathlib.Data.List.Induction
import Larder.Proofs.SlotBounds

/-! The arena under requests with any handles, old ones and made-up ones too. It answers as a list
of keys with their slots does, the one used last in front, beside the stack of slots that wait; a
handle means whatever key stands in its slot now, and nothing if none does. The neighbours that its
nodes name lead through all keys from one end to the other, either way. -/

namespace Larder.Recency

/-- What an arena can be asked for. -/
inductive Request
  | push (key : String)
  | touch (handle : Handle)
  | remove (handle : Handle)
  | evictOldest
  | peekOldest
  | get (handle : Handle)
  | size
  | slotCount
  | keys
  | keysInSlots (first stop : Nat)

inductive Response
  | handle (handle : Handle)
  | done (done : Bool)
  | key (key : Option String)
  | count (n : Nat)
  | keys (keys : List String)
  deriving DecidableEq

def serve (r : Recency) : Request → Response × Recency
  | .push key => let (handle, r) := r.push key; (.handle handle, r)
  | .touch handle => let (done, r) := r.touch handle; (.done done, r)
  | .remove handle => let (key, r) := r.remove handle; (.key key, r)
  | .evictOldest => let (key, r) := r.evictOldest; (.key key, r)
  | .peekOldest => (.key r.peekOldest?, r)
  | .get handle => (.key (r.get? handle), r)
  | .size => (.count r.size, r)
  | .slotCount => (.count r.slotCount, r)
  | .keys => (.keys r.keys, r)
  | .keysInSlots first stop => (.keys (r.keysInSlots first stop), r)

/-- The same with every slot checked. -/
def serve? (r : Recency) : Request → Option (Response × Recency)
  | .push key => (r.push? key).map fun (handle, r) => (.handle handle, r)
  | .touch handle => (r.touch? handle).map fun (done, r) => (.done done, r)
  | .remove handle => (r.remove? handle).map fun (key, r) => (.key key, r)
  | .evictOldest => r.evictOldest?.map fun (key, r) => (.key key, r)
  | request => some (r.serve request)

/-- All requests, one after the other. -/
def serveAll {State : Type} (serve : State → Request → Response × State) (s : State) :
    List Request → List Response × State
  | [] => ([], s)
  | request :: requests =>
    let (response, s) := serve s request
    let (responses, s) := serveAll serve s requests
    (response :: responses, s)

def serveAll? (r : Recency) : List Request → Option (List Response × Recency)
  | [] => some ([], r)
  | request :: requests => do
    let (response, r) ← r.serve? request
    let (responses, r) ← r.serveAll? requests
    some (response :: responses, r)

/-- The keys in their slots, the one used last first, and the slots that wait, the next one to be
used first. -/
structure Roster where
  places : Places
  vacant : List Nat

namespace Roster

/-- The slot of the next key. -/
def next (s : Roster) : Nat := s.vacant.headD s.places.length

def slotCount (s : Roster) : Nat := s.places.length + s.vacant.length

/-- All places but that of a slot. -/
def without (s : Roster) (i : Nat) : Places := s.places.filter fun p => p.1 ≠ i

def push (s : Roster) (key : String) : Handle × Roster :=
  (⟨s.next⟩, ⟨(s.next, key) :: s.places, s.vacant.tail⟩)

def get? (s : Roster) (handle : Handle) : Option String := s.places.lookup handle.slot

def touch (s : Roster) (handle : Handle) : Bool × Roster :=
  match s.get? handle with
  | none => (false, s)
  | some key => (true, ⟨(handle.slot, key) :: s.without handle.slot, s.vacant⟩)

def remove (s : Roster) (handle : Handle) : Option String × Roster :=
  match s.get? handle with
  | none => (none, s)
  | some key => (some key, ⟨s.without handle.slot, handle.slot :: s.vacant⟩)

def evictOldest (s : Roster) : Option String × Roster :=
  match s.places.getLast? with
  | none => (none, s)
  | some (i, key) => (some key, ⟨s.places.dropLast, i :: s.vacant⟩)

def keysInSlots (s : Roster) (first stop : Nat) : List String :=
  (List.range' first (min stop s.slotCount - first)).filterMap fun i => s.get? ⟨i⟩

def serve (s : Roster) : Request → Response × Roster
  | .push key => let (handle, s) := s.push key; (.handle handle, s)
  | .touch handle => let (done, s) := s.touch handle; (.done done, s)
  | .remove handle => let (key, s) := s.remove handle; (.key key, s)
  | .evictOldest => let (key, s) := s.evictOldest; (.key key, s)
  | .peekOldest => (.key (s.places.getLast?.map Prod.snd), s)
  | .get handle => (.key (s.get? handle), s)
  | .size => (.count s.places.length, s)
  | .slotCount => (.count s.slotCount, s)
  | .keys => (.keys (s.places.map Prod.snd), s)
  | .keysInSlots first stop => (.keys (s.keysInSlots first stop), s)

end Roster

/-- The slots that are met on the way from one along the neighbours of one side. -/
inductive Way (r : Recency) (neighbour : Node → Option Nat) : Option Nat → List Nat → Prop
  | done : Way r neighbour none []
  | step {i : Nat} {n : Node} {rest : List Nat} (hnode : r.node? i = some n)
      (hrest : Way r neighbour (neighbour n) rest) : Way r neighbour (some i) (i :: rest)

section Spec

variable {r : Recency} {i : Nat} {key : String} {as bs ps : Places}

theorem way_older {newer : Option Nat} (h : Linked r.node? newer ps none) :
    r.Way Node.older (firstSlot ps none) (slotsOf ps) := by
  induction ps generalizing newer with
  | nil => exact .done
  | cons p ps ih =>
    obtain ⟨hnode, hrest⟩ := h
    exact .step hnode (ih hrest)

theorem way_newer {older : Option Nat} (h : Linked r.node? none ps older) :
    r.Way Node.newer (lastSlot none ps) (slotsOf ps).reverse := by
  induction ps using List.reverseRecOn generalizing older with
  | nil => exact .done
  | append_singleton ps p ih =>
    obtain ⟨hfront, hnode, -⟩ := (linked_append ps [p]).mp h
    rw [lastSlot_concat, slotsOf_append, List.reverse_append]
    exact .step hnode (ih hfront)

/-- Every slot is taken or waits. -/
theorem Holds.slotCount_eq (h : r.Holds ps) : r.slotCount = ps.length + r.free.length := by
  have hdisjoint : (slotsOf ps ++ r.free).Nodup := by
    refine List.nodup_append.mpr ⟨h.nodup, h.vacant.nodup, ?_⟩
    rintro i hi _ hwaits rfl
    have := ((h.vacant.mem_iff i).mp hwaits).2
    rw [(isLive_iff h i).mpr hi] at this
    cases this
  have hperm : (slotsOf ps ++ r.free).Perm (List.range r.slotCount) := by
    refine (List.perm_ext_iff_of_nodup hdisjoint List.nodup_range).mpr fun i => ?_
    rw [List.mem_append, h.vacant.mem_iff, List.mem_range, ← isLive_iff h]
    constructor
    · rintro (hlive | ⟨hlt, -⟩)
      · exact lt_slotCount_of_isLive hlive
      · exact hlt
    · intro hlt
      cases hlive : r.isLive i with
      | true => exact .inl rfl
      | false => exact .inr ⟨hlt, rfl⟩
  have hlength := hperm.length_eq
  rw [List.length_append, List.length_range, slotsOf, List.length_map] at hlength
  exact hlength.symm

theorem lookup_middle (h : (slotsOf (as ++ (i, key) :: bs)).Nodup) :
    (as ++ (i, key) :: bs).lookup i = some key := by
  obtain ⟨hia, -⟩ := nodup_middle h
  refine List.lookup_eq_some_iff.mpr ⟨as, bs, rfl, fun p hp => ?_⟩
  rw [bne_iff_ne]
  rintro rfl
  exact hia (List.mem_map_of_mem hp)

theorem Holds.lookup_eq (h : r.Holds ps) (i : Nat) : ps.lookup i = r.get? ⟨i⟩ := by
  refine Option.ext fun key => ?_
  rw [get?_eq_some_iff h]
  constructor
  · intro hfind
    obtain ⟨as, bs, rfl, -⟩ := List.lookup_eq_some_iff.mp hfind
    simp
  · intro hmem
    obtain ⟨as, bs, rfl⟩ := List.append_of_mem hmem
    exact lookup_middle h.nodup

theorem Roster.without_middle {vacant : List Nat} (h : (slotsOf (as ++ (i, key) :: bs)).Nodup) :
    (Roster.mk (as ++ (i, key) :: bs) vacant).without i = as ++ bs := by
  obtain ⟨hia, hib, -⟩ := nodup_middle h
  have hkeep : ∀ {ps : Places}, i ∉ slotsOf ps → ps.filter (fun p => p.1 ≠ i) = ps := by
    intro ps hi
    refine List.filter_eq_self.mpr fun p hp => ?_
    rw [decide_eq_true_eq]
    rintro rfl
    exact hi (List.mem_map_of_mem hp)
  rw [without, List.filter_append, List.filter_cons_of_neg (by simp), hkeep hia, hkeep hib]

theorem push_fst (r : Recency) (key : String) :
    (r.push key).1 = ⟨r.free.headD r.slotCount⟩ := by
  unfold push place
  cases r.free <;> rfl

theorem free_push (r : Recency) (key : String) : (r.push key).2.free = r.free.tail := by
  have hfree : (r.push key).2.free = (r.place key).2.free := (sameSlots_attachFront _ _).free
  rw [hfree, place]
  cases r.free <;> rfl

theorem free_touch (r : Recency) (handle : Handle) : (r.touch handle).2.free = r.free := by
  unfold touch
  split
  · rfl
  · split
    · rfl
    · exact (sameSlots_attachFront _ _).free.trans (sameSlots_detach r _).free

theorem free_remove {n : Node} (h : r.node? i = some n) :
    (r.remove ⟨i⟩).2.free = i :: r.free := by
  rw [remove_eq h]
  exact congrArg _ (sameSlots_detach r i).free

theorem peekOldest?_eq (h : r.Holds ps) : r.peekOldest? = ps.getLast?.map Prod.snd := by
  rw [peekOldest?, h.oldest]
  rcases List.eq_nil_or_concat ps with rfl | ⟨ps, ⟨i, key⟩, rfl⟩
  · rfl
  · rw [List.concat_eq_append, lastSlot_concat, List.getLast?_concat]
    exact (get?_eq_some_iff h).mpr (by simp)

/-- The arena stands for what a roster lists. -/
structure Keeps (r : Recency) (s : Roster) : Prop where
  holds : r.Holds s.places
  free : r.free = s.vacant

namespace Keeps

variable {s : Roster}

theorem get?_eq (h : r.Keeps s) (handle : Handle) : r.get? handle = s.get? handle :=
  (h.holds.lookup_eq handle.slot).symm

theorem slotCount_eq (h : r.Keeps s) : r.slotCount = s.slotCount := by
  rw [h.holds.slotCount_eq, h.free, Roster.slotCount]

theorem isLive_eq (h : r.Keeps s) (handle : Handle) :
    r.isLive handle.slot = (s.get? handle).isSome := by
  rw [← h.get?_eq, Recency.get?, Option.isSome_map, isLive]

theorem push (h : r.Keeps s) (key : String) :
    (r.push key).1 = (s.push key).1 ∧ (r.push key).2.Keeps (s.push key).2 := by
  have hslot : (r.push key).1 = ⟨s.next⟩ := by
    rw [push_fst, h.slotCount_eq, h.free, Roster.next, Roster.slotCount]
    cases s.vacant <;> rfl
  have hholds := push_spec h.holds key
  rw [hslot] at hholds
  exact ⟨hslot, hholds, by rw [free_push, h.free]; rfl⟩

/-- What a handle means: nothing, or one key among the others. -/
theorem cases (h : r.Keeps s) (handle : Handle) :
    (r.isLive handle.slot = false ∧ s.get? handle = none) ∨
      ∃ as key bs, s.places = as ++ (handle.slot, key) :: bs ∧ s.get? handle = some key ∧
        s.without handle.slot = as ++ bs := by
  cases hlive : r.isLive handle.slot with
  | false =>
    rw [h.isLive_eq, Option.isSome_eq_false_iff, Option.isNone_iff_eq_none] at hlive
    exact .inl ⟨rfl, hlive⟩
  | true =>
    obtain ⟨as, key, bs, hplaces⟩ := exists_of_mem_slotsOf ((isLive_iff h.holds _).mp hlive)
    have hnodup := h.holds.nodup
    obtain ⟨places, vacant⟩ := s
    cases hplaces
    exact .inr ⟨as, key, bs, rfl, lookup_middle hnodup, Roster.without_middle hnodup⟩

theorem touch (h : r.Keeps s) (handle : Handle) :
    (r.touch handle).1 = (s.touch handle).1 ∧ (r.touch handle).2.Keeps (s.touch handle).2 := by
  unfold Roster.touch
  rcases h.cases handle with ⟨hlive, hnone⟩ | ⟨as, key, bs, hplaces, hget, hwithout⟩
  · rw [hnone, touch_of_empty hlive]
    exact ⟨rfl, h⟩
  · have hholds := h.holds
    rw [hplaces] at hholds
    obtain ⟨hdone, hnext⟩ := touch_spec hholds
    rw [hget, hwithout]
    exact ⟨hdone, hnext, (free_touch r handle).trans h.free⟩

theorem remove (h : r.Keeps s) (handle : Handle) :
    (r.remove handle).1 = (s.remove handle).1 ∧ (r.remove handle).2.Keeps (s.remove handle).2 := by
  unfold Roster.remove
  rcases h.cases handle with ⟨hlive, hnone⟩ | ⟨as, key, bs, hplaces, hget, hwithout⟩
  · rw [hnone, remove_of_empty hlive]
    exact ⟨rfl, h⟩
  · have hholds := h.holds
    rw [hplaces] at hholds
    obtain ⟨hkey, hnext⟩ := remove_spec hholds
    rw [hget, hwithout]
    exact ⟨hkey, hnext, (free_remove hholds.node?_eq).trans (congrArg _ h.free)⟩

theorem evictOldest (h : r.Keeps s) :
    r.evictOldest.1 = s.evictOldest.1 ∧ r.evictOldest.2.Keeps s.evictOldest.2 := by
  have hholds := h.holds
  unfold Roster.evictOldest
  rcases List.eq_nil_or_concat s.places with hnil | ⟨ps, ⟨i, key⟩, hconcat⟩
  · rw [hnil] at hholds ⊢
    rw [evictOldest_of_nil hholds]
    exact ⟨rfl, h⟩
  · rw [List.concat_eq_append] at hconcat
    rw [hconcat] at hholds ⊢
    obtain ⟨hkey, hnext⟩ := remove_spec hholds
    rw [List.append_nil] at hnext
    rw [evictOldest_eq hholds, List.getLast?_concat, List.dropLast_concat]
    exact ⟨hkey, hnext, (free_remove hholds.node?_eq).trans (congrArg _ h.free)⟩

/-- Every request is answered as the roster does, and no slot is missing for it. -/
theorem serve (h : r.Keeps s) (request : Request) :
    r.serve? request = some (r.serve request) ∧
      (r.serve request).1 = (s.serve request).1 ∧ (r.serve request).2.Keeps (s.serve request).2 := by
  cases request with
  | push key =>
    obtain ⟨hsame, hnext⟩ := h.push key
    exact ⟨by rw [serve?, push?_eq h.holds]; rfl, congrArg Response.handle hsame, hnext⟩
  | touch handle =>
    obtain ⟨hsame, hnext⟩ := h.touch handle
    exact ⟨by rw [serve?, touch?_eq h.holds]; rfl, congrArg Response.done hsame, hnext⟩
  | remove handle =>
    obtain ⟨hsame, hnext⟩ := h.remove handle
    exact ⟨by rw [serve?, remove?_eq h.holds]; rfl, congrArg Response.key hsame, hnext⟩
  | evictOldest =>
    obtain ⟨hsame, hnext⟩ := h.evictOldest
    exact ⟨by rw [serve?, evictOldest?_eq h.holds]; rfl, congrArg Response.key hsame, hnext⟩
  | peekOldest => exact ⟨rfl, congrArg Response.key (peekOldest?_eq h.holds), h⟩
  | get handle => exact ⟨rfl, congrArg Response.key (h.get?_eq handle), h⟩
  | size => exact ⟨rfl, congrArg Response.count h.holds.size, h⟩
  | slotCount => exact ⟨rfl, congrArg Response.count h.slotCount_eq, h⟩
  | keys => exact ⟨rfl, congrArg Response.keys (keys_spec h.holds), h⟩
  | keysInSlots first stop =>
    refine ⟨rfl, congrArg Response.keys ?_, h⟩
    rw [keysInSlots_eq, h.slotCount_eq]
    exact List.filterMap_congr fun i _ => h.get?_eq ⟨i⟩

theorem serveAll (h : r.Keeps s) (requests : List Request) :
    r.serveAll? requests = some (Recency.serveAll Recency.serve r requests) ∧
      (Recency.serveAll Recency.serve r requests).1 =
        (Recency.serveAll Roster.serve s requests).1 ∧
      (Recency.serveAll Recency.serve r requests).2.Keeps
        (Recency.serveAll Roster.serve s requests).2 := by
  induction requests generalizing r s with
  | nil => exact ⟨rfl, rfl, h⟩
  | cons request requests ih =>
    obtain ⟨hchecked, hsame, hnext⟩ := h.serve request
    obtain ⟨hchecked', hrest, hlast⟩ := ih hnext
    refine ⟨?_, congrArg₂ List.cons hsame hrest, hlast⟩
    rw [serveAll?, hchecked, Option.bind_eq_bind, Option.bind_some]
    dsimp only
    rw [hchecked']
    rfl

end Keeps

/-- The neighbours that are named lead from the newest slot through all that are taken, each once,
to the oldest, and back the same way; the other slots are those that wait, each once. -/
structure Whole (r : Recency) (ps : Places) : Prop where
  forth : r.Way Node.older r.newest (slotsOf ps)
  back : r.Way Node.newer r.oldest (slotsOf ps).reverse
  newest : r.newest = (slotsOf ps).head?
  oldest : r.oldest = (slotsOf ps).getLast?
  nodup : (slotsOf ps).Nodup
  live : ∀ i, r.isLive i = true ↔ i ∈ slotsOf ps
  get : ∀ i key, r.get? ⟨i⟩ = some key ↔ (i, key) ∈ ps
  vacant : r.Vacant
  size : r.size = ps.length
  slotCount : r.slotCount = r.size + r.free.length

theorem Holds.whole (h : r.Holds ps) : r.Whole ps where
  forth := by
    rw [h.newest]
    exact way_older h.linked
  back := by
    rw [h.oldest]
    exact way_newer h.linked
  newest := by rw [h.newest, slotsOf, List.head?_map, firstSlot, Option.or_none]
  oldest := by rw [h.oldest, slotsOf, List.getLast?_map, lastSlot, Option.or_none]
  nodup := h.nodup
  live := isLive_iff h
  get _ _ := get?_eq_some_iff h
  vacant := h.vacant
  size := h.size
  slotCount := by rw [h.slotCount_eq, h.size]

end Spec

/-- Any requests with any handles, from an empty arena on, are answered as a roster answers them,
where what is pushed or touched goes to the front and the last one is the oldest. None of them
reaches for a slot that is not there, and in the end the arena is whole. A handle is heeded exactly
if a key stands in its slot then, whichever key it was given for, and otherwise it changes
nothing. -/
theorem serveAll_eq_roster (requests : List Request) :
    let o := serveAll serve empty requests
    let p := serveAll Roster.serve ⟨[], []⟩ requests
    serveAll? empty requests = some o ∧ o.1 = p.1 ∧ o.2.Whole p.2.places ∧ o.2.free = p.2.vacant ∧
      ∀ handle : Handle, (o.2.touch handle).1 = o.2.isLive handle.slot ∧
        (o.2.remove handle).1 = o.2.get? handle ∧
        (o.2.get? handle).isSome = o.2.isLive handle.slot ∧
        (o.2.isLive handle.slot = false →
          (o.2.touch handle).2 = o.2 ∧ (o.2.remove handle).2 = o.2) := by
  intro o p
  have hempty : empty.Keeps ⟨[], []⟩ := ⟨holds_empty, rfl⟩
  obtain ⟨hchecked, hsame, hkeeps⟩ := hempty.serveAll requests
  refine ⟨hchecked, hsame, hkeeps.holds.whole, hkeeps.free, fun handle => ?_⟩
  have hlive := hkeeps.isLive_eq handle
  have hget := hkeeps.get?_eq handle
  have htouch := (hkeeps.touch handle).1
  have hremove := (hkeeps.remove handle).1
  refine ⟨?_, ?_, by rw [hget, hlive], fun hempty => ?_⟩
  · rw [htouch, hlive, Roster.touch]
    cases p.2.get? handle <;> rfl
  · rw [hremove, hget, Roster.remove]
    cases p.2.get? handle <;> rfl
  · rw [touch_of_empty hempty, remove_of_empty hempty]
    exact ⟨rfl, rfl⟩

/-- The handle of a key that has left touches the key that has its slot now. -/
example : (serveAll serve empty [.push "a", .push "b", .remove ⟨0⟩, .touch ⟨0⟩, .push "c",
    .push "d", .touch ⟨0⟩, .keys, .evictOldest, .keysInSlots 0 9]).1 =
    [.handle ⟨0⟩, .handle ⟨1⟩, .key (some "a"), .done false, .handle ⟨0⟩, .handle ⟨2⟩,
      .done true, .keys ["c", "d", "b"], .key (some "b"), .keys ["c", "d"]] := by
  decide +kernel

end Larder.Recency
