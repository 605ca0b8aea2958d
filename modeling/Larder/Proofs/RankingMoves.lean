import Mathlib.Data.List.Induction
import Mathlib.Data.List.Nodup
import Larder.Proofs.ShelfOrder
import Larder.Record

/-! What can happen to a ranking: a record changes it, a look-up that finds an entry moves that
entry to the front, and entries that have expired leave. A replay changes it by one record after
the other, where a record that has expired by then only takes away what its key had before. -/

namespace Larder

/-- When what a record stores stops being served; a deletion stores nothing. -/
def Record.deadline : Record → Deadline
  | .set _ _ deadline => deadline
  | .delete _ => none

namespace Shelf.Ranking

/-- No key has two entries. -/
def Distinct (l : Ranking) : Prop := (l.map Prod.fst).Nodup

/-- What a record does to a ranking that is kept to a capacity. -/
def change (capacity : Nat) (l : Ranking) : Record → Ranking
  | .set key value deadline => (l.put capacity key value deadline).2
  | .delete key => l.without key

/-- What a record does that is replayed. -/
def restore (capacity : Nat) (now : Millis) (l : Ranking) (r : Record) : Ranking :=
  if r.deadline.hasPassed now then l.without r.key else l.change capacity r

/-- The ranking after all records have been replayed. -/
def restoreAll (capacity : Nat) (now : Millis) (rs : List Record) : Ranking :=
  rs.foldl (restore capacity now) []

/-- The ranking after all records have been replayed onto it. -/
def restoreOnto (capacity : Nat) (now : Millis) (l : Ranking) (rs : List Record) : Ranking :=
  rs.foldl (restore capacity now) l

theorem restoreOnto_concat (capacity : Nat) (now : Millis) (l : Ranking) (rs : List Record)
    (r : Record) : restoreOnto capacity now l (rs ++ [r]) =
      (restoreOnto capacity now l rs).restore capacity now r := by
  rw [restoreOnto, List.foldl_append]
  rfl

theorem restoreAll_concat (capacity : Nat) (now : Millis) (rs : List Record) (r : Record) :
    restoreAll capacity now (rs ++ [r]) = (restoreAll capacity now rs).restore capacity now r :=
  restoreOnto_concat capacity now [] rs r

variable {l l' l'' : Ranking} {p : String × Entry} {key : String} {entry : Entry} {now : Millis}
  {capacity : Nat}

theorem mem_without : p ∈ l.without key ↔ p ∈ l ∧ p.1 ≠ key := by
  rw [without, List.mem_filter, decide_eq_true_eq]

theorem mem_of_mem_promoted (hmem : (key, entry) ∈ l) (h : p ∈ (key, entry) :: l.without key) :
    p ∈ l := by
  rcases List.mem_cons.mp h with rfl | h
  · exact hmem
  · exact (mem_without.mp h).1

theorem put_eq (capacity : Nat) (l : Ranking) (key value : String) (deadline : Deadline) :
    (l.put capacity key value deadline).2 =
      ((key, ⟨value, deadline⟩) :: l.without key).take capacity := rfl

/-- A record leaves nothing of its key but what it stores. -/
theorem mem_change {r : Record} (h : p ∈ l.change capacity r) :
    r = .set p.1 p.2.value p.2.deadline ∨ p ∈ l ∧ p.1 ≠ r.key := by
  cases r with
  | set key value deadline =>
    rcases List.mem_cons.mp (List.mem_of_mem_take h) with rfl | h
    · exact .inl rfl
    · exact .inr (mem_without.mp h)
  | delete key => exact .inr (mem_without.mp h)

theorem mem_restore {r : Record} (h : p ∈ l.restore capacity now r) :
    (r = .set p.1 p.2.value p.2.deadline ∧ p.2.hasExpired now = false) ∨ p ∈ l ∧ p.1 ≠ r.key := by
  unfold restore at h
  split at h
  · exact .inr (mem_without.mp h)
  · rename_i hlive
    rcases mem_change h with rfl | h
    · exact .inl ⟨rfl, eq_false_of_ne_true hlive⟩
    · exact .inr h

/-- No entry that a replay brings back has expired. -/
theorem hasExpired_of_mem_restoreAll {rs : List Record} (h : p ∈ restoreAll capacity now rs) :
    p.2.hasExpired now = false := by
  induction rs using List.reverseRecOn with
  | nil => cases h
  | append_singleton rs r ih =>
    rw [restoreAll_concat] at h
    rcases mem_restore h with ⟨-, hlive⟩ | ⟨h, -⟩
    · exact hlive
    · exact ih h

namespace Distinct

theorem sublist (h : l.Distinct) (hsub : l'.Sublist l) : l'.Distinct :=
  List.Nodup.sublist (hsub.map _) h

theorem without (h : l.Distinct) (key : String) : (l.without key).Distinct :=
  h.sublist List.filter_sublist

/-- A key has one entry to lose. -/
theorem length_without (h : l.Distinct) (hmem : (key, entry) ∈ l) :
    (l.without key).length + 1 = l.length := by
  have hkeys : (l.without key).map Prod.fst = (l.map Prod.fst).erase key := by
    rw [List.Nodup.erase_eq_filter h, Ranking.without, List.filter_map]
    exact congrArg _ (List.filter_congr fun p _ => Bool.eq_iff_iff.mpr (by simp))
  have hkey : key ∈ l.map Prod.fst := List.mem_map_of_mem (f := Prod.fst) hmem
  have hlength := congrArg List.length hkeys
  rw [List.length_map, List.length_erase_of_mem hkey, List.length_map] at hlength
  have hpos := List.length_pos_of_mem hmem
  omega

/-- What stands in front of a ranking that has lost the key. -/
theorem cons_without (h : l.Distinct) (key : String) (entry : Entry) :
    Distinct ((key, entry) :: l.without key) := by
  refine List.nodup_cons.mpr ⟨fun hmem => ?_, h.without key⟩
  obtain ⟨p, hp, hkey⟩ := List.mem_map.mp hmem
  exact (mem_without.mp hp).2 hkey

theorem change (h : l.Distinct) (capacity : Nat) (r : Record) : (l.change capacity r).Distinct := by
  cases r with
  | set key value deadline => exact (h.cons_without key _).sublist (List.take_sublist _ _)
  | delete key => exact h.without key

/-- With room for all keys nothing has to go for a new entry. -/
theorem change_set (h : l.Distinct) {keys : List String} (hkeys : l.map Prod.fst ⊆ keys)
    (hroom : keys.length ≤ capacity) {value : String} {deadline : Deadline} (hkey : key ∈ keys) :
    l.change capacity (.set key value deadline) = (key, ⟨value, deadline⟩) :: l.without key := by
  have hall : Distinct ((key, ⟨value, deadline⟩) :: l.without key) := h.cons_without key _
  refine List.take_of_length_le (Nat.le_trans ?_ hroom)
  rw [← List.length_map Prod.fst]
  refine List.Nodup.length_le_of_subset hall fun k hk => ?_
  rcases List.mem_cons.mp hk with rfl | hk
  · exact hkey
  · obtain ⟨p, hp, rfl⟩ := List.mem_map.mp hk
    exact hkeys (List.mem_map_of_mem (mem_without.mp hp).1)

theorem restore (h : l.Distinct) (capacity : Nat) (now : Millis) (r : Record) :
    (l.restore capacity now r).Distinct := by
  unfold Ranking.restore
  split
  · exact h.without _
  · exact h.change capacity r

theorem eq_of_fst_eq (h : l.Distinct) {q : String × Entry} (hp : p ∈ l) (hq : q ∈ l)
    (hkey : p.1 = q.1) : p = q := List.inj_on_of_nodup_map h hp hq hkey

/-- An entry that moves to the front takes no other entry's place. -/
theorem mem_promoted (h : l.Distinct) (hmem : (key, entry) ∈ l) (hp : p ∈ l) :
    p ∈ (key, entry) :: l.without key := by
  by_cases hkey : p.1 = key
  · rw [h.eq_of_fst_eq hp hmem hkey]
    exact List.mem_cons_self
  · exact List.mem_cons_of_mem _ (mem_without.mpr ⟨hp, hkey⟩)

theorem lookup_eq_some_iff (h : l.Distinct) :
    l.lookup key = some entry ↔ (key, entry) ∈ l := by
  constructor
  · intro hfind
    obtain ⟨as, bs, rfl, -⟩ := List.lookup_eq_some_iff.mp hfind
    simp
  · intro hmem
    cases hfind : l.lookup key with
    | none =>
      have := List.lookup_eq_none_iff.mp hfind _ hmem
      simp at this
    | some e =>
      obtain ⟨as, bs, rfl, -⟩ := List.lookup_eq_some_iff.mp hfind
      have := h.eq_of_fst_eq hmem (q := (key, e)) (by simp) rfl
      rw [Prod.mk.injEq] at this
      rw [this.2]

end Distinct

theorem distinct_nil : Distinct [] := List.nodup_nil

theorem distinct_restoreAll (capacity : Nat) (now : Millis) (rs : List Record) :
    (restoreAll capacity now rs).Distinct := by
  induction rs using List.reverseRecOn with
  | nil => exact distinct_nil
  | append_singleton rs r ih =>
    rw [restoreAll_concat]
    exact ih.restore capacity now r

theorem peek?_eq_some_iff (h : l.Distinct) :
    l.peek? key now = some entry ↔ (key, entry) ∈ l ∧ entry.hasExpired now = false := by
  rw [peek?, Option.filter_eq_some_iff, h.lookup_eq_some_iff, Bool.not_eq_true']

/-- The entries that have not expired. -/
def live (now : Millis) (l : Ranking) : Ranking := l.filter fun p => !p.2.hasExpired now

theorem mem_live : p ∈ l.live now ↔ p ∈ l ∧ p.2.hasExpired now = false := by
  rw [live, List.mem_filter, Bool.not_eq_true']

theorem live_eq_self (hlive : ∀ p ∈ l, p.2.hasExpired now = false) : l.live now = l :=
  List.filter_eq_self.mpr fun p hp => by rw [hlive p hp]; rfl

theorem live_without (l : Ranking) (key : String) (now : Millis) :
    (l.without key).live now = (l.live now).without key := List.filter_comm _ _ l

/-- What has not expired later has not expired before. -/
theorem live_live {later : Millis} (hle : now ≤ later) (l : Ranking) :
    (l.live now).live later = l.live later := by
  rw [live, live, List.filter_filter]
  refine List.filter_congr fun p _ => ?_
  cases hlater : p.2.hasExpired later with
  | true => rfl
  | false =>
    have hnow : p.2.hasExpired now = false := by
      refine eq_false_of_ne_true fun hpassed => ?_
      have hpassed' : p.2.hasExpired later = true := Deadline.hasPassed_mono hpassed hle
      rw [hlater] at hpassed'
      cases hpassed'
    rw [hnow]
    rfl

/-- Among what has not expired a key has what it is served with. -/
theorem lookup_live (h : l.Distinct) (key : String) (now : Millis) :
    (l.live now).lookup key = l.peek? key now := by
  refine Option.ext fun entry => ?_
  have hlive : (l.live now).Distinct := h.sublist List.filter_sublist
  rw [hlive.lookup_eq_some_iff, peek?_eq_some_iff h, mem_live]

/-- Entries that have expired leave; the others stay in their order. -/
structure Sheds (now : Millis) (l l' : Ranking) : Prop where
  sublist : l'.Sublist l
  expired : ∀ p ∈ l, p ∉ l' → p.2.hasExpired now = true

namespace Sheds

theorem refl (now : Millis) (l : Ranking) : l.Sheds now l :=
  ⟨List.Sublist.refl l, fun _ hp hno => absurd hp hno⟩

theorem trans (h : l.Sheds now l') (h' : l'.Sheds now l'') : l.Sheds now l'' := by
  refine ⟨h'.sublist.trans h.sublist, fun p hp hno => ?_⟩
  by_cases hmid : p ∈ l'
  · exact h'.expired p hmid hno
  · exact h.expired p hp hmid

theorem of_without (hl : l.Distinct) (hmem : (key, entry) ∈ l)
    (hexpired : entry.hasExpired now = true) : l.Sheds now (l.without key) := by
  refine ⟨List.filter_sublist, fun p hp hno => ?_⟩
  have hkey : p.1 = key := by
    by_contra hne
    exact hno (mem_without.mpr ⟨hp, hne⟩)
  rw [hl.eq_of_fst_eq hp hmem hkey]
  exact hexpired

/-- What leaves because it has expired is not among what has not. -/
theorem live_eq (h : l.Sheds now l') (hl : l.Distinct) : l'.live now = l.live now := by
  have hsub : (l'.live now).Sublist (l.live now) := h.sublist.filter _
  have hnodup : (l.live now).Nodup := (List.Nodup.of_map _ hl).filter _
  refine hsub.eq_of_length_le (hnodup.length_le_of_subset fun p hp => ?_)
  obtain ⟨hp, hlive⟩ := mem_live.mp hp
  refine mem_live.mpr ⟨?_, hlive⟩
  by_contra hno
  rw [h.expired p hp hno] at hlive
  cases hlive

/-- Where nothing has expired, nothing leaves. -/
theorem eq_of_live (h : l.Sheds now l') (hl : l.Distinct)
    (hlive : ∀ p ∈ l, p.2.hasExpired now = false) : l' = l := by
  have hsame := h.live_eq hl
  rwa [live_eq_self hlive, live_eq_self fun p hp => hlive p (h.sublist.subset hp)] at hsame

end Sheds

/-- What a call does to a ranking, by the record that is written for it and the key that it finds
as one to be moved to the front. -/
inductive Serves (capacity : Nat) (now : Millis) (l : Ranking) :
    Option Record → Option String → Ranking → Prop
  | changes (r : Record) : Serves capacity now l (some r) none (l.change capacity r)
  | promotes {key : String} {entry : Entry} (hmem : (key, entry) ∈ l)
      (hlive : entry.hasExpired now = false) :
      Serves capacity now l none (some key) ((key, entry) :: l.without key)
  | sheds {l' : Ranking} (h : l.Sheds now l') : Serves capacity now l none none l'

end Shelf.Ranking

end Larder
