import Larder.Proofs.Rebuilding

/-! Looking an entry up moves it to the front and is not written down. So a replay may let go of an
entry that the store before it kept for having been looked up, and of no other: what a store
serves is brought back unless it has been found since it was set and as many other keys as there is
room for have been written about since. -/

namespace Larder

open Record (lastAbout? lastAbout?_concat keyCount keyCount_mono length_le_keyCount)

namespace Record

/-- The records behind the last one about a key, the last of all first. -/
def after (rs : List Record) (key : String) : List Record :=
  rs.reverse.takeWhile fun r => r.key ≠ key

theorem after_concat (rs : List Record) (r : Record) (key : String) :
    after (rs ++ [r]) key = if r.key = key then [] else r :: after rs key := by
  rw [after, List.reverse_append, List.reverse_singleton, List.singleton_append,
    List.takeWhile_cons]
  by_cases h : r.key = key
  · rw [if_pos h, if_neg (by simpa using h)]
  · rw [if_neg h, if_pos (by simpa using h)]
    rfl

end Record

namespace Shelf.Ranking

/-- The keys in front of a key. -/
def ahead (key : String) : Ranking → List String
  | [] => []
  | p :: l => if p.1 = key then [] else p.1 :: ahead key l

variable {l l' r : Ranking} {p q : String × Entry} {key other : String} {entry : Entry}
  {n capacity : Nat} {time stop : Millis} {keys : List String}

theorem ahead_cons_self (entry : Entry) (l : Ranking) : ahead key ((key, entry) :: l) = [] :=
  if_pos rfl

theorem ahead_cons_of_ne (h : p.1 ≠ key) (l : Ranking) : ahead key (p :: l) = p.1 :: ahead key l :=
  if_neg h

theorem ahead_sublist (key : String) (l : Ranking) : (l.ahead key).Sublist (l.map Prod.fst) := by
  induction l with
  | nil => exact List.Sublist.slnil
  | cons p l ih =>
    by_cases h : p.1 = key
    · rw [ahead, if_pos h]
      exact List.nil_sublist _
    · rw [ahead_cons_of_ne h]
      exact ih.cons_cons p.1

theorem Distinct.nodup_ahead (h : l.Distinct) (key : String) : (l.ahead key).Nodup :=
  List.Nodup.sublist (ahead_sublist key l) h

theorem Distinct.not_mem_tail (h : Distinct (p :: l)) (hq : q ∈ l) : p.1 ≠ q.1 := by
  intro hkey
  exact (List.nodup_cons.mp h).1 (hkey ▸ List.mem_map_of_mem hq)

theorem Distinct.tail (h : Distinct (p :: l)) : l.Distinct := (List.nodup_cons.mp h).2

theorem ahead_without (h : key ≠ other) (l : Ranking) :
    (l.without other).ahead key = (l.ahead key).filter fun k => k ≠ other := by
  induction l with
  | nil => rfl
  | cons p l ih =>
    by_cases hother : p.1 = other
    · have hkey : p.1 ≠ key := fun hp => h (hp ▸ hother)
      rw [ahead_cons_of_ne hkey, without, List.filter_cons_of_neg (by simpa using hother),
        List.filter_cons_of_neg (by simpa using hother)]
      exact ih
    · rw [without, List.filter_cons_of_pos (by simpa using hother), ahead, ahead]
      split
      · rfl
      · rw [List.filter_cons_of_pos (by simpa using hother)]
        exact congrArg _ ih

/-- An entry is among the first `n` if fewer than `n` stand in front of it. -/
theorem mem_take_iff (h : l.Distinct) (hp : p ∈ l) : p ∈ l.take n ↔ (l.ahead p.1).length < n := by
  induction l generalizing n with
  | nil => cases hp
  | cons q l ih =>
    cases n with
    | zero => simp
    | succ n =>
      rw [List.take_succ_cons, List.mem_cons]
      rcases List.mem_cons.mp hp with rfl | hp
      · simp [ahead]
      · have hne := h.not_mem_tail hp
        rw [ahead_cons_of_ne hne, List.length_cons, Nat.succ_lt_succ_iff, ← ih h.tail hp]
        exact or_iff_right fun hpq => hne (congrArg Prod.fst hpq.symm)

theorem ahead_take (hp : p ∈ l.take n) : ahead p.1 (l.take n) = l.ahead p.1 := by
  induction l generalizing n with
  | nil => rw [List.take_nil]
  | cons q l ih =>
    cases n with
    | zero => cases hp
    | succ n =>
      rw [List.take_succ_cons] at hp ⊢
      rw [ahead, ahead]
      split
      · rfl
      · rename_i hne
        rcases List.mem_cons.mp hp with rfl | hp
        · exact absurd rfl hne
        · rw [ih hp]

/-- Of two entries that stay, the one in front stays in front. -/
theorem mem_ahead_of_sublist (hsub : l'.Sublist l) (hl : l.Distinct) (hp : p ∈ l') (hq : q ∈ l')
    (h : q.1 ∈ l.ahead p.1) : q.1 ∈ l'.ahead p.1 := by
  induction hsub with
  | slnil => cases hp
  | @cons l₁ l₂ a hsub ih =>
    rw [ahead_cons_of_ne (hl.not_mem_tail (hsub.subset hp))] at h
    rcases List.mem_cons.mp h with ha | h
    · exact absurd ha.symm (hl.not_mem_tail (hsub.subset hq))
    · exact ih hl.tail hp hq h
  | @cons_cons l₁ l₂ a hsub ih =>
    rcases List.mem_cons.mp hp with rfl | hp
    · rw [ahead, if_pos rfl] at h
      cases h
    · have hne := hl.not_mem_tail (hsub.subset hp)
      rw [ahead_cons_of_ne hne] at h ⊢
      rcases List.mem_cons.mp hq with rfl | hq
      · exact List.mem_cons_self
      · rcases List.mem_cons.mp h with ha | h
        · exact absurd ha.symm (hl.not_mem_tail (hsub.subset hq))
        · exact List.mem_cons_of_mem _ (ih hl.tail hp hq h)

theorem exists_mem_of_mem_ahead {k : String} (h : k ∈ l.ahead key) : ∃ e, (k, e) ∈ l := by
  obtain ⟨q, hq, rfl⟩ := List.mem_map.mp ((ahead_sublist key l).subset h)
  exact ⟨q.2, hq⟩

/-- Rankings that go by the same records have the same entry for a key. -/
theorem Recalls.eq_of_fst_eq {rs : List Record} (hl : l.Recalls rs) (hr : r.Recalls rs)
    (hp : p ∈ l) (hq : q ∈ r) (hkey : p.1 = q.1) : p = q := by
  obtain ⟨key, value, deadline⟩ := p
  obtain ⟨key', value', deadline'⟩ := q
  cases hkey
  have hhere := hl _ hp
  have hthere := hr _ hq
  rw [hhere] at hthere
  cases hthere
  rfl

/-- What has not expired by a time and whose key is none of these is in the other ranking too, and
only keys that stand in front of it here stand in front of it there. -/
def Covers (stop : Millis) (keys : List String) (l r : Ranking) : Prop :=
  ∀ p ∈ l, p.2.hasExpired stop = false → p.1 ∉ keys → p ∈ r ∧ r.ahead p.1 ⊆ l.ahead p.1

namespace Covers

variable {keys' : List String}

theorem without (h : Covers stop keys l r) (key : String)
    (hkeys : ∀ k ∈ keys, k ≠ key → k ∈ keys') :
    Covers stop keys' (l.without key) (r.without key) := by
  intro p hp hlive hunread
  obtain ⟨hp, hkey⟩ := mem_without.mp hp
  obtain ⟨hr, hahead⟩ := h p hp hlive fun hread => hunread (hkeys _ hread hkey)
  refine ⟨mem_without.mpr ⟨hr, hkey⟩, ?_⟩
  rw [ahead_without hkey, ahead_without hkey]
  exact List.filter_subset _ hahead

/-- A new entry may have expired by then. -/
theorem cons_expired (h : Covers stop keys l r) (hnew : ∀ q ∈ l, p.1 ≠ q.1)
    (hexpired : p.2.hasExpired stop = true) : Covers stop keys (p :: l) r := by
  intro q hq hlive hunread
  rcases List.mem_cons.mp hq with rfl | hq
  · rw [hexpired] at hlive
    cases hlive
  · obtain ⟨hr, hahead⟩ := h q hq hlive hunread
    rw [ahead_cons_of_ne (hnew q hq)]
    exact ⟨hr, List.subset_cons_of_subset _ hahead⟩

theorem cons (h : Covers stop keys l r) (hnew : ∀ q ∈ l, p.1 ≠ q.1) :
    Covers stop keys (p :: l) (p :: r) := by
  intro q hq hlive hunread
  rcases List.mem_cons.mp hq with rfl | hq
  · rw [ahead_cons_self, ahead_cons_self]
    exact ⟨List.mem_cons_self, List.Subset.refl _⟩
  · obtain ⟨hr, hahead⟩ := h q hq hlive hunread
    rw [ahead_cons_of_ne (hnew q hq), ahead_cons_of_ne (hnew q hq)]
    exact ⟨List.mem_cons_of_mem _ hr, List.cons_subset_cons _ hahead⟩

theorem take_left (h : Covers stop keys l r) (n : Nat) : Covers stop keys (l.take n) r := by
  intro p hp hlive hunread
  rw [ahead_take hp]
  exact h p (List.mem_of_mem_take hp) hlive hunread

/-- What is among the first `n` here is so there, since no more stands in front of it. -/
theorem take (h : Covers stop keys l r) (hl : l.Distinct) (hr : r.Distinct) (n : Nat) :
    Covers stop keys (l.take n) (r.take n) := by
  intro p hp hlive hunread
  have hmem := List.mem_of_mem_take hp
  obtain ⟨hmemr, hahead⟩ := h p hmem hlive hunread
  have htake : p ∈ r.take n := by
    rw [mem_take_iff hr hmemr]
    have hle := (hr.nodup_ahead p.1).length_le_of_subset hahead
    exact Nat.lt_of_le_of_lt hle ((mem_take_iff hl hmem).mp hp)
  rw [ahead_take hp, ahead_take htake]
  exact ⟨htake, hahead⟩

/-- A record is written here and replayed there. -/
theorem change (h : Covers stop keys l r) (hl : l.Distinct) (hr : r.Distinct) (rec : Record)
    (hkeys : ∀ k ∈ keys, k ≠ rec.key → k ∈ keys') :
    Covers stop keys' (l.change capacity rec) (r.restore capacity stop rec) := by
  have hrest := h.without rec.key hkeys
  have hnew : ∀ q ∈ l.without rec.key, rec.key ≠ q.1 := fun q hq => Ne.symm (mem_without.mp hq).2
  cases rec with
  | set key value deadline =>
    by_cases hpassed : deadline.hasPassed stop = true
    · have hthere : r.restore capacity stop (.set key value deadline) = r.without key :=
        if_pos hpassed
      rw [hthere]
      exact (hrest.cons_expired (p := (key, ⟨value, deadline⟩)) hnew hpassed).take_left capacity
    · have hthere : r.restore capacity stop (.set key value deadline) =
        r.change capacity (.set key value deadline) := if_neg hpassed
      rw [hthere]
      exact (hrest.cons (p := (key, ⟨value, deadline⟩)) hnew).take (hl.cons_without key _)
        (hr.cons_without key _) capacity
  | delete key => exact hrest

/-- A record is replayed in both, there at a later time. -/
theorem restore (h : Covers stop [] l r) (hl : l.Distinct) (hr : r.Distinct) (hle : time ≤ stop)
    (rec : Record) :
    Covers stop [] (l.restore capacity time rec) (r.restore capacity stop rec) := by
  by_cases hpassed : rec.deadline.hasPassed time = true
  · rw [Ranking.restore, if_pos hpassed, Ranking.restore,
      if_pos (Deadline.hasPassed_mono hpassed hle)]
    exact h.without rec.key fun k hk => (List.not_mem_nil hk).elim
  · rw [Ranking.restore, if_neg hpassed]
    exact h.change hl hr rec fun k hk => (List.not_mem_nil hk).elim

theorem promote (h : Covers stop keys l r) (key : String) (entry : Entry) :
    Covers stop (key :: keys) ((key, entry) :: l.without key) r := by
  intro p hp hlive hunread
  rw [List.mem_cons, not_or] at hunread
  rcases List.mem_cons.mp hp with rfl | hp
  · exact absurd rfl hunread.1
  · obtain ⟨hr, hahead⟩ := h p (mem_without.mp hp).1 hlive hunread.2
    refine ⟨hr, fun k hk => ?_⟩
    rw [ahead_cons_of_ne (Ne.symm hunread.1), ahead_without hunread.1, List.mem_cons,
      List.mem_filter, decide_eq_true_eq]
    by_cases hkey : k = key
    · exact .inl hkey
    · exact .inr ⟨hahead hk, hkey⟩

/-- What expires here has not come back there, so what it stood in front of is in its place. -/
theorem sheds (h : Covers stop keys l r) (hl : l.Distinct) (hle : time ≤ stop)
    (hsheds : l.Sheds time l') (hsame : ∀ p ∈ l, ∀ q ∈ r, p.1 = q.1 → p = q)
    (hfresh : ∀ q ∈ r, q.2.hasExpired stop = false) : Covers stop keys l' r := by
  intro p hp hlive hunread
  obtain ⟨hr, hahead⟩ := h p (hsheds.sublist.subset hp) hlive hunread
  refine ⟨hr, fun k hk => ?_⟩
  obtain ⟨e, hthere⟩ := exists_mem_of_mem_ahead hk
  obtain ⟨e', hhere⟩ := exists_mem_of_mem_ahead (hahead hk)
  have hstays : (k, e') ∈ l' := by
    by_contra hno
    have hexpired := Deadline.hasPassed_mono (hsheds.expired _ hhere hno) hle
    have hnot := hfresh _ hthere
    rw [← hsame _ hhere _ hthere rfl, Entry.hasExpired, hexpired] at hnot
    cases hnot
  exact mem_ahead_of_sublist hsheds.sublist hl hp hstays (hahead hk)

end Covers

theorem covers_restoreAll (hle : time ≤ stop) (rs : List Record) :
    Covers stop [] (restoreAll capacity time rs) (restoreAll capacity stop rs) := by
  induction rs using List.reverseRecOn with
  | nil => exact fun p hp => (List.not_mem_nil hp).elim
  | append_singleton rs rec ih =>
    rw [restoreAll_concat, restoreAll_concat]
    exact ih.restore (distinct_restoreAll _ _ _) (distinct_restoreAll _ _ _) hle rec

/-- An entry outlasts a record about another key if there is room for that one too. -/
theorem mem_restore_of_room (hl : l.Distinct) (hp : p ∈ l) {rec : Record} (hkey : p.1 ≠ rec.key)
    {rs : List Record} (hahead : l.ahead p.1 ⊆ rs.map Record.key)
    (hroom : keyCount (rec :: rs) < capacity) :
    p ∈ l.restore capacity stop rec ∧
      (l.restore capacity stop rec).ahead p.1 ⊆ (rec :: rs).map Record.key := by
  have hrest : p ∈ l.without rec.key ∧
      (l.without rec.key).ahead p.1 ⊆ (rec :: rs).map Record.key := by
    refine ⟨mem_without.mpr ⟨hp, hkey⟩, ?_⟩
    rw [ahead_without hkey]
    exact List.Subset.trans List.filter_sublist.subset (List.subset_cons_of_subset _ hahead)
  unfold restore
  split
  · exact hrest
  · cases rec with
    | delete key => exact hrest
    | set key value deadline =>
      have hmem : p ∈ (key, ⟨value, deadline⟩) :: l.without key := List.mem_cons_of_mem _ hrest.1
      have hfront : ahead p.1 ((key, ⟨value, deadline⟩) :: l.without key) ⊆
          (Record.set key value deadline :: rs).map Record.key := by
        rw [ahead_cons_of_ne (p := (key, _)) hkey.symm]
        exact List.cons_subset.mpr ⟨List.mem_cons_self, hrest.2⟩
      have hdistinct := hl.cons_without key ⟨value, deadline⟩
      have htake := (mem_take_iff hdistinct hmem).mpr
        (Nat.lt_of_le_of_lt (length_le_keyCount (hdistinct.nodup_ahead p.1) hfront) hroom)
      refine ⟨htake, ?_⟩
      rw [Ranking.change, put_eq, ahead_take htake]
      exact hfront

/-- An entry is brought back if there is room for it and for all keys that have been written about
since. -/
theorem mem_restoreAll_of_room {rs : List Record} {value : String} {deadline : Deadline}
    (hlast : lastAbout? rs key = some (.set key value deadline))
    (hlive : deadline.hasPassed stop = false) (hroom : keyCount (Record.after rs key) < capacity) :
    (key, ⟨value, deadline⟩) ∈ restoreAll capacity stop rs ∧
      (restoreAll capacity stop rs).ahead key ⊆ (Record.after rs key).map Record.key := by
  induction rs using List.reverseRecOn with
  | nil => cases hlast
  | append_singleton rs rec ih =>
    rw [restoreAll_concat]
    rw [lastAbout?_concat] at hlast
    rw [Record.after_concat] at hroom ⊢
    by_cases hkey : rec.key = key
    -- Behind the record itself nothing has followed, so its entry is in front.
    · rw [if_pos hkey] at hlast hroom ⊢
      obtain rfl := Option.some.inj hlast
      have hstays : restore capacity stop (restoreAll capacity stop rs) (.set key value deadline) =
          ((key, ⟨value, deadline⟩) :: (restoreAll capacity stop rs).without key).take capacity :=
        if_neg (Bool.not_eq_true _ ▸ hlive)
      cases capacity with
      | zero => cases hroom
      | succ n =>
        rw [hstays, List.take_succ_cons, ahead_cons_self]
        exact ⟨List.mem_cons_self, List.nil_subset _⟩
    · rw [if_neg hkey] at hlast hroom ⊢
      have hbefore := Nat.lt_of_le_of_lt (keyCount_mono (List.subset_cons_self rec _)) hroom
      obtain ⟨hmem, hahead⟩ := ih hlast hbefore
      exact mem_restore_of_room (distinct_restoreAll _ _ _) hmem (Ne.symm hkey) hahead hroom

/-- What is left of a ranking is served after a replay, or its key is one of these and is not
served. -/
theorem Covers.kept_or_read {rs : List Record} (h : l.Covers stop keys (restoreAll capacity stop rs))
    (hrecalls : l.Recalls rs) (hmem : (key, entry) ∈ l) (hlive : entry.hasExpired stop = false) :
    (restoreAll capacity stop rs).peek? key stop = some entry ∨
      (restoreAll capacity stop rs).peek? key stop = none ∧ key ∈ keys ∧
        capacity ≤ keyCount (Record.after rs key) := by
  have hpeek : ∀ e, (restoreAll capacity stop rs).peek? key stop = some e ↔
      (key, e) ∈ restoreAll capacity stop rs ∧ e.hasExpired stop = false :=
    fun _ => peek?_eq_some_iff (distinct_restoreAll _ _ _)
  by_cases hback : (key, entry) ∈ restoreAll capacity stop rs
  · exact .inl ((hpeek entry).mpr ⟨hback, hlive⟩)
  refine .inr ⟨?_, ?_, ?_⟩
  · -- Another entry for the key would have to be what the last record stores, as this one is.
    refine Option.eq_none_iff_forall_ne_some.mpr fun e he => ?_
    have hthere := ((hpeek e).mp he).1
    have hsame := hrecalls.eq_of_fst_eq (recalls_restoreAll _ _ _) hmem hthere rfl
    exact hback (hsame ▸ hthere)
  · by_contra hread
    exact hback (h _ hmem hlive hread).1
  · by_contra hroom
    exact hback (mem_restoreAll_of_room (hrecalls _ hmem) hlive (Nat.lt_of_not_le hroom)).1

end Shelf.Ranking

namespace Store

open Journal
open Larder.Shelf (Follows Ranking)

namespace History

/-- What a call preserves: a replay of the records at a later time has what is left by then and has
not been found since it was written. -/
theorem covers_serves {rs : List Record} {l l' : Ranking} {keys : List String} {capacity : Nat}
    {time stop : Millis} {written : Option Record} {found : Option String}
    (h : l.Covers stop keys (.restoreAll capacity stop rs)) (hrecalls : l.Recalls rs)
    (hl : l.Distinct) (hle : time ≤ stop) (hserves : l.Serves capacity time written found l') :
    l'.Covers stop (reread keys written found)
      (.restoreAll capacity stop (rs ++ written.toList)) := by
  cases hserves with
  | changes r =>
    rw [Option.toList_some, Ranking.restoreAll_concat]
    exact h.change hl (Ranking.distinct_restoreAll _ _ _) r fun k hk hne =>
      mem_reread_of_ne hk hne none
  | promotes hmem hlive =>
    rw [Option.toList_none, List.append_nil, reread_none]
    exact h.promote _ _
  | sheds hsheds =>
    rw [Option.toList_none, List.append_nil, reread_none]
    refine h.sheds hl hle hsheds (fun p hp q hq hkey => ?_) fun q hq => ?_
    · exact hrecalls.eq_of_fst_eq (Ranking.recalls_restoreAll _ _ _) hp hq hkey
    · exact Ranking.hasExpired_of_mem_restoreAll hq

end History

/-- What a store serves at some time, one serves that is loaded from its file then, under the same
settings; unless the entry has been found since it was set and records about as many other keys as
there is room for have followed, in which case that key is not served at all. -/
theorem reload_or_read {settings : Settings} {start : Millis} {m m' : Medium}
    {recovered : Recovered} (hload : Recovery.load settings start m = (.ok recovered, m'))
    {events : List Event} (hcalm : ∀ e ∈ events, e.outlook.Calm) {now : Millis}
    (hstart : start ≤ now) (hnow : ∀ e ∈ events, e.now ≤ now) {outlook : Outlook}
    (houtlook : outlook.Calm) :
    let h := (History.start recovered.store m').run events
    let log := Replay.records (items h.medium.bytes)
    ∃ again m'', Recovery.load settings now ⟨h.medium.bytes, outlook⟩ = (.ok again, m'') ∧
      ∀ key entry, h.store.shelf.peek? key now = some entry →
        again.store.shelf.peek? key now = some entry ∨
          again.store.shelf.peek? key now = none ∧
            key ∈ (History.start recovered.store m').keysRead [] events ∧
            settings.maxEntries ≤ keyCount (Record.after log key) := by
  intro h log
  have hcuts : ∀ e ∈ events, e.outlook.CutsHold := fun e he => (hcalm e he).cutsHold
  obtain ⟨again, m'', hagain⟩ := History.load_again hload hcuts houtlook now
  obtain ⟨l, hfollows, hrecalls, hcovers⟩ := History.run_of_load
    (fun log keys l =>
      l.Recalls log ∧ l.Covers now keys (.restoreAll settings.maxEntries now log))
    hload hcuts
    ⟨Ranking.recalls_restoreAll _ _ _, Ranking.covers_restoreAll hstart _⟩
    fun e he {_ _ _ _ _ _} hl hserves _ ⟨hrecalls, hcovers⟩ =>
      ⟨hrecalls.serves hserves,
        History.covers_serves hcovers hrecalls hl (hnow e he) hserves⟩
  refine ⟨again, m'', hagain, fun key entry hpeek => ?_⟩
  rw [hfollows.peek?_eq, Ranking.peek?_eq_some_iff hfollows.distinct] at hpeek
  rw [(Recovery.follows_of_load hagain).peek?_eq]
  exact hcovers.kept_or_read hrecalls hpeek.1 hpeek.2

/-- An entry that has been looked up comes back if there is room for the one set since. -/
theorem reload_or_read_kept :
    let settings : Settings := { Settings.default with maxEntries := 2 }
    let recovered : Recovered := ⟨.ofShelf (.empty 2) ⟨0, false⟩ settings, .zero⟩
    let m : Medium := ⟨[], .clear⟩
    let events : List Event := [⟨.set "a" "1" none, 5, .clear⟩, ⟨.set "b" "2" none, 6, .clear⟩,
      ⟨.get "a", 6, .clear⟩]
    let h := (History.start recovered.store m).run events
    Recovery.load settings 5 m = (.ok recovered, m) ∧ (∀ e ∈ events, e.outlook.Calm) ∧
      (5 : Millis) ≤ 7 ∧ (∀ e ∈ events, e.now ≤ 7) ∧ Outlook.clear.Calm ∧
      h.store.shelf.peek? "a" 7 = some ⟨"1", none⟩ ∧
      ∃ again m'', Recovery.load settings 7 ⟨h.medium.bytes, .clear⟩ = (.ok again, m'') ∧
        again.store.shelf.peek? "a" 7 = some ⟨"1", none⟩ := by
  intro settings recovered m events h
  have hload : Recovery.load settings 5 m = (.ok recovered, m) :=
    Recovery.load_nil settings 5 .clear
  have hcalm : ∀ e ∈ events, e.outlook.Calm := by simp [events, Outlook.calm_clear]
  have hstart : (5 : Millis) ≤ 7 := by decide
  have hnow : ∀ e ∈ events, e.now ≤ 7 := by decide
  let first := (History.start recovered.store m).step ⟨.set "a" "1" none, 5, .clear⟩
  have hfirst : Follows 2 first.store.shelf [("a", ⟨"1", none⟩)] :=
    History.follows_granted (h := History.start recovered.store m)
      (e := ⟨.set "a" "1" none, 5, .clear⟩) (r := .set "a" "1" none) (Follows.empty 2)
      (by decide +kernel)
  have hlive : h.store.shelf.peek? "a" 7 = some ⟨"1", none⟩ := by
    have hwritten := History.follows_granted (e := ⟨.set "b" "2" none, 6, .clear⟩)
      (r := .set "b" "2" none) hfirst (by decide +kernel)
    have hread := History.follows_get hwritten "a" 6 .clear
    simp only [h, events, History.run, List.foldl_cons, List.foldl_nil]
    rw [hread.peek?_eq]
    rfl
  have hroom : keyCount (Record.after (Replay.records (items h.medium.bytes)) "a") = 1 := by
    decide +kernel
  clear_value events
  obtain ⟨again, m'', hagain, hkept⟩ := reload_or_read hload hcalm hstart hnow Outlook.calm_clear
  refine ⟨hload, hcalm, hstart, hnow, Outlook.calm_clear, hlive, again, m'', hagain, ?_⟩
  rcases hkept "a" _ hlive with hsame | ⟨-, -, hfull⟩
  · exact hsame
  · have htwo : 2 ≤ 1 := hroom ▸ hfull
    exact absurd htwo (by decide)

/-- With room for two entries, `a` is looked up before a third key is set, so it stays and `b` has
to go. A replay does not know of that and lets `a` go. -/
theorem reload_drops_read :
    let settings : Settings := { Settings.default with maxEntries := 2 }
    let s : Store := .ofShelf (.empty 2) ⟨0, false⟩ settings
    let m : Medium := ⟨[], .clear⟩
    let h := (History.start s m).run [⟨.set "a" "1" none, 5, .clear⟩,
      ⟨.set "b" "2" none, 5, .clear⟩, ⟨.get "a", 5, .clear⟩, ⟨.set "c" "3" none, 5, .clear⟩]
    Recovery.load settings 5 m = (.ok ⟨s, .zero⟩, m) ∧
      h.store.shelf.peek? "a" 5 = some ⟨"1", none⟩ ∧
      ∃ again m', Recovery.load settings 5 ⟨h.medium.bytes, .clear⟩ = (.ok again, m') ∧
        again.store.shelf.peek? "a" 5 = none := by
  intro settings s m h
  let first := (History.start s m).step ⟨.set "a" "1" none, 5, .clear⟩
  have hfirst : Follows 2 first.store.shelf [("a", ⟨"1", none⟩)] :=
    History.follows_granted (h := History.start s m) (e := ⟨.set "a" "1" none, 5, .clear⟩)
      (r := .set "a" "1" none) (Follows.empty 2) (by decide +kernel)
  let written := first.step ⟨.set "b" "2" none, 5, .clear⟩
  have hwritten : Follows 2 written.store.shelf [("b", ⟨"2", none⟩), ("a", ⟨"1", none⟩)] :=
    History.follows_granted (e := ⟨.set "b" "2" none, 5, .clear⟩) (r := .set "b" "2" none) hfirst
      (by decide +kernel)
  -- Whether the third value is granted is read off the writer, which looking up does not touch.
  have hread : written.step ⟨.get "a", 5, .clear⟩ =
      ⟨{ written.store with
          shelf := (written.store.shelf.get "a" 5).2, counters := written.store.counters.hit },
        ⟨written.medium.bytes, .clear⟩, written.accepted, written.refused⟩ := by
    have hhit : (written.store.shelf.get "a" 5).1 = .hit "1" := by
      rw [(hwritten.get "a" 5).1]
      rfl
    rw [History.step_of_no_record rfl]
    simp only [perform, get_of_hit hhit]
    rfl
  have hh : h = (written.step ⟨.get "a", 5, .clear⟩).step ⟨.set "c" "3" none, 5, .clear⟩ := by
    simp only [h, written, first, History.run, List.foldl_cons, List.foldl_nil]
  have hlive : Follows 2 h.store.shelf [("c", ⟨"3", none⟩), ("a", ⟨"1", none⟩)] := by
    rw [hh]
    exact History.follows_granted (r := .set "c" "3" none)
      (History.follows_get hwritten "a" 5 .clear) (by rw [hread]; decide +kernel)
  have hlog : Replay.records (items h.medium.bytes) =
      [.set "a" "1" none, .set "b" "2" none, .set "c" "3" none] := by
    rw [hh, hread]
    decide +kernel
  obtain ⟨again, m', hagain⟩ :=
    Recovery.load_calm settings rfl Outlook.calm_clear 5 h.medium.bytes
  refine ⟨Recovery.load_nil settings 5 .clear, ?_, again, m', hagain, ?_⟩
  · rw [hlive.peek?_eq]
    rfl
  · rw [(Recovery.follows_of_load hagain).peek?_eq, hlog]
    rfl

end Store

end Larder
