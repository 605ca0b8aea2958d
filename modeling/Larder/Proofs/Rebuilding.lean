import Mathlib.Data.List.Dedup
import Larder.Proofs.LastRecords

/-! When a store that is loaded from a file has what the store before it has that wrote the file.
They agree in all, the order of the entries included, as long as nothing has been looked up and no
deadline has passed: then both have done the same with the same records. They agree in what they
serve, whatever has been looked up, swept or gone unnoticed in between, as long as there is room
for all keys: then what is served is what the last records say. -/

namespace Larder

namespace Record

/-- How many keys records are about. -/
def keyCount (rs : List Record) : Nat := (rs.map key).dedup.length

/-- No deadline has passed. -/
def Unlapsed (now : Millis) (rs : List Record) : Prop := ∀ r ∈ rs, r.deadline.hasPassed now = false

instance (now : Millis) (rs : List Record) : Decidable (Unlapsed now rs) :=
  inferInstanceAs (Decidable (∀ r ∈ rs, r.deadline.hasPassed now = false))

/-- Keys that are not repeated are no more than records are about. -/
theorem length_le_keyCount {keys : List String} (hkeys : keys.Nodup) {rs : List Record}
    (h : keys ⊆ rs.map key) : keys.length ≤ keyCount rs :=
  hkeys.length_le_of_subset fun _ hkey => List.mem_dedup.mpr (h hkey)

theorem keyCount_mono {rs qs : List Record} (h : rs ⊆ qs) : keyCount rs ≤ keyCount qs :=
  length_le_keyCount (List.nodup_dedup _) fun _ hkey => List.map_subset _ h (List.mem_dedup.mp hkey)

end Record

open Record (lastAbout? lastAbout?_concat keyCount keyCount_mono Unlapsed)

namespace Shelf.Ranking

/-- What records do that are written one after the other. -/
def changeAll (capacity : Nat) (rs : List Record) : Ranking := rs.foldl (change capacity) []

theorem changeAll_concat (capacity : Nat) (rs : List Record) (r : Record) :
    changeAll capacity (rs ++ [r]) = (changeAll capacity rs).change capacity r := by
  rw [changeAll, List.foldl_append]
  rfl

/-- A replay before all deadlines does what the records did when they were written. -/
theorem restoreAll_of_unlapsed {now : Millis} {rs : List Record} (h : Unlapsed now rs)
    (capacity : Nat) : restoreAll capacity now rs = changeAll capacity rs := by
  refine List.foldl_ext _ _ _ fun l r hr => ?_
  rw [restore, h r hr, if_neg Bool.false_ne_true]

variable {l l' : Ranking} {rs : List Record} {capacity : Nat} {time now : Millis}

/-- Before all deadlines a call that finds nothing changes nothing but by its record. -/
theorem changeAll_serves (h : Unlapsed time rs) {written : Option Record}
    (hserves : (changeAll capacity rs).Serves capacity time written none l') :
    l' = changeAll capacity (rs ++ written.toList) := by
  cases hserves with
  | changes r => rw [Option.toList_some, changeAll_concat]
  | sheds hsheds =>
    rw [Option.toList_none, List.append_nil]
    rw [← restoreAll_of_unlapsed h] at hsheds ⊢
    exact hsheds.eq_of_live (distinct_restoreAll _ _ _) fun p hp => hasExpired_of_mem_restoreAll hp

/-- With room for all keys nothing has to go for a new entry. -/
theorem Recalls.change_set (h : l.Recalls rs) (hl : l.Distinct) {key value : String}
    {deadline : Deadline} (hroom : keyCount (rs ++ [.set key value deadline]) ≤ capacity) :
    l.change capacity (.set key value deadline) = (key, ⟨value, deadline⟩) :: l.without key := by
  have hmem : ∀ r ∈ rs ++ [Record.set key value deadline],
      r.key ∈ ((rs ++ [Record.set key value deadline]).map Record.key).dedup := fun r hr =>
    List.mem_dedup.mpr (List.mem_map_of_mem hr)
  refine hl.change_set (fun k hk => ?_) hroom (hmem _ (List.mem_append_right _ List.mem_cons_self))
  obtain ⟨p, hp, rfl⟩ := List.mem_map.mp hk
  exact hmem _ (List.mem_append_left _ (Record.mem_of_lastAbout? (h p hp)))

/-- Every entry is what the last record about its key stores, and what such records store is there
unless it has expired. -/
structure Mirrors (now : Millis) (l : Ranking) (rs : List Record) : Prop where
  recalls : l.Recalls rs
  retains : ∀ key value deadline, lastAbout? rs key = some (.set key value deadline) →
    deadline.hasPassed now = false → (key, ⟨value, deadline⟩) ∈ l

namespace Mirrors

theorem concat (h : l.Mirrors now rs) {r : Record} (hrecalls : l'.Recalls (rs ++ [r]))
    (hkept : ∀ p ∈ l, p.1 ≠ r.key → p ∈ l')
    (hnew : ∀ key value deadline, r = .set key value deadline → deadline.hasPassed now = false →
      (key, ⟨value, deadline⟩) ∈ l') : l'.Mirrors now (rs ++ [r]) := by
  refine ⟨hrecalls, fun key value deadline hlast hlive => ?_⟩
  rw [lastAbout?_concat] at hlast
  split at hlast
  · exact hnew key value deadline (Option.some.inj hlast) hlive
  · rename_i hkey
    exact hkept _ (h.retains key value deadline hlast hlive) (Ne.symm hkey)

theorem change (h : l.Mirrors now rs) (hl : l.Distinct) {r : Record}
    (hroom : keyCount (rs ++ [r]) ≤ capacity) : (l.change capacity r).Mirrors now (rs ++ [r]) := by
  refine h.concat (h.recalls.change capacity r) ?_ ?_
  · intro p hp hkey
    cases r with
    | set key value deadline =>
      rw [h.recalls.change_set hl hroom]
      exact List.mem_cons_of_mem _ (mem_without.mpr ⟨hp, hkey⟩)
    | delete key => exact mem_without.mpr ⟨hp, hkey⟩
  · rintro key value deadline rfl -
    rw [h.recalls.change_set hl hroom]
    exact List.mem_cons_self

theorem restore (h : l.Mirrors now rs) (hl : l.Distinct) (hle : time ≤ now) {r : Record}
    (hroom : keyCount (rs ++ [r]) ≤ capacity) :
    (l.restore capacity time r).Mirrors now (rs ++ [r]) := by
  by_cases hpassed : r.deadline.hasPassed time = true
  · have hgone : l.restore capacity time r = l.without r.key := if_pos hpassed
    refine h.concat (h.recalls.restore capacity time r) (fun p hp hkey => ?_) ?_
    · rw [hgone]
      exact mem_without.mpr ⟨hp, hkey⟩
    -- What the record stores is dropped, and it would have expired by the later time anyhow.
    · rintro key value deadline rfl hlive
      have : deadline.hasPassed now = true := Deadline.hasPassed_mono hpassed hle
      rw [hlive] at this
      cases this
  · rw [Ranking.restore, if_neg hpassed]
    exact h.change hl hroom

theorem sheds (h : l.Mirrors now rs) (hle : time ≤ now) (hsheds : l.Sheds time l') :
    l'.Mirrors now rs := by
  refine ⟨h.recalls.subset fun p hp => hsheds.sublist.subset hp, ?_⟩
  intro key value deadline hlast hlive
  by_contra hno
  have hpassed : deadline.hasPassed time = true :=
    hsheds.expired _ (h.retains key value deadline hlast hlive) hno
  rw [Deadline.hasPassed_mono hpassed hle] at hlive
  cases hlive

theorem promote (h : l.Mirrors now rs) (hl : l.Distinct) {key : String} {entry : Entry}
    (hmem : (key, entry) ∈ l) : Mirrors now ((key, entry) :: l.without key) rs :=
  ⟨h.recalls.subset fun _ hp => mem_of_mem_promoted hmem hp,
    fun _ _ _ hlast hlive => hl.mem_promoted hmem (h.retains _ _ _ hlast hlive)⟩

theorem serves (h : l.Mirrors now rs) (hl : l.Distinct) (hle : time ≤ now)
    {written : Option Record} {found : Option String}
    (hserves : l.Serves capacity time written found l')
    (hroom : keyCount (rs ++ written.toList) ≤ capacity) :
    l'.Mirrors now (rs ++ written.toList) := by
  cases hserves with
  | changes r => exact h.change hl hroom
  | promotes hmem hlive =>
    rw [Option.toList_none, List.append_nil]
    exact h.promote hl hmem
  | sheds hsheds =>
    rw [Option.toList_none, List.append_nil]
    exact h.sheds hle hsheds

theorem peek?_eq_some_iff (h : l.Mirrors now rs) (hl : l.Distinct) {key : String} {entry : Entry} :
    l.peek? key now = some entry ↔
      lastAbout? rs key = some (.set key entry.value entry.deadline) ∧
        entry.hasExpired now = false := by
  rw [Ranking.peek?_eq_some_iff hl]
  exact ⟨fun ⟨hmem, hlive⟩ => ⟨h.recalls _ hmem, hlive⟩,
    fun ⟨hlast, hlive⟩ => ⟨h.retains _ _ _ hlast hlive, hlive⟩⟩

end Mirrors

theorem mirrors_restoreAll (hle : time ≤ now) (hroom : keyCount rs ≤ capacity) :
    (restoreAll capacity time rs).Mirrors now rs := by
  induction rs using List.reverseRecOn with
  | nil => exact ⟨fun _ hp => (List.not_mem_nil hp).elim, fun _ _ _ hlast => by cases hlast⟩
  | append_singleton rs r ih =>
    rw [restoreAll_concat]
    have hbefore := Nat.le_trans (keyCount_mono (List.subset_append_left rs [r])) hroom
    exact (ih hbefore).restore (distinct_restoreAll _ _ _) hle hroom

end Shelf.Ranking

namespace Store

open Journal
open Larder.Shelf (Follows Ranking)

/-- What the clock says when a store is loaded and at each of its calls. -/
def Life.readings (x : Life) : List Millis := x.now :: x.events.map Event.now

theorem Life.now_mem_readings (x : Life) : x.now ∈ x.readings := List.mem_cons_self

theorem Life.mem_readings {x : Life} {e : Event} (he : e ∈ x.events) : e.now ∈ x.readings :=
  List.mem_cons_of_mem _ (List.mem_map_of_mem he)

namespace Succession

variable {x : Life}

/-- Where nothing fails there is a store after a life, and what every call preserves of the records
and the ranking, and what holds of them when a store is loaded, holds of them then. -/
theorem exists_store (c : Succession) (holds : List Record → Ranking → Prop) (hcalm : x.Calm)
    (hskip : x.settings.policy = .skip)
    (hstart : ∀ log, holds log (.restoreAll x.settings.maxEntries x.now log))
    (hstep : ∀ e ∈ x.events, ∀ {log l written found l'}, l.Distinct →
      l.Serves x.settings.maxEntries e.now written found l' →
      (∀ key, found = some key → e.call = .get key) →
      holds log l → holds (log ++ written.toList) l') :
    ∃ s l, (c.live x).store = some s ∧ Follows x.settings.maxEntries s.shelf l ∧
      holds (Replay.records (items (c.live x).bytes)) l := by
  obtain ⟨recovered, m, hload⟩ := Recovery.load_calm x.settings hskip hcalm.load x.now c.bytes
  obtain ⟨l, hfollows, hholds⟩ := History.run_of_load (fun log _ l => holds log l) hload
    (fun e he => (hcalm.events e he).cutsHold) (hstart _) fun e he {_ _ _ _ _ _} => hstep e he
  rw [live_of_load hload]
  exact ⟨_, l, rfl, hfollows, hholds⟩

/-- A store that has never looked anything up, before all deadlines: each record has been written
to it, and nothing else has happened to it. -/
theorem changeAll_of_unread (c : Succession) (hcalm : x.Calm) (hskip : x.settings.policy = .skip)
    (hunread : ∀ e ∈ x.events, ∀ key, e.call ≠ .get key)
    (hreadings : ∀ time ∈ x.readings, Unlapsed time (Replay.records (items (c.live x).bytes))) :
    ∃ s, (c.live x).store = some s ∧ Follows x.settings.maxEntries s.shelf
      (.changeAll x.settings.maxEntries (Replay.records (items (c.live x).bytes))) := by
  obtain ⟨s, l, hstore, hfollows, hl⟩ := c.exists_store
    (fun log l =>
      (∀ time ∈ x.readings, Unlapsed time log) → l = .changeAll x.settings.maxEntries log)
    hcalm hskip
    (fun log h => Ranking.restoreAll_of_unlapsed (h _ x.now_mem_readings) _)
    (by
      intro e he log l written found l' _ hserves hfound hheld h
      have hbefore : ∀ time ∈ x.readings, Unlapsed time log := fun time ht r hr =>
        h time ht r (List.mem_append_left _ hr)
      cases found with
      | some key => exact absurd (hfound key rfl) (hunread e he key)
      | none =>
        rw [hheld hbefore] at hserves
        exact Ranking.changeAll_serves (hbefore _ (Life.mem_readings he)) hserves)
  rw [hl hreadings] at hfollows
  exact ⟨s, hstore, hfollows⟩

/-- With room for all keys a store has what its records say, as far as it has not expired. -/
theorem mirrors_of_room (c : Succession) (hcalm : x.Calm) (hskip : x.settings.policy = .skip)
    (hroom : keyCount (Replay.records (items (c.live x).bytes)) ≤ x.settings.maxEntries) :
    ∃ s l, (c.live x).store = some s ∧ Follows x.settings.maxEntries s.shelf l ∧
      ∀ now, (∀ time ∈ x.readings, time ≤ now) →
        l.Mirrors now (Replay.records (items (c.live x).bytes)) := by
  obtain ⟨s, l, hstore, hfollows, hl⟩ := c.exists_store
    (fun log l => keyCount log ≤ x.settings.maxEntries →
      ∀ now, (∀ time ∈ x.readings, time ≤ now) → l.Mirrors now log)
    hcalm hskip
    (fun log hroom now h => Ranking.mirrors_restoreAll (h _ x.now_mem_readings) hroom)
    (by
      intro e he log l written found l' hdistinct hserves _ hheld hroom now h
      have hbefore := Nat.le_trans (keyCount_mono (List.subset_append_left log _)) hroom
      exact (hheld hbefore now h).serves hdistinct (h _ (Life.mem_readings he)) hserves hroom)
  exact ⟨s, l, hstore, hfollows, hl hroom⟩

end Succession

/-- A store that has never looked anything up, and before whose deadlines all of this happens, has
what one will have that is loaded from the file it leaves: the same keys in the same order, and the
same entries for them. -/
theorem reload_eq_of_unread (file : Bytes) (lives : List Life) {x : Life} (hcalm : x.Calm)
    (hskip : x.settings.policy = .skip) (hunread : ∀ e ∈ x.events, ∀ key, e.call ≠ .get key) :
    let c := ((Succession.of file).run lives).live x
    let log := Replay.records (items c.bytes)
    (∀ time ∈ x.readings, Unlapsed time log) →
      ∃ s, c.store = some s ∧ ∀ (settings : Settings) now (outlook : Outlook),
        settings.policy = .skip → settings.maxEntries = x.settings.maxEntries → outlook.Calm →
        Unlapsed now log →
        ∃ again m', Recovery.load settings now ⟨c.bytes, outlook⟩ = (.ok again, m') ∧
          again.store.shelf.keysByRecency = s.shelf.keysByRecency ∧
          ∀ key, again.store.shelf.find? key = s.shelf.find? key := by
  intro c log hreadings
  obtain ⟨s, hstore, hfollows⟩ :=
    Succession.changeAll_of_unread ((Succession.of file).run lives) hcalm hskip hunread hreadings
  refine ⟨s, hstore, fun settings now outlook hskip hcapacity hcalm hnow => ?_⟩
  obtain ⟨again, m', hagain⟩ := Recovery.load_calm settings hskip hcalm now c.bytes
  have hsame := Recovery.follows_of_load hagain
  rw [hcapacity, Ranking.restoreAll_of_unlapsed hnow] at hsame
  refine ⟨again, m', hagain, ?_, fun key => ?_⟩
  · rw [hsame.keysByRecency_eq, hfollows.keysByRecency_eq]
  · rw [hsame.find?_eq, hfollows.find?_eq]

/-- A store with room for two entries writes three; the first of them has to go. -/
theorem reload_eq_of_unread_evicted :
    let x : Life := ⟨{ Settings.default with maxEntries := 2 }, 3, .clear,
      [⟨.set "a" "1" none, 3, .clear⟩, ⟨.set "b" "2" (some (.ofMillis 10)), 3, .clear⟩,
        ⟨.contains "a", 3, .clear⟩, ⟨.set "c" "3" none, 4, .clear⟩, ⟨.close, 6, .clear⟩]⟩
    let c := ((Succession.of []).run []).live x
    x.Calm ∧ (∀ e ∈ x.events, ∀ key, e.call ≠ .get key) ∧
      (∀ time ∈ x.readings, Unlapsed time (Replay.records (items c.bytes))) ∧
      ∃ s again m', c.store = some s ∧
        Recovery.load x.settings 12 ⟨c.bytes, .clear⟩ = (.ok again, m') ∧
        s.shelf.keysByRecency = ["c", "b"] ∧ again.store.shelf.keysByRecency = ["c", "b"] ∧
        ∀ key, again.store.shelf.find? key = s.shelf.find? key := by
  intro x c
  have hlog : Replay.records (items c.bytes) =
      [.set "a" "1" none, .set "b" "2" (some 13), .set "c" "3" none] := by decide +kernel
  have hcalm : x.Calm := .of_clear rfl (by simp [x])
  have hunread : ∀ e ∈ x.events, ∀ key, e.call ≠ .get key := by
    simp [x]
  have hreadings : ∀ time ∈ x.readings, Unlapsed time (Replay.records (items c.bytes)) := by
    rw [hlog]
    simp [x, Life.readings, Unlapsed, Record.deadline]
  have hnow : Unlapsed 12 (Replay.records (items c.bytes)) := by
    rw [hlog]
    decide +kernel
  obtain ⟨s, hstore, hreload⟩ := reload_eq_of_unread [] [] hcalm rfl hunread hreadings
  obtain ⟨again, m', hagain, hkeys, hfind⟩ :=
    hreload x.settings 12 .clear rfl rfl Outlook.calm_clear hnow
  have hagainKeys : again.store.shelf.keysByRecency = ["c", "b"] := by
    rw [(Recovery.follows_of_load hagain).keysByRecency_eq, hlog]
    decide +kernel
  exact ⟨hcalm, hunread, hreadings, s, again, m', hstore, hagain, hkeys ▸ hagainKeys, hagainKeys,
    hfind⟩

/-- With room for every key that its file knows, a store serves what one will serve that is loaded
from that file, whatever has been looked up and whatever has expired, noticed or not. -/
theorem peek?_reload (file : Bytes) (lives : List Life) {x : Life} (hcalm : x.Calm)
    (hskip : x.settings.policy = .skip) :
    let c := ((Succession.of file).run lives).live x
    let log := Replay.records (items c.bytes)
    keyCount log ≤ x.settings.maxEntries →
      ∃ s, c.store = some s ∧ ∀ (settings : Settings) now (outlook : Outlook),
        settings.policy = .skip → keyCount log ≤ settings.maxEntries → outlook.Calm →
        (∀ time ∈ x.readings, time ≤ now) →
        ∃ again m', Recovery.load settings now ⟨c.bytes, outlook⟩ = (.ok again, m') ∧
          ∀ key, again.store.shelf.peek? key now = s.shelf.peek? key now := by
  intro c log hroom
  obtain ⟨s, l, hstore, hfollows, hmirrors⟩ :=
    Succession.mirrors_of_room ((Succession.of file).run lives) hcalm hskip hroom
  refine ⟨s, hstore, fun settings now outlook hskip hagainRoom hcalm hnow => ?_⟩
  obtain ⟨again, m', hagain⟩ := Recovery.load_calm settings hskip hcalm now c.bytes
  have hsame := Recovery.follows_of_load hagain
  have hagainMirrors := Ranking.mirrors_restoreAll (UInt64.le_refl now) hagainRoom
  refine ⟨again, m', hagain, fun key => Option.ext fun entry => ?_⟩
  rw [hsame.peek?_eq, hfollows.peek?_eq,
    (hmirrors now hnow).peek?_eq_some_iff hfollows.distinct]
  exact hagainMirrors.peek?_eq_some_iff hsame.distinct

/-- An entry that has expired by the end hides an older value of its key: it is looked up when that
is not yet so, and nothing notices that it is later. -/
theorem peek?_reload_expired :
    let x : Life := ⟨{ Settings.default with maxEntries := 2 }, 3, .clear,
      [⟨.set "a" "1" none, 3, .clear⟩, ⟨.set "b" "2" none, 3, .clear⟩,
        ⟨.set "a" "3" (some (.ofMillis 10)), 4, .clear⟩, ⟨.get "a", 5, .clear⟩]⟩
    let c := ((Succession.of []).run []).live x
    x.Calm ∧ keyCount (Replay.records (items c.bytes)) ≤ 2 ∧ (∀ time ∈ x.readings, time ≤ 14) ∧
      ∃ s again m', c.store = some s ∧
        Recovery.load x.settings 14 ⟨c.bytes, .clear⟩ = (.ok again, m') ∧
        again.store.shelf.peek? "a" 14 = none ∧
        ∀ key, again.store.shelf.peek? key 14 = s.shelf.peek? key 14 := by
  intro x c
  have hlog : Replay.records (items c.bytes) =
      [.set "a" "1" none, .set "b" "2" none, .set "a" "3" (some 14)] := by decide +kernel
  have hcalm : x.Calm := .of_clear rfl (by simp [x])
  have hroom : keyCount (Replay.records (items c.bytes)) ≤ 2 := by
    rw [hlog]
    decide +kernel
  have hreadings : ∀ time ∈ x.readings, time ≤ 14 := by simp [x, Life.readings]
  obtain ⟨s, hstore, hreload⟩ := peek?_reload [] [] hcalm rfl hroom
  obtain ⟨again, m', hagain, hpeek⟩ :=
    hreload x.settings 14 .clear rfl hroom Outlook.calm_clear hreadings
  refine ⟨hcalm, hroom, hreadings, s, again, m', hstore, hagain, ?_, hpeek⟩
  rw [(Recovery.follows_of_load hagain).peek?_eq, hlog]
  decide +kernel

end Store

end Larder
