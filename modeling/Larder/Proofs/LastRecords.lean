import Larder.Proofs.Successions

/-! The last record about a key decides what a store can serve for it. Whatever is evicted, expires
or is refused, an entry on the shelf is what that record stores, in a store that has been running
and in one that is loaded from the file it leaves; so no value comes back once its key has been
deleted or set again. -/

namespace Larder

/-- The last record about a key. -/
def Record.lastAbout? (rs : List Record) (key : String) : Option Record :=
  rs.reverse.find? fun r => r.key = key

namespace Record

variable {rs : List Record} {r : Record} {key : String}

theorem lastAbout?_concat (rs : List Record) (r : Record) (key : String) :
    lastAbout? (rs ++ [r]) key = if r.key = key then some r else lastAbout? rs key := by
  rw [lastAbout?, List.reverse_append, List.reverse_singleton, List.singleton_append,
    List.find?_cons]
  by_cases h : r.key = key
  · rw [if_pos h, decide_eq_true h]
  · rw [if_neg h, decide_eq_false h]
    rfl

theorem mem_of_lastAbout? (h : lastAbout? rs key = some r) : r ∈ rs :=
  List.mem_reverse.mp (List.mem_of_find?_eq_some h)

end Record

open Record (lastAbout? lastAbout?_concat)

namespace Shelf.Ranking

/-- Every entry is what the last record about its key stores. -/
def Recalls (l : Ranking) (rs : List Record) : Prop :=
  ∀ p ∈ l, lastAbout? rs p.1 = some (.set p.1 p.2.value p.2.deadline)

namespace Recalls

variable {l l' : Ranking} {rs : List Record} {capacity : Nat} {now : Millis}

theorem concat (h : l.Recalls rs) {r : Record}
    (hmem : ∀ p ∈ l', r = .set p.1 p.2.value p.2.deadline ∨ p ∈ l ∧ p.1 ≠ r.key) :
    l'.Recalls (rs ++ [r]) := by
  intro p hp
  rw [lastAbout?_concat]
  rcases hmem p hp with rfl | ⟨hp, hkey⟩
  · exact if_pos rfl
  · rw [if_neg (Ne.symm hkey)]
    exact h p hp

theorem change (h : l.Recalls rs) (capacity : Nat) (r : Record) :
    (l.change capacity r).Recalls (rs ++ [r]) := h.concat fun _ hp => mem_change hp

theorem restore (h : l.Recalls rs) (capacity : Nat) (now : Millis) (r : Record) :
    (l.restore capacity now r).Recalls (rs ++ [r]) :=
  h.concat fun _ hp => (mem_restore hp).imp_left And.left

theorem subset (h : l.Recalls rs) (hsub : ∀ p ∈ l', p ∈ l) : l'.Recalls rs :=
  fun p hp => h p (hsub p hp)

theorem serves (h : l.Recalls rs) {written : Option Record} {found : Option String}
    (hserves : l.Serves capacity now written found l') : l'.Recalls (rs ++ written.toList) := by
  cases hserves with
  | changes r => exact h.change capacity r
  | promotes hmem hlive =>
    rw [Option.toList_none, List.append_nil]
    exact h.subset fun p hp => mem_of_mem_promoted hmem hp
  | sheds hsheds =>
    rw [Option.toList_none, List.append_nil]
    exact h.subset fun p hp => hsheds.sublist.subset hp

end Recalls

theorem recalls_restoreAll (capacity : Nat) (now : Millis) (rs : List Record) :
    (restoreAll capacity now rs).Recalls rs := by
  induction rs using List.reverseRecOn with
  | nil => exact fun _ hp => (List.not_mem_nil hp).elim
  | append_singleton rs r ih =>
    rw [restoreAll_concat]
    exact ih.restore capacity now r

/-- What is found on a shelf that stands for a ranking is what the last record stores. -/
theorem Recalls.find? {l : Ranking} {rs : List Record} (h : l.Recalls rs) {capacity : Nat}
    {s : Shelf} (hs : Follows capacity s l) {key : String} {entry : Entry}
    (hfind : s.find? key = some entry) :
    lastAbout? rs key = some (.set key entry.value entry.deadline) := by
  rw [hs.find?_eq, hs.distinct.lookup_eq_some_iff] at hfind
  exact h (key, entry) hfind

end Shelf.Ranking

namespace Store

open Journal

namespace Succession

theorem run_concat (c : Succession) (lives : List Life) (x : Life) :
    c.run (lives ++ [x]) = (c.run lives).live x := List.foldl_append

/-- A store that is there after a life was loaded at its beginning. -/
theorem load_of_store {c : Succession} {x : Life} {s : Store} (h : (c.live x).store = some s) :
    ∃ recovered m, Recovery.load x.settings x.now ⟨c.bytes, x.outlook⟩ = (.ok recovered, m) ∧
      (c.live x).bytes = ((History.start recovered.store m).run x.events).medium.bytes ∧
      s = ((History.start recovered.store m).run x.events).store := by
  unfold live at h ⊢
  split at h
  · cases h
  · rename_i recovered m hload
    cases h
    exact ⟨recovered, m, hload, rfl, rfl⟩

theorem recalls_of_store {c : Succession} {x : Life} (hcuts : x.CutsHold) {s : Store}
    (h : (c.live x).store = some s) :
    ∃ l, Shelf.Follows x.settings.maxEntries s.shelf l ∧
      l.Recalls (Replay.records (items (c.live x).bytes)) := by
  obtain ⟨recovered, m, hload, hbytes, rfl⟩ := load_of_store h
  rw [hbytes]
  exact History.run_of_load (fun log _ l => l.Recalls log) hload hcuts
    (Shelf.Ranking.recalls_restoreAll _ _ _) fun _ _ _ _ _ _ _ _ _ hserves _ hrecalls =>
      hrecalls.serves hserves

end Succession

/-- As long as no cut fails, whatever an entry says that the last store holds, or that a store holds
which is loaded from the file, the last record about its key says too: among those that counted at
the first and those of the changes that were granted. -/
theorem last_of_held (file : Bytes) {lives : List Life} (hcuts : ∀ x ∈ lives, x.CutsHold) :
    let c := (Succession.of file).run lives
    let log := Replay.records (items (completePrefix file)) ++ c.accepted
    (∀ s key entry, c.store = some s → s.shelf.find? key = some entry →
        lastAbout? log key = some (.set key entry.value entry.deadline)) ∧
      ∀ settings now outlook,
        (∀ again m', Recovery.load settings now ⟨c.bytes, outlook⟩ = (.ok again, m') →
          ∀ key entry, again.store.shelf.find? key = some entry →
            lastAbout? log key = some (.set key entry.value entry.deadline)) ∧
        (settings.policy = .skip → outlook.Calm →
          ∃ again m', Recovery.load settings now ⟨c.bytes, outlook⟩ = (.ok again, m')) := by
  intro c log
  have hlog : Replay.records (items c.bytes) = log :=
    ((Succession.upholds_of file).run hcuts).records
  refine ⟨fun s key entry hstore hfind => ?_, fun settings now outlook => ⟨?_, ?_⟩⟩
  · rcases List.eq_nil_or_concat' lives with rfl | ⟨before, x, rfl⟩
    · cases hstore
    · have hlast : c = ((Succession.of file).run before).live x := Succession.run_concat _ _ _
      rw [hlast] at hstore
      obtain ⟨l, hfollows, hrecalls⟩ := Succession.recalls_of_store
        (hcuts x (List.mem_append_right _ List.mem_cons_self)) hstore
      rw [← hlast, hlog] at hrecalls
      exact hrecalls.find? hfollows hfind
  · intro again m' hload key entry hfind
    have hfollows := Recovery.follows_of_load hload
    rw [show Replay.records (items _) = log from hlog] at hfollows
    exact (Shelf.Ranking.recalls_restoreAll _ _ _).find? hfollows hfind
  · intro hskip hcalm
    exact Recovery.load_calm settings hskip hcalm now c.bytes

/-- A store with room for one entry lets `a` go and later records that it is deleted; a second value
for `b` cannot be synced. The next store has more room and an earlier clock. -/
theorem last_of_held_evicted :
    let x : Life := ⟨{ Settings.default with maxEntries := 1 }, 5, .clear,
      [⟨.set "a" "1" none, 5, .clear⟩, ⟨.set "b" "2" none, 3, .clear⟩, ⟨.delete "a", 4, .clear⟩,
        ⟨.set "b" "3" none, 4, ⟨none, .first 1, .none⟩⟩]⟩
    let y : Life := ⟨.default, 0, .clear, []⟩
    let c := (Succession.of []).run [x, y]
    (∀ z ∈ [x, y], z.CutsHold) ∧
      c.accepted = [.set "a" "1" none, .set "b" "2" none, .delete "a"] ∧
      ∃ s, c.store = some s ∧ s.shelf.find? "a" = none ∧
        s.shelf.find? "b" = some ⟨"2", none⟩ ∧
        lastAbout? (Replay.records (items (completePrefix [])) ++ c.accepted) "b" =
          some (.set "b" "2" none) := by
  intro x y c
  have hcuts : ∀ z ∈ [x, y], z.CutsHold := by
    intro z hz
    rcases List.mem_cons.mp hz with rfl | hz
    · intro e he
      simp only [x, List.mem_cons, List.not_mem_nil, or_false] at he
      rcases he with rfl | rfl | rfl | rfl <;> exact fun _ => rfl
    · rw [List.mem_singleton.mp hz]
      exact fun e he => (List.not_mem_nil he).elim
  let rs : List Record := [.set "a" "1" none, .set "b" "2" none, .delete "a"]
  have hfirst : ((Succession.of []).live x).bytes = encoding rs ∧
      ((Succession.of []).live x).accepted = rs := by decide +kernel
  obtain ⟨recovered, m, hload⟩ := Recovery.load_calm .default rfl
    Outlook.calm_clear 0 ((Succession.of []).live x).bytes
  have hc : c = ((Succession.of []).live x).live y := by
    simp only [c, Succession.run, List.foldl_cons, List.foldl_nil]
  rw [Succession.live_of_load (x := y) hload] at hc
  have hfollows := Recovery.follows_of_load hload
  rw [hfirst.1, items_encoding (by decide), Replay.records_map_ok] at hfollows
  have hstore : c.store = some recovered.store := by rw [hc]; rfl
  have hb : recovered.store.shelf.find? "b" = some ⟨"2", none⟩ := by
    rw [hfollows.find?_eq]
    rfl
  refine ⟨hcuts, ?_, recovered.store, hstore, ?_, hb, (last_of_held [] hcuts).1 _ _ _ hstore hb⟩
  · rw [hc]
    exact (congrArg (· ++ []) hfirst.2).trans (List.append_nil rs)
  · rw [hfollows.find?_eq]
    rfl

end Store

end Larder
