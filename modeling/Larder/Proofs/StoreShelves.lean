import Larder.Proofs.RankingMoves
import Larder.Proofs.Replaying
import Larder.Proofs.StoreRuns

/-! What the calls of a store do to its shelf. A change that is granted does what its record says
and one that is not does nothing; a look-up moves what it finds to the front; whatever else is
asked for only takes away entries that have expired. So a run changes what is on the shelf by the
records it writes, by what it finds and by time, and by nothing else. -/

namespace Larder

namespace Shelf

/-- What a record does to a shelf. -/
def change (s : Shelf) : Record → Shelf
  | .set key value deadline => (s.put key value deadline).2
  | .delete key => (s.remove key).2

namespace Follows

variable {capacity : Nat} {s : Shelf} {l : Ranking}

theorem distinct (h : Follows capacity s l) : l.Distinct := by
  obtain ⟨rows, hs, rfl, -, -⟩ := h
  rw [Ranking.Distinct, map_key_ranking]
  exact hs.nodup

theorem change (h : Follows capacity s l) (r : Record) :
    Follows capacity (s.change r) (l.change capacity r) := by
  cases r with
  | set key value deadline => exact (h.put key value deadline).2
  | delete key => exact (h.remove key).2

theorem restore (h : Follows capacity s l) (now : Millis) (r : Record) :
    Follows capacity (Replay.restore now s r) (l.restore capacity now r) := by
  cases r with
  | set key value deadline =>
    rw [Replay.restore, Ranking.restore, Record.deadline]
    split
    · exact (h.remove key).2
    · exact (h.put key value deadline).2
  | delete key => exact (h.remove key).2

theorem restoreOnto (h : Follows capacity s l) (now : Millis) (rs : List Record) :
    Follows capacity (Replay.restoreAll now s rs) (l.restoreOnto capacity now rs) := by
  induction rs using List.reverseRecOn with
  | nil => exact h
  | append_singleton rs r ih =>
    rw [Ranking.restoreOnto_concat, Replay.restoreAll_append]
    exact ih.restore now r

theorem restoreAll (capacity : Nat) (now : Millis) (rs : List Record) :
    Follows capacity (Replay.restoreAll now (.empty capacity) rs)
      (Ranking.restoreAll capacity now rs) := (Follows.empty capacity).restoreOnto now rs

/-- A look-up finds an entry and moves it to the front, or it finds nothing and at most takes
away an entry that has expired. -/
theorem get_cases (h : Follows capacity s l) (key : String) (now : Millis) :
    (∃ entry, (key, entry) ∈ l ∧ entry.hasExpired now = false ∧
        (s.get key now).1 = .hit entry.value ∧
        Follows capacity (s.get key now).2 ((key, entry) :: l.without key)) ∨
      (∀ value, (s.get key now).1 ≠ .hit value) ∧
        ∃ l', Follows capacity (s.get key now).2 l' ∧ l.Sheds now l' := by
  obtain ⟨hsame, hnext⟩ := h.get key now
  rw [hsame]
  unfold Ranking.get at hnext ⊢
  split at hnext
  · exact .inr ⟨fun value hno => (by cases hno), l, hnext, .refl now l⟩
  · rename_i entry hfind
    have hmem := h.distinct.lookup_eq_some_iff.mp hfind
    by_cases hexpired : entry.hasExpired now = true
    · rw [if_pos hexpired] at hnext ⊢
      exact .inr ⟨fun value hno => (by cases hno), _, hnext, .of_without h.distinct hmem hexpired⟩
    · rw [if_neg hexpired] at hnext ⊢
      exact .inl ⟨entry, hmem, eq_false_of_ne_true hexpired, rfl, hnext⟩

theorem removeIfExpired_sheds (h : Follows capacity s l) (key : String) (now : Millis) :
    ∃ l', Follows capacity (s.removeIfExpired key now).2 l' ∧ l.Sheds now l' ∧
      l'.length + (s.removeIfExpired key now).1.toNat = l.length := by
  obtain ⟨hgone, hnext⟩ := h.removeIfExpired key now
  rw [hgone]
  unfold Ranking.removeIfExpired at hnext ⊢
  split at hnext
  · rename_i hexpired
    rw [if_pos hexpired]
    obtain ⟨entry, hfind, hexpired⟩ := (Option.any_eq_true _ _).mp hexpired
    have hmem := h.distinct.lookup_eq_some_iff.mp hfind
    exact ⟨_, hnext, .of_without h.distinct hmem hexpired, h.distinct.length_without hmem⟩
  · rename_i hlive
    rw [if_neg hlive]
    exact ⟨l, hnext, .refl now l, rfl⟩

theorem removeExpired_sheds (h : Follows capacity s l) (now : Millis) (keys : List String) :
    ∃ l', Follows capacity (Sweep.removeExpired now keys s).2 l' ∧ l.Sheds now l' ∧
      l'.length + (Sweep.removeExpired now keys s).1 = l.length := by
  induction keys generalizing s l with
  | nil => exact ⟨l, h, .refl now l, rfl⟩
  | cons key keys ih =>
    obtain ⟨l₁, hnext, hfirst, hcount⟩ := h.removeIfExpired_sheds key now
    obtain ⟨l₂, hlast, hrest, hcounts⟩ := ih hnext
    refine ⟨l₂, hlast, hfirst.trans hrest, ?_⟩
    have hgone : (Sweep.removeExpired now (key :: keys) s).1 =
        (Sweep.removeExpired now keys (s.removeIfExpired key now).2).1 +
          (s.removeIfExpired key now).1.toNat := by
      rw [Sweep.removeExpired]
      generalize s.removeIfExpired key now = o
      obtain ⟨gone, shelf⟩ := o
      cases gone <;> rfl
    omega

end Follows

end Shelf

namespace Store

open Larder.Shelf (Follows Ranking)

variable {s : Store} {m : Medium} {capacity : Nat} {l : Ranking}

theorem shelf_get (s : Store) (now : Millis) (key : String) :
    (s.get now key).2.shelf = (s.shelf.get key now).2 := by
  unfold get
  split <;> (rename_i h; exact (congrArg Prod.snd h).symm)

theorem get_of_hit {now : Millis} {key value : String}
    (h : (s.shelf.get key now).1 = .hit value) :
    s.get now key =
      (some value,
        { s with shelf := (s.shelf.get key now).2, counters := s.counters.hit }) := by
  unfold get
  generalize s.shelf.get key now = o at *
  obtain ⟨lookup, shelf⟩ := o
  cases h
  rfl

theorem answer_get_of_not_hit {now : Millis} {key : String}
    (h : ∀ value, (s.shelf.get key now).1 ≠ .hit value) : (s.get now key).1 = none := by
  unfold get
  split
  · rename_i value shelf h'
    exact absurd (congrArg Prod.fst h') (h value)
  · rfl
  · rfl

/-- A slice takes away expired entries, and counts them. -/
theorem slice_sheds (h : Follows capacity s.shelf l) (sweep : Sweep) (now : Millis) :
    ∃ l', Follows capacity (sweep.slice s now).2.shelf l' ∧ l.Sheds now l' ∧
      ∃ n, l'.length + n = l.length ∧ (sweep.slice s now).1.removed = sweep.removed + n ∧
        (sweep.slice s now).2.counters.expirations = s.counters.expirations + n := by
  unfold Sweep.slice
  split
  · exact ⟨l, h, .refl now l, 0, rfl, rfl, rfl⟩
  · rename_i cursor _
    obtain ⟨l', hnext, hsheds, hcount⟩ :=
      h.removeExpired_sheds now (s.shelf.expiredSlice cursor sweep.batch now).1
    refine ⟨l', ?_, hsheds, _, hcount, rfl, ?_⟩
    · dsimp only
      split <;> exact hnext
    · dsimp only
      split
      · rename_i hnone
        rw [hnone]
        rfl
      · rfl

theorem runFrom_sheds (h : Follows capacity s.shelf l) (now : Millis) (fuel : Nat)
    (sweep : Sweep) :
    ∃ l', Follows capacity (Sweep.runFrom now fuel sweep s).2.shelf l' ∧ l.Sheds now l' := by
  induction fuel generalizing s l sweep with
  | zero => exact ⟨l, h, .refl now l⟩
  | succ fuel ih =>
    unfold Sweep.runFrom
    split
    · exact ⟨l, h, .refl now l⟩
    · obtain ⟨l₁, hnext, hfirst, -⟩ := slice_sheds h sweep now
      obtain ⟨l₂, hlast, hrest⟩ := ih hnext (sweep.slice s now).1
      exact ⟨l₂, hlast, hfirst.trans hrest⟩

theorem shelf_write (s : Store) (m : Medium) (r : Record) :
    (s.write m r).store.shelf = s.shelf := by
  obtain ⟨writer, counters, h⟩ := frame_write s m r
  rw [h]

/-- A valid change does to the shelf what its record says, if it is granted. -/
theorem shelf_of_record? {now : Millis} {call : Call} {r : Record}
    (hr : call.record? s now = some r) :
    let o := s.perform m now call
    o.store.shelf = if o.answer.granted then s.shelf.change r else s.shelf := by
  cases call with
  | set key value ttl =>
    obtain ⟨hvalid, rfl⟩ := Call.record?_set_eq_some.mp hr
    have hshelf := shelf_write s m (.set key value (s.deadlineFor now ttl))
    simp only [perform, set, hvalid]
    generalize s.write m _ = o at *
    obtain ⟨result, s', m'⟩ := o
    cases result with
    | error f => exact hshelf
    | ok _ =>
      rw [← show s'.shelf = s.shelf from hshelf]
      rfl
  | delete key =>
    obtain ⟨hvalid, rfl⟩ := Call.record?_delete_eq_some.mp hr
    have hshelf := shelf_write s m (.delete key)
    simp only [perform, delete, hvalid]
    generalize s.write m _ = o at *
    obtain ⟨result, s', m'⟩ := o
    cases result with
    | error f => exact hshelf
    | ok _ =>
      rw [← show s'.shelf = s.shelf from hshelf]
      rfl
  | _ => cases hr

/-- The key of an entry that a look-up has found. -/
def Call.found? : Call → Answer → Option String
  | .get key, .value (some _) => some key
  | _, _ => none

theorem Call.eq_get_of_found? {call : Call} {answer : Answer} {key : String}
    (h : call.found? answer = some key) : call = .get key := by
  unfold found? at h
  split at h
  · exact congrArg Call.get (Option.some.inj h)
  · cases h

/-- A call without a record moves an entry that it finds to the front, or it takes away at most
what has expired. -/
theorem serves_of_no_record (h : Follows capacity s.shelf l) {now : Millis} {call : Call}
    (hr : call.record? s now = none) :
    let o := s.perform m now call
    ∃ l', Follows capacity o.store.shelf l' ∧
      l.Serves capacity now none (call.found? o.answer) l' := by
  cases call with
  | set key value ttl =>
    obtain ⟨o, ho⟩ := Call.record?_set_eq_none hr
    simp only [perform, set_of_objection ho]
    exact ⟨l, h, .sheds (.refl now l)⟩
  | delete key =>
    obtain ⟨o, ho⟩ := Call.record?_delete_eq_none hr
    simp only [perform, delete_of_objection ho]
    exact ⟨l, h, .sheds (.refl now l)⟩
  | get key =>
    simp only [perform, shelf_get]
    rcases h.get_cases key now with ⟨entry, hmem, hlive, hhit, hnext⟩ | ⟨hmiss, l', hnext, hsheds⟩
    · rw [get_of_hit hhit]
      exact ⟨_, hnext, .promotes hmem hlive⟩
    · rw [answer_get_of_not_hit hmiss]
      exact ⟨l', hnext, .sheds hsheds⟩
  | contains key => exact ⟨l, h, .sheds (.refl now l)⟩
  | stats => exact ⟨l, h, .sheds (.refl now l)⟩
  | slice sweep =>
    obtain ⟨l', hnext, hsheds, -⟩ := slice_sheds h sweep now
    exact ⟨l', hnext, .sheds hsheds⟩
  | sweep batch =>
    obtain ⟨l', hnext, hsheds⟩ :=
      runFrom_sheds h now (s.shelf.recency.slotCount + 1) (.start batch)
    exact ⟨l', hnext, .sheds hsheds⟩
  | close =>
    simp only [perform, store_close]
    exact ⟨l, h, .sheds (.refl now l)⟩

namespace History

/-- The record of a change that is asked for and granted. -/
def granted? (h : History) (e : Event) : Option Record :=
  if (h.store.perform (h.found e) e.now e.call).answer.granted then e.call.record? h.store e.now
  else none

/-- The key of an entry that is asked for and found. -/
def read? (h : History) (e : Event) : Option String :=
  e.call.found? (h.store.perform (h.found e) e.now e.call).answer

theorem accepted_step (h : History) (e : Event) :
    (h.step e).accepted = h.accepted ++ (h.granted? e).toList := by
  unfold step granted?
  dsimp only
  split
  · rfl
  · exact (List.append_nil _).symm

theorem store_step (h : History) (e : Event) :
    (h.step e).store = (h.store.perform (h.found e) e.now e.call).store := by
  unfold step
  dsimp only
  split <;> rfl

/-- A change that is granted does to the shelf what its record says. -/
theorem follows_granted {h : History} (hf : Follows capacity h.store.shelf l) {e : Event}
    {r : Record} (hr : h.granted? e = some r) :
    Follows capacity (h.step e).store.shelf (l.change capacity r) := by
  unfold granted? at hr
  split at hr
  · rename_i hgranted
    rw [store_step, shelf_of_record? hr, if_pos hgranted]
    exact hf.change r
  · cases hr

theorem follows_get {h : History} (hf : Follows capacity h.store.shelf l) (key : String)
    (now : Millis) (outlook : Outlook) :
    Follows capacity (h.step ⟨.get key, now, outlook⟩).store.shelf (l.get key now).2 := by
  rw [store_step]
  simp only [perform, shelf_get]
  exact (hf.get key now).2

/-- What a step does to the shelf, in terms of the record that it adds to those accepted. -/
theorem serves_step {h : History} (hf : Follows capacity h.store.shelf l) (e : Event) :
    ∃ l', Follows capacity (h.step e).store.shelf l' ∧
      l.Serves capacity e.now (h.granted? e) (h.read? e) l' := by
  cases hr : e.call.record? h.store e.now with
  | none =>
    have hnone : h.granted? e = none := by rw [granted?, hr, ite_self]
    rw [hnone, store_step]
    exact serves_of_no_record hf hr
  | some r =>
    have hread : h.read? e = none := by
      cases hread : h.read? e with
      | none => rfl
      | some key => rw [Call.eq_get_of_found? hread] at hr; cases hr
    rw [hread]
    cases hgranted : h.granted? e with
    | some r => exact ⟨_, follows_granted hf hgranted, .changes r⟩
    | none =>
      have hshelf : (h.step e).store.shelf = h.store.shelf := by
        rw [granted?, hr, ite_eq_right_iff] at hgranted
        rw [store_step, shelf_of_record? hr, if_neg fun hok => nomatch hgranted hok]
      rw [hshelf]
      exact ⟨l, hf, .sheds (.refl e.now l)⟩

/-- The keys that have been found since the last record about them, after a call for which a
record was written or which has found a key. -/
def reread (keys : List String) (written : Option Record) (found : Option String) : List String :=
  (found.toList ++ keys).filter fun key => written.all fun r => r.key ≠ key

@[simp]
theorem reread_none (keys : List String) (found : Option String) :
    reread keys none found = found.toList ++ keys := List.filter_true _

theorem mem_reread_of_ne {keys : List String} {key : String} {r : Record} (hkey : key ∈ keys)
    (hne : key ≠ r.key) (found : Option String) : key ∈ reread keys (some r) found := by
  refine List.mem_filter.mpr ⟨List.mem_append_right _ hkey, ?_⟩
  rw [Option.all_some, decide_eq_true_eq]
  exact Ne.symm hne

/-- The keys that have been found since the last record about them, after some more calls. -/
def keysRead (h : History) (keys : List String) : List Event → List String
  | [] => keys
  | e :: events => (h.step e).keysRead (reread keys (h.granted? e) (h.read? e)) events

/-- What every call preserves of the records that count, the keys that have been found since and
the ranking holds after a run. -/
theorem run_invariant (holds : List Record → List String → Ranking → Prop) {events : List Event}
    (hstep : ∀ e ∈ events, ∀ {log keys l written found l'}, l.Distinct →
      l.Serves capacity e.now written found l' → (∀ key, found = some key → e.call = .get key) →
      holds log keys l → holds (log ++ written.toList) (reread keys written found) l')
    {h : History} {log : List Record} {keys : List String}
    (hf : Follows capacity h.store.shelf l) (hholds : holds (log ++ h.accepted) keys l) :
    ∃ l', Follows capacity (h.run events).store.shelf l' ∧
      holds (log ++ (h.run events).accepted) (h.keysRead keys events) l' := by
  induction events generalizing h keys l with
  | nil => exact ⟨l, hf, hholds⟩
  | cons e events ih =>
    obtain ⟨l', hnext, hserves⟩ := serves_step hf e
    have hheld := hstep e List.mem_cons_self hf.distinct hserves
      (fun key hread => Call.eq_get_of_found? hread) hholds
    rw [List.append_assoc, ← accepted_step] at hheld
    exact ih (fun e' he' => hstep e' (List.mem_cons_of_mem e he')) hnext hheld

end History

end Store

end Larder
