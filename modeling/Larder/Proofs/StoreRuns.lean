import Larder.Sweep
import Larder.Proofs.DiskCalls

/-! Runs of a store: any calls in any order, each at its own clock reading and with its own
outlook for the disk. Only a change that is asked for validly reaches the journal, and it
reaches it as one append; closing syncs the journal and lets it go, and no other call touches
it. -/

namespace Larder.Store

/-- What a store can be asked for. A slice belongs to any sweep, wherever that one stands. -/
inductive Call
  | set (key value : String) (ttl : Option Duration)
  | get (key : String)
  | delete (key : String)
  | contains (key : String)
  | stats
  | slice (sweep : Sweep)
  | sweep (batch : Nat)
  | close

inductive Answer
  | done (result : Except Failure Unit)
  | deleted (result : Except Failure Bool)
  | value (found : Option String)
  | contains (served : Bool)
  | stats (counters : Counters)
  | slice (sweep : Sweep)
  | swept (removed : Nat)

def Answer.granted : Answer → Bool
  | .done result => result.isOk
  | .deleted result => result.isOk
  | _ => true

def perform (s : Store) (m : Medium) (now : Millis) : Call → Outcome Answer
  | .set key value ttl =>
    let o := s.set m now key value ttl
    ⟨.done o.answer, o.store, o.medium⟩
  | .get key => let (found, s) := s.get now key; ⟨.value found, s, m⟩
  | .delete key =>
    let o := s.delete m now key
    ⟨.deleted o.answer, o.store, o.medium⟩
  | .contains key => ⟨.contains (s.contains now key), s, m⟩
  | .stats => ⟨.stats s.stats, s, m⟩
  | .slice sweep => let (sweep, s) := sweep.slice s now; ⟨.slice sweep, s, m⟩
  | .sweep batch => let (removed, s) := s.sweep now batch; ⟨.swept removed, s, m⟩
  | .close =>
    let o := s.close m
    ⟨.done o.answer, o.store, o.medium⟩

/-- The record that is written for a call; none if it asks for no change or for one that is not
allowed. -/
def Call.record? (s : Store) (now : Millis) : Call → Option Record
  | .set key value ttl =>
    if (entryObjection? key value).isNone then some (.set key value (s.deadlineFor now ttl))
    else none
  | .delete key => if (keyObjection? key).isNone then some (.delete key) else none
  | _ => none

theorem Call.record?_set_eq_some {s : Store} {now : Millis} {key value : String}
    {ttl : Option Duration} {r : Record} :
    (Call.set key value ttl).record? s now = some r ↔
      entryObjection? key value = none ∧ .set key value (s.deadlineFor now ttl) = r := by
  rw [record?, Option.ite_none_right_eq_some, Option.isNone_iff_eq_none, Option.some.injEq]

theorem Call.record?_delete_eq_some {s : Store} {now : Millis} {key : String} {r : Record} :
    (Call.delete key).record? s now = some r ↔ keyObjection? key = none ∧ .delete key = r := by
  rw [record?, Option.ite_none_right_eq_some, Option.isNone_iff_eq_none, Option.some.injEq]

theorem Call.record?_set_eq_none {s : Store} {now : Millis} {key value : String}
    {ttl : Option Duration} (h : (Call.set key value ttl).record? s now = none) :
    ∃ o, entryObjection? key value = some o := by
  cases hvalid : entryObjection? key value with
  | some o => exact ⟨o, rfl⟩
  | none =>
    rw [record?_set_eq_some.mpr ⟨hvalid, rfl⟩] at h
    cases h

theorem Call.record?_delete_eq_none {s : Store} {now : Millis} {key : String}
    (h : (Call.delete key).record? s now = none) : ∃ o, keyObjection? key = some o := by
  cases hvalid : keyObjection? key with
  | some o => exact ⟨o, rfl⟩
  | none =>
    rw [record?_delete_eq_some.mpr ⟨hvalid, rfl⟩] at h
    cases h

theorem key_ne_of_keyObjection? {key : String} (h : keyObjection? key = none) : key ≠ "" := by
  rintro rfl
  cases h

theorem keyObjection?_of_entryObjection? {key value : String}
    (h : entryObjection? key value = none) : keyObjection? key = none := by
  unfold entryObjection? at h
  cases hkey : keyObjection? key with
  | none => rfl
  | some o => rw [hkey] at h; cases h

theorem Call.key_ne_of_record? {s : Store} {now : Millis} {call : Call} {r : Record}
    (h : call.record? s now = some r) : r.key ≠ "" := by
  cases call with
  | set key value ttl =>
    obtain ⟨hvalid, rfl⟩ := record?_set_eq_some.mp h
    exact key_ne_of_keyObjection? (keyObjection?_of_entryObjection? hvalid)
  | delete key =>
    obtain ⟨hvalid, rfl⟩ := record?_delete_eq_some.mp h
    exact key_ne_of_keyObjection? hvalid
  | _ => cases h

variable {s : Store} {m : Medium} {w : Journal.Writer}

theorem write_of_writer (h : s.writer = some w) (r : Record) :
    let o := s.write m r
    let a := w.append r m
    o.medium = a.medium ∧ o.store.writer = some a.writer ∧ o.answer.isOk = a.result.isOk := by
  simp only [write, h]
  generalize w.append r m = a
  obtain ⟨result, w, m⟩ := a
  cases result <;> exact ⟨rfl, rfl, rfl⟩

theorem write_of_closed (h : s.writer = none) (r : Record) :
    s.write m r = ⟨.error .closed, s, m⟩ := by
  simp only [write, h]

theorem set_of_objection {key value : String} {o : Objection}
    (h : entryObjection? key value = some o) (now : Millis) (ttl : Option Duration) :
    s.set m now key value ttl = ⟨.error (.invalid o), s, m⟩ := by
  simp only [set, h]

theorem delete_of_objection {key : String} {o : Objection} (h : keyObjection? key = some o)
    (now : Millis) : s.delete m now key = ⟨.error (.invalid o), s, m⟩ := by
  simp only [delete, h]

/-- Writing changes the writer and what is counted, and nothing else that a store has. -/
theorem frame_write (s : Store) (m : Medium) (r : Record) :
    ∃ writer counters, (s.write m r).store = { s with writer := writer, counters := counters } := by
  unfold write
  split
  · exact ⟨_, _, rfl⟩
  · split <;> exact ⟨_, _, rfl⟩

theorem store_close (s : Store) (m : Medium) :
    (s.close m).store = { s with writer := none, closed := true } := by
  unfold close
  split
  · rfl
  · split <;> rfl

/-- Looking up changes what is on the shelf and what is counted, and nothing else. -/
theorem frame_get (s : Store) (now : Millis) (key : String) :
    ∃ shelf counters, (s.get now key).2 = { s with shelf := shelf, counters := counters } := by
  unfold get
  split <;> exact ⟨_, _, rfl⟩

/-- Sweeping changes what is on the shelf and what is counted, and nothing else. -/
theorem frame_slice (sweep : Sweep) (s : Store) (now : Millis) :
    ∃ shelf counters, (sweep.slice s now).2 = { s with shelf := shelf, counters := counters } := by
  unfold Sweep.slice
  split
  · exact ⟨_, _, rfl⟩
  · dsimp only
    split <;> exact ⟨_, _, rfl⟩

theorem frame_runFrom (now : Millis) (fuel : Nat) (sweep : Sweep) (s : Store) :
    ∃ shelf counters,
      (Sweep.runFrom now fuel sweep s).2 = { s with shelf := shelf, counters := counters } := by
  induction fuel generalizing sweep s with
  | zero => exact ⟨_, _, rfl⟩
  | succ fuel ih =>
    unfold Sweep.runFrom
    split
    · exact ⟨_, _, rfl⟩
    · obtain ⟨shelf, counters, hslice⟩ := frame_slice sweep s now
      obtain ⟨shelf', counters', hrest⟩ := ih (sweep.slice s now).1 (sweep.slice s now).2
      refine ⟨shelf', counters', hrest.trans ?_⟩
      rw [hslice]

@[simp]
theorem writer_get (s : Store) (now : Millis) (key : String) :
    (s.get now key).2.writer = s.writer := by
  obtain ⟨shelf, counters, h⟩ := frame_get s now key
  rw [h]

@[simp]
theorem writer_slice (sweep : Sweep) (s : Store) (now : Millis) :
    (sweep.slice s now).2.writer = s.writer := by
  obtain ⟨shelf, counters, h⟩ := frame_slice sweep s now
  rw [h]

@[simp]
theorem writer_sweep (s : Store) (now : Millis) (batch : Nat) :
    (s.sweep now batch).2.writer = s.writer := by
  obtain ⟨shelf, counters, h⟩ := frame_runFrom now (s.shelf.recency.slotCount + 1) (.start batch) s
  rw [sweep, h]

/-- A valid change is granted exactly if its record could be appended, which is all that is done
to the journal. -/
theorem perform_of_record? (hw : s.writer = some w) {now : Millis} {call : Call} {r : Record}
    (hr : call.record? s now = some r) :
    let o := s.perform m now call
    let a := w.append r m
    o.medium = a.medium ∧ o.store.writer = some a.writer ∧ o.answer.granted = a.result.isOk := by
  obtain ⟨hm, hwriter, hok⟩ := write_of_writer (m := m) hw r
  cases call with
  | set key value ttl =>
    obtain ⟨hvalid, rfl⟩ := Call.record?_set_eq_some.mp hr
    simp only [perform, set, hvalid, Answer.granted]
    generalize s.write m _ = o at *
    obtain ⟨result, s', m'⟩ := o
    cases result <;> exact ⟨hm, hwriter, hok⟩
  | delete key =>
    obtain ⟨hvalid, rfl⟩ := Call.record?_delete_eq_some.mp hr
    simp only [perform, delete, hvalid, Answer.granted]
    generalize s.write m _ = o at *
    obtain ⟨result, s', m'⟩ := o
    cases result <;> exact ⟨hm, hwriter, hok⟩
  | _ => cases hr

/-- A call without a record leaves the journal alone, but for closing it. -/
theorem perform_of_no_record {now : Millis} {call : Call} (hr : call.record? s now = none) :
    let o := s.perform m now call
    o.medium.bytes = m.bytes ∧ (o.store.writer = s.writer ∨ o.store.writer = none) := by
  cases call with
  | set key value ttl =>
    obtain ⟨o, ho⟩ := Call.record?_set_eq_none hr
    simp [perform, set_of_objection ho]
  | delete key =>
    obtain ⟨o, ho⟩ := Call.record?_delete_eq_none hr
    simp [perform, delete_of_objection ho]
  | get key => exact ⟨rfl, .inl (writer_get s now key)⟩
  | contains key => exact ⟨rfl, .inl rfl⟩
  | stats => exact ⟨rfl, .inl rfl⟩
  | slice sweep => exact ⟨rfl, .inl (writer_slice sweep s now)⟩
  | sweep batch => exact ⟨rfl, .inl (writer_sweep s now batch)⟩
  | close =>
    simp only [perform, close]
    split
    · exact ⟨rfl, .inr rfl⟩
    · split
      · rename_i hclose
        exact ⟨congrArg (fun o => o.2.bytes) hclose.symm, .inr rfl⟩
      · rename_i hclose
        exact ⟨congrArg (fun o => o.2.bytes) hclose.symm, .inr rfl⟩

/-- A store that has let its journal go leaves it alone and grants no change. -/
theorem perform_of_closed (hw : s.writer = none) (now : Millis) (call : Call) :
    let o := s.perform m now call
    o.medium = m ∧ o.store.writer = none ∧
      ((call.record? s now).isSome = true → o.answer.granted = false) := by
  cases call with
  | set key value ttl =>
    simp only [perform, set]
    split
    · exact ⟨rfl, hw, fun _ => rfl⟩
    · rw [write_of_closed hw]
      exact ⟨rfl, hw, fun _ => rfl⟩
  | delete key =>
    simp only [perform, delete]
    split
    · exact ⟨rfl, hw, fun _ => rfl⟩
    · rw [write_of_closed hw]
      exact ⟨rfl, hw, fun _ => rfl⟩
  | get key => exact ⟨rfl, (writer_get s now key).trans hw, fun h => by cases h⟩
  | contains key => exact ⟨rfl, hw, fun h => by cases h⟩
  | stats => exact ⟨rfl, hw, fun h => by cases h⟩
  | slice sweep => exact ⟨rfl, (writer_slice sweep s now).trans hw, fun h => by cases h⟩
  | sweep batch => exact ⟨rfl, (writer_sweep s now batch).trans hw, fun h => by cases h⟩
  | close =>
    simp only [perform, close, hw]
    exact ⟨trivial, trivial, fun h => by cases h⟩

/-- A call, the time at which it is made, and what lies ahead for the disk from then on. -/
structure Event where
  call : Call
  now : Millis
  outlook : Outlook

/-- A store and its journal's file, and the records of the changes that were granted and of those
that were not, each in the order of the calls. -/
structure History where
  store : Store
  medium : Medium
  accepted : List Record
  refused : List Record

namespace History

def start (s : Store) (m : Medium) : History := ⟨s, m, [], []⟩

/-- The file as a call finds it. -/
def found (h : History) (e : Event) : Medium := ⟨h.medium.bytes, e.outlook⟩

def step (h : History) (e : Event) : History :=
  let o := h.store.perform (h.found e) e.now e.call
  let record := (e.call.record? h.store e.now).toList
  if o.answer.granted then ⟨o.store, o.medium, h.accepted ++ record, h.refused⟩
  else ⟨o.store, o.medium, h.accepted, h.refused ++ record⟩

def run (h : History) (events : List Event) : History := events.foldl step h

theorem step_of_no_record {h : History} {e : Event} (hr : e.call.record? h.store e.now = none) :
    h.step e = ⟨(h.store.perform (h.found e) e.now e.call).store,
      (h.store.perform (h.found e) e.now e.call).medium, h.accepted, h.refused⟩ := by
  simp only [step, hr, Option.toList_none, List.append_nil, ite_self]

theorem step_of_granted {h : History} {e : Event} {r : Record}
    (hr : e.call.record? h.store e.now = some r)
    (hgranted : (h.store.perform (h.found e) e.now e.call).answer.granted = true) :
    h.step e = ⟨(h.store.perform (h.found e) e.now e.call).store,
      (h.store.perform (h.found e) e.now e.call).medium, h.accepted ++ [r], h.refused⟩ := by
  simp only [step, hr, hgranted, if_true, Option.toList_some]

theorem step_of_refused {h : History} {e : Event} {r : Record}
    (hr : e.call.record? h.store e.now = some r)
    (hgranted : (h.store.perform (h.found e) e.now e.call).answer.granted = false) :
    h.step e = ⟨(h.store.perform (h.found e) e.now e.call).store,
      (h.store.perform (h.found e) e.now e.call).medium, h.accepted, h.refused ++ [r]⟩ := by
  simp only [step, hr, hgranted, Bool.false_eq_true, if_false, Option.toList_some]

end History

end Larder.Store
