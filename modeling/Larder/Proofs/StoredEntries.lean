import Larder.Proofs.Expiry
import Larder.Proofs.IntactStores

/-! One entry in a store: it is there once a set of it has been granted, a look-up leaves it there,
and a delete takes it away. A set that is refused without a try is refused for its key or its
value. -/

namespace Larder

namespace Store

open Larder.Shelf (Follows Ranking)

variable {s : Store} {m : Medium} {capacity : Nat} {l : Ranking} {key : String} {entry : Entry}
  {now : Millis}

/-- Where there is room for any entry, there is room for the one that has just been stored. -/
theorem find?_set_of_ok (hf : Follows capacity s.shelf l) (hroom : 0 < capacity) {value : String}
    {ttl : Option Duration} (hset : (s.set m now key value ttl).answer = .ok ()) :
    (s.set m now key value ttl).store.shelf.find? key =
      some ⟨value, s.deadlineFor now ttl⟩ := by
  obtain ⟨n, rfl⟩ := Nat.exists_eq_succ_of_ne_zero (Nat.ne_of_gt hroom)
  rw [(shelf_set_of_ok hset).2, (hf.change _).find?_eq, Ranking.change, Ranking.put_eq,
    List.take_succ_cons]
  exact List.lookup_cons_self

/-- A look-up that finds an entry leaves it there. -/
theorem get_of_live (hf : Follows capacity s.shelf l) (hfind : s.shelf.find? key = some entry)
    (hlive : entry.hasExpired now = false) :
    (s.get now key).1 = some entry.value ∧
      (s.get now key).2.shelf.find? key = some entry := by
  have hget := Shelf.get_of_find? hfind now
  rw [hlive] at hget
  refine ⟨by rw [get_of_hit hget], ?_⟩
  rw [shelf_get]
  rcases hf.get_cases key now with ⟨other, hmem, -, -, hnext⟩ | ⟨hmiss, -⟩
  · rw [hf.find?_eq, hf.distinct.lookup_eq_some_iff.mpr hmem] at hfind
    rw [hnext.find?_eq, ← hfind]
    exact List.lookup_cons_self
  · exact absurd hget (hmiss _)

theorem get_of_none (hfind : s.shelf.find? key = none) (now : Millis) :
    (s.get now key).1 = none := by
  refine answer_get_of_not_hit fun value hhit => ?_
  rw [Shelf.get, Option.map_eq_none_iff.mp hfind] at hhit
  cases hhit

/-- Where no call fails an append succeeds, even if something has to be cut off first. -/
theorem append_of_calm {w : Journal.Writer} (hb : w.Backed m) (hcalm : m.outlook.Calm)
    (r : Record) : (w.append r m).result = .ok () := by
  obtain ⟨kept, tail, hstands⟩ := hb
  cases htorn : w.torn with
  | false => rw [Journal.Writer.append_result_of_clean htorn, hcalm.writeAndSync_result]
  | true =>
    rw [Journal.Writer.append_result_of_torn htorn, (hcalm.cutAndSync_result hstands.fits).1]
    exact (hcalm.cutAndSync _).writeAndSync_result _

/-- An entry that has not expired is deleted, and then it is not there any more. -/
theorem delete_of_live (hfind : s.shelf.find? key = some entry)
    (hlive : entry.hasExpired now = false) (hvalid : keyObjection? key = none)
    {w : Journal.Writer} (hw : s.writer = some w) (hb : w.Backed m) (hcalm : m.outlook.Calm) :
    (s.delete m now key).answer = .ok true ∧
      (s.delete m now key).store.shelf.find? key = none := by
  have hshelf := shelf_write s m (.delete key)
  have hanswer := (write_of_writer (m := m) hw (.delete key)).2.2
  rw [append_of_calm hb hcalm] at hanswer
  simp only [delete, hvalid]
  generalize s.write m _ = o at *
  obtain ⟨result, s', m'⟩ := o
  cases result with
  | error f => cases hanswer
  | ok _ =>
    have hshelf : s'.shelf = s.shelf := hshelf
    dsimp only
    rw [hshelf, Shelf.peek?_of_find? hfind, hlive]
    exact ⟨rfl, Shelf.find?_remove s.shelf key⟩

theorem keyObjection?_of_set {value : String} {ttl : Option Duration}
    (hset : (s.set m now key value ttl).answer = .ok ()) : keyObjection? key = none := by
  cases hvalid : entryObjection? key value with
  | some o => rw [set_of_objection hvalid] at hset; cases hset
  | none => exact keyObjection?_of_entryObjection? hvalid

theorem exists_writer_of_ok {value : String} {ttl : Option Duration}
    (hset : (s.set m now key value ttl).answer = .ok ()) :
    ∃ w, (s.set m now key value ttl).store.writer = some w := by
  cases hvalid : entryObjection? key value with
  | some o => rw [set_of_objection hvalid] at hset; cases hset
  | none =>
    cases hw : s.writer with
    | none =>
      simp only [set, hvalid, write_of_closed hw] at hset
      cases hset
    | some w =>
      have hwriter := (write_of_writer (m := m) hw (.set key value (s.deadlineFor now ttl))).2.1
      simp only [set, hvalid] at hset ⊢
      generalize s.write m _ = o at *
      obtain ⟨result, s', m'⟩ := o
      cases result with
      | error f => cases hset
      | ok _ => exact ⟨_, hwriter⟩

theorem failure_of_write {r : Record} {f : Failure} (h : (s.write m r).answer = .error f) :
    f = .closed ∨ ∃ cause, f = .io cause := by
  unfold write at h
  split at h
  · cases h
    exact .inl rfl
  · split at h
    · cases h
      exact .inr ⟨_, rfl⟩
    · cases h

/-- What a set is refused for without a try is what is wrong with its key or its value. -/
theorem answer_set_eq_invalid_iff (s : Store) (m : Medium) (now : Millis) (key value : String)
    (ttl : Option Duration) (o : Objection) :
    (s.set m now key value ttl).answer = .error (.invalid o) ↔
      entryObjection? key value = some o := by
  cases hvalid : entryObjection? key value with
  | some o' =>
    rw [set_of_objection hvalid]
    constructor
    · intro h
      cases h
      rfl
    · intro h
      cases h
      rfl
  | none =>
    have hfailure := fun f => failure_of_write (s := s) (m := m) (f := f)
      (r := .set key value (s.deadlineFor now ttl))
    constructor
    · intro h
      simp only [set, hvalid] at h
      generalize s.write m _ = o at *
      obtain ⟨result, s', m'⟩ := o
      cases result with
      | ok _ => cases h
      | error f =>
        cases h
        rcases hfailure _ rfl with h | ⟨cause, h⟩ <;> cases h
    · intro h
      cases h

end Store

end Larder
