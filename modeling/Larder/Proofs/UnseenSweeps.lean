import Larder.Proofs.Successions
import Larder.Proofs.SweepSlices

/-! Sweeps that nobody sees. As long as there is room for every key, an entry that has expired and
is still held changes no answer: whoever asks is served from the entries that have not expired, in
their order, and those are the same with any sweeps or slices of sweeps in between and with none.
The journal does not see them either, since nothing is written for them. -/

namespace Larder

namespace Shelf

/-- The keys that are being served, the one used last first. -/
def liveKeys (s : Shelf) (now : Millis) : List String :=
  s.keysByRecency.filter fun key => (s.peek? key now).isSome

variable {capacity : Nat} {s : Shelf} {l r l' r' : Ranking} {keys : List String} {key : String}
  {now : Millis}

namespace Ranking

/-- What is stored has a key that counts. -/
def Stores (keys : List String) (written : Option Record) : Prop :=
  ∀ key value deadline, written = some (.set key value deadline) → key ∈ keys

namespace Serves

variable {written : Option Record} {found : Option String}

theorem keys_subset (h : l.Serves capacity now written found l') (hkeys : l.map Prod.fst ⊆ keys)
    (hstores : Stores keys written) : l'.map Prod.fst ⊆ keys := by
  intro k hk
  obtain ⟨p, hp, rfl⟩ := List.mem_map.mp hk
  have hheld : ∀ q ∈ l, q.1 ∈ keys := fun q hq => hkeys (List.mem_map_of_mem hq)
  cases h with
  | changes r =>
    rcases mem_change hp with rfl | ⟨hp, -⟩
    · exact hstores _ _ _ rfl
    · exact hheld p hp
  | promotes hmem hlive => exact hheld p (mem_of_mem_promoted hmem hp)
  | sheds hsheds => exact hheld p (hsheds.sublist.subset hp)

/-- Two rankings with the same entries that have not expired have the same ones after the same
call, if there is room in both. -/
theorem live_eq (h : l.Serves capacity now written found l')
    (h' : r.Serves capacity now written found r') (hl : l.Distinct) (hr : r.Distinct)
    (hkeys : l.map Prod.fst ⊆ keys) (hkeys' : r.map Prod.fst ⊆ keys)
    (hroom : keys.length ≤ capacity) (hstores : Stores keys written)
    (hsame : l.live now = r.live now) : l'.live now = r'.live now := by
  have hcons : ∀ p : String × Entry, live now (p :: l.without p.1) =
      live now (p :: r.without p.1) := by
    intro p
    have hrest : (l.without p.1).live now = (r.without p.1).live now := by
      rw [live_without, live_without, hsame]
    unfold live at hrest ⊢
    rw [List.filter_cons, List.filter_cons, hrest]
  cases h with
  | changes rec =>
    cases h'
    cases rec with
    | delete key => exact (live_without l key now).trans (hsame ▸ (live_without r key now).symm)
    | set key value deadline =>
      have hkey := hstores key value deadline rfl
      rw [hl.change_set hkeys hroom hkey, hr.change_set hkeys' hroom hkey]
      exact hcons (key, ⟨value, deadline⟩)
  | @promotes key entry hmem hlive =>
    cases h' with
    | @promotes _ entry' hmem' hlive' =>
      -- The key is found with what both rankings serve it with.
      have hentry : (key, entry) ∈ r.live now := by
        rw [← hsame]
        exact mem_live.mpr ⟨hmem, hlive⟩
      have heq := hr.eq_of_fst_eq (mem_live.mp hentry).1 hmem' rfl
      rw [← heq]
      exact hcons (key, entry)
  | sheds hsheds =>
    cases h' with
    | sheds hsheds' => rw [hsheds.live_eq hl, hsheds'.live_eq hr, hsame]

end Serves

end Ranking

namespace Follows

theorem liveKeys_eq (h : Follows capacity s l) (now : Millis) :
    s.liveKeys now = (l.live now).map Prod.fst := by
  rw [liveKeys, h.keysByRecency_eq, List.filter_map, Ranking.live]
  congr 1
  refine List.filter_congr fun p hp => ?_
  have hfind : l.lookup p.1 = some p.2 := h.distinct.lookup_eq_some_iff.mpr hp
  rw [Function.comp_apply, h.peek?_eq, Ranking.peek?, hfind, Option.filter_some]
  cases p.2.hasExpired now <;> rfl

/-- Two shelves with the same entries that have not expired serve every key alike. -/
theorem peek?_eq_of_live {s' : Shelf} (h : Follows capacity s l) (h' : Follows capacity s' r)
    (hsame : l.live now = r.live now) (key : String) : s.peek? key now = s'.peek? key now := by
  rw [h.peek?_eq, h'.peek?_eq, ← Ranking.lookup_live h.distinct, hsame,
    Ranking.lookup_live h'.distinct]

end Follows

end Shelf

namespace Journal.Writer

/-- Where nothing fails, a journal that has nothing to cut off takes every record. -/
theorem append_calm {w : Writer} (hclean : w.torn = false) {m : Medium} (h : m.outlook.Calm)
    (r : Record) :
    let o := w.append r m
    o.result = .ok () ∧ o.writer = { w with committed := w.committed + r.bytes.length } ∧
      o.medium.bytes = m.bytes ++ r.bytes := by
  have hresult := h.writeAndSync_result r.bytes
  have hbytes := h.bytes_writeAndSync r.bytes
  rw [append, hclean, if_neg Bool.false_ne_true, appendLine]
  generalize m.writeAndSync r.bytes = o at *
  obtain ⟨result, m'⟩ := o
  cases hresult
  exact ⟨rfl, by rw [hclean], hbytes⟩

end Journal.Writer

namespace Store

open Larder.Shelf (Follows Ranking)

variable {s s' : Store} {m m' : Medium} {now : Millis} {call : Call}

/-- No append of a store has left anything to be cut off. -/
def Clean (s : Store) : Prop := ∀ w, s.writer = some w → w.torn = false

/-- Where nothing fails, only a store that is closed does not write. -/
theorem answer_write (hclean : s.Clean) (h : m.outlook.Calm) (r : Record) :
    (s.write m r).answer = if s.writer.isSome then .ok () else .error .closed := by
  unfold write
  cases hw : s.writer with
  | none => rfl
  | some w =>
    have hresult := (Journal.Writer.append_calm (hclean w hw) h r).1
    dsimp only at hresult ⊢
    generalize w.append r m = o at *
    obtain ⟨result, w', m'⟩ := o
    cases hresult
    rfl

theorem answer_set (s : Store) (m : Medium) (now : Millis) (key value : String)
    (ttl : Option Duration) :
    (s.set m now key value ttl).answer =
      match entryObjection? key value with
      | some o => .error (.invalid o)
      | none => (s.write m (.set key value (s.deadlineFor now ttl))).answer := by
  unfold set
  cases entryObjection? key value with
  | some o => rfl
  | none =>
    dsimp only
    generalize s.write m _ = o
    obtain ⟨result, s', m'⟩ := o
    cases result <;> rfl

theorem answer_delete (s : Store) (m : Medium) (now : Millis) (key : String) :
    (s.delete m now key).answer =
      match keyObjection? key with
      | some o => .error (.invalid o)
      | none => (s.write m (.delete key)).answer.map fun _ => s.contains now key := by
  unfold delete
  cases keyObjection? key with
  | some o => rfl
  | none =>
    have hshelf := shelf_write s m (.delete key)
    dsimp only at hshelf ⊢
    generalize s.write m _ = o at *
    obtain ⟨result, s', m'⟩ := o
    cases result with
    | error f => rfl
    | ok _ => exact congrArg (fun shelf => Except.ok (shelf.peek? key now).isSome) hshelf

theorem answer_get (s : Store) (now : Millis) (key : String) :
    (s.get now key).1 = (s.shelf.peek? key now).map Entry.value := by
  unfold get Shelf.get Shelf.peek? Shelf.find?
  cases s.shelf.slots[key]? with
  | none => rfl
  | some slot =>
    cases hexpired : slot.entry.hasExpired now with
    | true => simp [hexpired, Option.filter_some]
    | false => simp [hexpired, Option.filter_some]

theorem answer_close (h : m.outlook.Calm) : (s.close m).answer = .ok () := by
  unfold close
  cases s.writer with
  | none => rfl
  | some w =>
    have hsync : m.outlook.syncs.strikes = false := h.syncs _
    simp [Journal.Writer.close, Medium.sync, hsync]

/-- What somebody asks for who uses the store; looking at what is counted and sweeping are left to
those who keep it. -/
def Call.isUse : Call → Bool
  | .set .. => true
  | .get _ => true
  | .delete _ => true
  | .contains _ => true
  | .close => true
  | _ => false

/-- Whoever uses a store is answered by what is served and by whether the store is closed. -/
theorem answer_eq (huse : call.isUse = true) (hwriter : s.writer = s'.writer)
    (httl : s.defaultTtl = s'.defaultTtl) (hclean : s.Clean) (h : m.outlook.Calm)
    (h' : m'.outlook.Calm) (hpeek : ∀ key, s.shelf.peek? key now = s'.shelf.peek? key now) :
    (s.perform m now call).answer = (s'.perform m' now call).answer := by
  have hclean' : s'.Clean := fun w hw => hclean w (hwriter.trans hw)
  have hwrite : ∀ r, (s.write m r).answer = (s'.write m' r).answer := by
    intro r
    rw [answer_write hclean h, answer_write hclean' h', hwriter]
  cases call with
  | set key value ttl =>
    refine congrArg Answer.done ?_
    rw [answer_set, answer_set, deadlineFor, httl, hwrite]
    rfl
  | delete key =>
    refine congrArg Answer.deleted ?_
    rw [answer_delete, answer_delete, hwrite, contains, contains, hpeek]
  | get key =>
    have hfound : (s.get now key).1 = (s'.get now key).1 := by
      rw [answer_get, answer_get, hpeek]
    exact congrArg Answer.value hfound
  | contains key =>
    refine congrArg Answer.contains ?_
    rw [contains, contains, hpeek]
  | close =>
    refine congrArg Answer.done ?_
    rw [answer_close h, answer_close h']
  | stats => cases huse
  | slice sweep => cases huse
  | sweep batch => cases huse

theorem defaultTtl_write (s : Store) (m : Medium) (r : Record) :
    (s.write m r).store.defaultTtl = s.defaultTtl := by
  obtain ⟨writer, counters, h⟩ := frame_write s m r
  rw [h]

/-- No call changes what entries are given to live. -/
theorem defaultTtl_perform (s : Store) (m : Medium) (now : Millis) (call : Call) :
    (s.perform m now call).store.defaultTtl = s.defaultTtl := by
  cases call with
  | set key value ttl =>
    have hwrite := defaultTtl_write s m (.set key value (s.deadlineFor now ttl))
    simp only [perform, set]
    split
    · rfl
    · generalize s.write m _ = o at *
      obtain ⟨result, s', m'⟩ := o
      cases result <;> exact hwrite
  | delete key =>
    have hwrite := defaultTtl_write s m (.delete key)
    simp only [perform, delete]
    split
    · rfl
    · generalize s.write m _ = o at *
      obtain ⟨result, s', m'⟩ := o
      cases result <;> exact hwrite
  | get key =>
    obtain ⟨shelf, counters, hframe⟩ := frame_get s now key
    show (s.get now key).2.defaultTtl = s.defaultTtl
    rw [hframe]
  | contains key => rfl
  | stats => rfl
  | slice sweep =>
    obtain ⟨shelf, counters, hframe⟩ := frame_slice sweep s now
    show (sweep.slice s now).2.defaultTtl = s.defaultTtl
    rw [hframe]
  | sweep batch =>
    obtain ⟨shelf, counters, hframe⟩ :=
      frame_runFrom now (s.shelf.recency.slotCount + 1) (.start batch) s
    show (s.sweep now batch).2.defaultTtl = s.defaultTtl
    rw [Store.sweep, hframe]
  | close => simp only [perform, store_close]

def Call.isClose : Call → Bool
  | .close => true
  | _ => false

/-- A call without a record leaves the writer as it is, or lets it go. -/
theorem writer_of_no_record (hr : call.record? s now = none) :
    (s.perform m now call).store.writer = if call.isClose then none else s.writer := by
  cases call with
  | set key value ttl =>
    obtain ⟨o, ho⟩ := Call.record?_set_eq_none hr
    simp [perform, set_of_objection ho, Call.isClose]
  | delete key =>
    obtain ⟨o, ho⟩ := Call.record?_delete_eq_none hr
    simp [perform, delete_of_objection ho, Call.isClose]
  | get key => exact writer_get s now key
  | contains key => rfl
  | stats => rfl
  | slice sweep => exact writer_slice sweep s now
  | sweep batch => exact writer_sweep s now batch
  | close =>
    simp only [perform, store_close]
    rfl

namespace History

variable {h : History} {e : Event}

/-- Where nothing fails, the file and the writer see of a call its record, if it is granted, and
whether it closes the store. -/
theorem journal_step (hclean : h.store.Clean) (hcalm : e.outlook.Calm) :
    (h.step e).medium.bytes = h.medium.bytes ++ Journal.encoding (h.granted? e).toList ∧
      (h.step e).store.writer = if e.call.isClose then none else h.store.writer.map fun w =>
        { w with committed := w.committed + (Journal.encoding (h.granted? e).toList).length } := by
  rw [medium_step, store_step]
  cases hr : e.call.record? h.store e.now with
  | none =>
    obtain ⟨hbytes, -⟩ := perform_of_no_record (m := h.found e) hr
    have hwriter := writer_of_no_record (m := h.found e) hr
    have hnone : h.granted? e = none := by rw [granted?, hr, ite_self]
    rw [hnone]
    refine ⟨hbytes.trans (List.append_nil _).symm, hwriter.trans ?_⟩
    cases h.store.writer <;> rfl
  | some r =>
    have hopen : e.call.isClose = false := by
      cases hcall : e.call with
      | close => rw [hcall] at hr; cases hr
      | _ => rfl
    rw [hopen]
    cases hw : h.store.writer with
    | none =>
      obtain ⟨hmedium, hwriter, hrefused⟩ := perform_of_closed (m := h.found e) hw e.now e.call
      have hnone : h.granted? e = none := by
        rw [granted?, hrefused (by rw [hr]; rfl), if_neg Bool.false_ne_true]
      rw [hnone]
      exact ⟨(congrArg Medium.bytes hmedium).trans (List.append_nil _).symm, hwriter⟩
    | some w =>
      obtain ⟨hmedium, hwriter, hgranted⟩ := perform_of_record? (m := h.found e) hw hr
      obtain ⟨hresult, happended, hbytes⟩ :=
        Journal.Writer.append_calm (hclean w hw) (m := h.found e) hcalm r
      rw [hresult] at hgranted
      have hok : (h.store.perform (h.found e) e.now e.call).answer.granted = true := hgranted
      have hsome : h.granted? e = some r := by rw [granted?, if_pos hok, hr]
      rw [hsome, hmedium, hwriter, happended, hbytes]
      simp [Journal.encoding, found]

/-- Where nothing fails, every valid change is granted until the store is closed. -/
theorem granted?_of_calm (hclean : h.store.Clean) (hcalm : e.outlook.Calm) :
    h.granted? e = if h.store.writer.isSome then e.call.record? h.store e.now else none := by
  rw [granted?]
  cases hr : e.call.record? h.store e.now with
  | none => rw [ite_self, ite_self]
  | some r =>
    cases hw : h.store.writer with
    | none =>
      obtain ⟨-, -, hrefused⟩ := perform_of_closed (m := h.found e) hw e.now e.call
      rw [hrefused (by rw [hr]; rfl)]
      rfl
    | some w =>
      obtain ⟨-, -, hgranted⟩ := perform_of_record? (m := h.found e) hw hr
      have hresult := (Journal.Writer.append_calm (hclean w hw) (m := h.found e) hcalm r).1
      rw [hresult] at hgranted
      exact if_pos hgranted

/-- Nothing is left to be cut off where nothing fails. -/
theorem clean_step (hclean : h.store.Clean) (hcalm : e.outlook.Calm) : (h.step e).store.Clean := by
  intro w hw
  rw [(journal_step hclean hcalm).2] at hw
  split at hw
  · cases hw
  · obtain ⟨w', hw', rfl⟩ := Option.map_eq_some_iff.mp hw
    exact hclean w' hw'

end History

/-- The record of a change depends on what entries are given to live and on nothing else that a
store has. -/
theorem Call.record?_congr (httl : s.defaultTtl = s'.defaultTtl) (now : Millis) (call : Call) :
    call.record? s now = call.record? s' now := by
  cases call with
  | set key value ttl => rw [record?, record?, deadlineFor, deadlineFor, httl]
  | _ => rfl

/-- The calls of those who use a store, with nothing in between that only looks after it. -/
def uses (events : List Event) : List Event :=
  (events.filter fun e => e.call.isUse).map fun e => { e with outlook := .clear }

theorem uses_cons (e : Event) (events : List Event) :
    uses (e :: events) =
      if e.call.isUse then { e with outlook := .clear } :: uses events else uses events := by
  rw [uses, List.filter_cons]
  split <;> rfl

namespace History

/-- What looks after a store is neither written down nor counted as a use. -/
theorem of_not_isUse {e : Event} (hkeeps : e.call.isUse = false) (h : History) :
    h.granted? e = none ∧ h.read? e = none ∧ e.call.isClose = false := by
  obtain ⟨call, now, outlook⟩ := e
  cases call with
  | stats => exact ⟨ite_self _, rfl, rfl⟩
  | slice sweep => exact ⟨ite_self _, rfl, rfl⟩
  | sweep batch => exact ⟨ite_self _, rfl, rfl⟩
  | _ => cases hkeeps

/-- Two histories that have written the same and will write alike. -/
structure SameFile (h h' : History) : Prop where
  writer : h.store.writer = h'.store.writer
  clean : h.store.Clean
  defaultTtl : h.store.defaultTtl = h'.store.defaultTtl
  bytes : h.medium.bytes = h'.medium.bytes
  accepted : h.accepted = h'.accepted

namespace SameFile

variable {h h' : History} {e : Event} {outlook : Outlook}

theorem granted?_eq (hs : SameFile h h') (hcalm : e.outlook.Calm) (hcalm' : outlook.Calm) :
    h.granted? e = h'.granted? { e with outlook := outlook } := by
  have hclean' : h'.store.Clean := fun w hw => hs.clean w (hs.writer.trans hw)
  rw [granted?_of_calm hs.clean hcalm, granted?_of_calm hclean' hcalm', hs.writer,
    Call.record?_congr hs.defaultTtl]

/-- Looking after one of the stores writes nothing. -/
theorem keep (hs : SameFile h h') (hkeeps : e.call.isUse = false) (hcalm : e.outlook.Calm) :
    SameFile (h.step e) h' := by
  obtain ⟨hgranted, -, hopen⟩ := h.of_not_isUse hkeeps
  obtain ⟨hbytes, hwriter⟩ := journal_step hs.clean hcalm
  rw [hgranted] at hbytes hwriter
  have hkept : (h.step e).store.writer = h.store.writer := by
    rw [hwriter, hopen]
    cases h.store.writer <;> rfl
  constructor
  case writer => exact hkept.trans hs.writer
  case clean => exact clean_step hs.clean hcalm
  case defaultTtl =>
    rw [store_step, defaultTtl_perform]
    exact hs.defaultTtl
  case bytes => exact (hbytes.trans (List.append_nil _)).trans hs.bytes
  case accepted =>
    rw [accepted_step, hgranted]
    exact (List.append_nil _).trans hs.accepted

/-- The same call writes the same. -/
theorem step (hs : SameFile h h') (hcalm : e.outlook.Calm) (hcalm' : outlook.Calm) :
    SameFile (h.step e) (h'.step { e with outlook := outlook }) := by
  have hgranted := hs.granted?_eq hcalm hcalm'
  have hclean' : h'.store.Clean := fun w hw => hs.clean w (hs.writer.trans hw)
  obtain ⟨hbytes, hwriter⟩ := journal_step hs.clean hcalm
  obtain ⟨hbytes', hwriter'⟩ := journal_step (e := { e with outlook := outlook }) hclean' hcalm'
  constructor
  case writer => rw [hwriter, hwriter', hs.writer, hgranted]
  case clean => exact clean_step hs.clean hcalm
  case defaultTtl =>
    rw [store_step, store_step, defaultTtl_perform, defaultTtl_perform]
    exact hs.defaultTtl
  case bytes => rw [hbytes, hbytes', hs.bytes, hgranted]
  case accepted => rw [accepted_step, accepted_step, hs.accepted, hgranted]

theorem run (hs : SameFile h h') {events : List Event} (hcalm : ∀ e ∈ events, e.outlook.Calm) :
    SameFile (h.run events) (h'.run (uses events)) := by
  induction events generalizing h h' with
  | nil => exact hs
  | cons e events ih =>
    have hfirst : e.outlook.Calm := hcalm e List.mem_cons_self
    have hothers : ∀ e' ∈ events, e'.outlook.Calm := fun e' he' =>
      hcalm e' (List.mem_cons_of_mem e he')
    rw [uses_cons]
    split
    · exact ih (hs.step hfirst Outlook.calm_clear) hothers
    · rename_i hkeeps
      exact ih (hs.keep (eq_false_of_ne_true hkeeps) hfirst) hothers

end SameFile

/-- Two histories that nobody who uses their stores can tell apart from some time on: they have
written the same, and what they hold that has not expired is the same, in the same order, with room
for all keys there are. -/
structure Resembles (capacity : Nat) (keys : List String) (now : Millis) (h h' : History) : Prop
    extends SameFile h h' where
  shelves : ∃ l l', Follows capacity h.store.shelf l ∧ Follows capacity h'.store.shelf l' ∧
    l.live now = l'.live now ∧ l.map Prod.fst ⊆ keys ∧ l'.map Prod.fst ⊆ keys

namespace Resembles

variable {capacity : Nat} {keys : List String} {now later : Millis} {h h' : History} {e : Event}

theorem of_le (hs : Resembles capacity keys now h h') (hle : now ≤ later) :
    Resembles capacity keys later h h' := by
  obtain ⟨l, l', hl, hl', hsame, hkeys, hkeys'⟩ := hs.shelves
  refine ⟨hs.toSameFile, l, l', hl, hl', ?_, hkeys, hkeys'⟩
  rw [← Ranking.live_live hle l, hsame, Ranking.live_live hle l']

theorem liveKeys_eq (hs : Resembles capacity keys now h h') :
    h.store.shelf.liveKeys now = h'.store.shelf.liveKeys now := by
  obtain ⟨l, l', hl, hl', hsame, -, -⟩ := hs.shelves
  rw [hl.liveKeys_eq, hl'.liveKeys_eq, hsame]

/-- Looking after one of the stores takes away at most what has expired. -/
theorem keep (hs : Resembles capacity keys e.now h h') (hkeeps : e.call.isUse = false)
    (hcalm : e.outlook.Calm) : Resembles capacity keys e.now (h.step e) h' := by
  obtain ⟨hgranted, hread, -⟩ := h.of_not_isUse hkeeps
  obtain ⟨l, l', hl, hl', hsame, hkeys, hkeys'⟩ := hs.shelves
  obtain ⟨l₁, hnext, hserves⟩ := serves_step hl e
  rw [hgranted, hread] at hserves
  have hkeys₁ := hserves.keys_subset hkeys fun _ _ _ hno => nomatch hno
  cases hserves with
  | sheds hsheds =>
    have hlive := (hsheds.live_eq hl.distinct).trans hsame
    exact ⟨hs.toSameFile.keep hkeeps hcalm, l₁, l', hnext, hl', hlive, hkeys₁, hkeys'⟩

/-- Whoever uses both stores alike is answered alike and leaves them alike. -/
theorem use (hs : Resembles capacity keys e.now h h') (huse : e.call.isUse = true)
    (hcalm : e.outlook.Calm) {outlook : Outlook} (hcalm' : outlook.Calm)
    (hroom : keys.length ≤ capacity) (hstores : Ranking.Stores keys (h.granted? e)) :
    let e' := { e with outlook := outlook }
    (h.store.perform (h.found e) e.now e.call).answer =
        (h'.store.perform (h'.found e') e.now e.call).answer ∧
      Resembles capacity keys e.now (h.step e) (h'.step e') := by
  intro e'
  obtain ⟨l, l', hl, hl', hsame, hkeys, hkeys'⟩ := hs.shelves
  have hanswer : (h.store.perform (h.found e) e.now e.call).answer =
      (h'.store.perform (h'.found e') e.now e.call).answer :=
    answer_eq huse hs.writer hs.defaultTtl hs.clean hcalm hcalm' (hl.peek?_eq_of_live hl' hsame)
  have hgranted : h.granted? e = h'.granted? e' := hs.granted?_eq hcalm hcalm'
  have hread : h.read? e = h'.read? e' := by
    rw [read?, read?, hanswer]
  obtain ⟨l₁, hnext, hserves⟩ := serves_step hl e
  obtain ⟨l₁', hnext', hserves'⟩ := serves_step hl' e'
  rw [← hgranted, ← hread] at hserves'
  have hlive := hserves.live_eq hserves' hl.distinct hl'.distinct hkeys hkeys' hroom hstores hsame
  exact ⟨hanswer, hs.step hcalm hcalm', l₁, l₁', hnext, hnext', hlive,
    hserves.keys_subset hkeys hstores, hserves'.keys_subset hkeys' hstores⟩

end Resembles

/-- What whoever uses a store can see of a call: the answer to it, and then the file and the keys
that are served. -/
structure Sight where
  answer : Answer
  file : Bytes
  keys : List String

/-- What can be seen of a run by those who use the store. -/
def sights (h : History) : List Event → List Sight
  | [] => []
  | e :: events =>
    if e.call.isUse then
      ⟨(h.store.perform (h.found e) e.now e.call).answer, (h.step e).medium.bytes,
        (h.step e).store.shelf.liveKeys e.now⟩ :: (h.step e).sights events
    else (h.step e).sights events

theorem sights_of_isUse {e : Event} (huse : e.call.isUse = true) (h : History)
    (events : List Event) :
    h.sights (e :: events) = ⟨(h.store.perform (h.found e) e.now e.call).answer,
      (h.step e).medium.bytes, (h.step e).store.shelf.liveKeys e.now⟩ ::
        (h.step e).sights events := if_pos huse

theorem sights_of_not_isUse {e : Event} (hkeeps : e.call.isUse = false) (h : History)
    (events : List Event) : h.sights (e :: events) = (h.step e).sights events := by
  rw [sights, hkeeps]
  rfl

/-- A run shows what it would show if nobody had looked after the store. -/
theorem sights_uses {capacity : Nat} {keys : List String} (hroom : keys.length ≤ capacity)
    {events : List Event} (hcalm : ∀ e ∈ events, e.outlook.Calm)
    (hclock : events.Pairwise fun e e' => e.now ≤ e'.now) {now : Millis}
    (hnow : ∀ e ∈ events, now ≤ e.now) {h h' : History} (hs : Resembles capacity keys now h h')
    (hstored : ∀ key value deadline, .set key value deadline ∈ (h.run events).accepted →
      key ∈ keys) :
    h.sights events = h'.sights (uses events) := by
  induction events generalizing now h h' with
  | nil => rfl
  | cons e events ih =>
    obtain ⟨hfirst, hrest⟩ := List.pairwise_cons.mp hclock
    have hcalm₁ : e.outlook.Calm := hcalm e List.mem_cons_self
    have hothers : ∀ e' ∈ events, e'.outlook.Calm := fun e' he' =>
      hcalm e' (List.mem_cons_of_mem e he')
    have hs₁ := hs.of_le (hnow e List.mem_cons_self)
    rw [uses_cons]
    cases huse : e.call.isUse with
    | false =>
      rw [sights_of_not_isUse huse]
      exact ih hothers hrest hfirst (hs₁.keep huse hcalm₁) hstored
    | true =>
      obtain ⟨-, since, -, haccepted, -⟩ := (h.step e).requests_of_run events
      have hstores : Ranking.Stores keys (h.granted? e) := by
        intro key value deadline hset
        refine hstored key value deadline ?_
        rw [show (h.run (e :: events)).accepted = _ from haccepted, accepted_step, hset]
        simp
      obtain ⟨hanswer, hnext⟩ := hs₁.use huse hcalm₁ Outlook.calm_clear hroom hstores
      rw [if_pos rfl, sights_of_isUse huse,
        sights_of_isUse (e := { e with outlook := .clear }) huse, hanswer, hnext.bytes,
        hnext.liveKeys_eq, ih hothers hrest hfirst hnext hstored]

end History

/-- Two runs of a store that came back from a journal, in which the same is asked for by those who
use it, at the same times, and which differ in the sweeps and slices of sweeps in between: if
nothing fails and time does not go back, and if there is room for every key that came back or is
stored, then whoever uses the store gets the same answers, finds the same bytes in the file after
each call, and the same keys served in the same order. -/
theorem sights_eq_of_uses {settings : Settings} {now : Millis} {m m' : Medium}
    {recovered : Recovered} (hload : Recovery.load settings now m = (.ok recovered, m'))
    {events events' : List Event} (huses : uses events = uses events')
    (hcalm : ∀ e ∈ events ++ events', e.outlook.Calm)
    (hclock : events.Pairwise fun e e' => e.now ≤ e'.now)
    (hclock' : events'.Pairwise fun e e' => e.now ≤ e'.now)
    {keys : List String} (hroom : keys.length ≤ settings.maxEntries)
    (hheld : recovered.store.shelf.keysByRecency ⊆ keys)
    (hstored : ∀ key value deadline, .set key value deadline ∈
      ((History.start recovered.store m').run events).accepted → key ∈ keys) :
    let begun := History.start recovered.store m'
    begun.sights events = begun.sights events' ∧
      (begun.run events).medium.bytes = (begun.run events').medium.bytes := by
  intro begun
  have hfollows := Recovery.follows_of_load hload
  obtain ⟨w, hopen, hstore⟩ := Recovery.load_ok hload
  have hclean : begun.store.Clean := by
    intro w' hw'
    rw [show begun.store = recovered.store from rfl, hstore] at hw'
    cases hw'
    exact (Journal.Writer.stands_of_open? hopen).1
  have hfile : History.SameFile begun begun := ⟨rfl, hclean, rfl, rfl, rfl⟩
  rw [hfollows.keysByRecency_eq] at hheld
  have hstart : History.Resembles settings.maxEntries keys 0 begun begun :=
    ⟨hfile, _, _, hfollows, hfollows, rfl, hheld, hheld⟩
  have hcalm₁ : ∀ e ∈ events, e.outlook.Calm := fun e he => hcalm e (List.mem_append_left _ he)
  have hcalm₂ : ∀ e ∈ events', e.outlook.Calm := fun e he => hcalm e (List.mem_append_right _ he)
  have hzero : ∀ time : Millis, 0 ≤ time := fun time => UInt64.zero_le
  -- Both runs are compared with the one in which nobody looks after the store.
  have hrun := hfile.run hcalm₁
  have hrun' := hfile.run hcalm₂
  rw [← huses] at hrun'
  have hsights := History.sights_uses hroom hcalm₁ hclock (fun e _ => hzero e.now) hstart hstored
  have hsights' := History.sights_uses hroom hcalm₂ hclock' (fun e _ => hzero e.now) hstart (by
    rw [hrun'.accepted, ← hrun.accepted]
    exact hstored)
  rw [← huses] at hsights'
  exact ⟨hsights.trans hsights'.symm, hrun.bytes.trans hrun'.bytes.symm⟩

/-- `a` has expired when it is deleted and stored again; in one of the runs it has been swept away
before, and a second sweep has begun. -/
theorem sights_eq_of_uses_swept :
    let settings := { Settings.default with maxEntries := 2 }
    let s : Store := .ofShelf (.empty 2) ⟨0, false⟩ settings
    let begun := History.start s ⟨[], .clear⟩
    let first : List Event :=
      [⟨.set "a" "1" (some (.ofMillis 10)), 3, .clear⟩, ⟨.set "b" "2" none, 4, .clear⟩]
    let last : List Event := [⟨.delete "a", 20, .clear⟩, ⟨.set "a" "3" none, 21, .clear⟩]
    let kept : List Event := [⟨.sweep 1, 15, .clear⟩, ⟨.slice (.start 1), 20, .clear⟩]
    Recovery.load settings 0 ⟨[], .clear⟩ = (.ok ⟨s, .zero⟩, ⟨[], .clear⟩) ∧
      uses (first ++ last) = uses (first ++ kept ++ last) ∧
      (∀ e ∈ (first ++ last) ++ (first ++ kept ++ last), e.outlook.Calm) ∧
      (first ++ last).Pairwise (fun e e' => e.now ≤ e'.now) ∧
      (first ++ kept ++ last).Pairwise (fun e e' => e.now ≤ e'.now) ∧
      ["a", "b"].length ≤ settings.maxEntries ∧ s.shelf.keysByRecency ⊆ ["a", "b"] ∧
      (∀ key value deadline, Record.set key value deadline ∈
        (begun.run (first ++ last)).accepted → key ∈ ["a", "b"]) ∧
      begun.sights (first ++ last) = begun.sights (first ++ kept ++ last) ∧
      (begun.run (first ++ last)).medium.bytes =
        (begun.run (first ++ kept ++ last)).medium.bytes := by
  intro settings s begun first last kept
  have hload : Recovery.load settings 0 ⟨[], .clear⟩ = (.ok ⟨s, .zero⟩, ⟨[], .clear⟩) :=
    Recovery.load_nil settings 0 .clear
  have huses : uses (first ++ last) = uses (first ++ kept ++ last) := rfl
  have hcalm : ∀ e ∈ (first ++ last) ++ (first ++ kept ++ last), e.outlook.Calm := by
    have hclear : ∀ e ∈ (first ++ last) ++ (first ++ kept ++ last), e.outlook = .clear := by
      simp [first, kept, last]
    intro e he
    rw [hclear e he]
    exact Outlook.calm_clear
  have hclock : (first ++ last).Pairwise fun e e' => e.now ≤ e'.now := by decide
  have hclock' : (first ++ kept ++ last).Pairwise fun e e' => e.now ≤ e'.now := by decide
  have hroom : ["a", "b"].length ≤ settings.maxEntries := by decide
  have hheld : s.shelf.keysByRecency ⊆ ["a", "b"] := by
    rw [show s.shelf.keysByRecency = [] from (Follows.empty 2).keysByRecency_eq]
    exact List.nil_subset _
  have haccepted : (begun.run (first ++ last)).accepted =
      [.set "a" "1" (some 13), .set "b" "2" none, .delete "a", .set "a" "3" none] := by
    decide +kernel
  have hstored : ∀ key value deadline, Record.set key value deadline ∈
      (begun.run (first ++ last)).accepted → key ∈ ["a", "b"] := by
    intro key value deadline hset
    rw [haccepted] at hset
    simp at hset
    rcases hset with ⟨rfl, -⟩ | ⟨rfl, -⟩ | ⟨rfl, -⟩ <;> simp
  have hmain := sights_eq_of_uses hload huses hcalm hclock hclock' hroom hheld hstored
  dsimp only at hmain
  rw [show History.start s ⟨[], .clear⟩ = begun from rfl] at hmain
  exact ⟨hload, huses, hcalm, hclock, hclock', hroom, hheld, hstored, hmain⟩

end Store

end Larder
