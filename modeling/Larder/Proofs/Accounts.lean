import Larder.Proofs.Successions

/-! What a store counts adds up. Each call enters the books once, by what was asked for, what was
answered and whether the key had an entry; the entries on the shelf are those that were there at
the start and those that changes brought, less those that had to leave for newer ones, those whose
deadline had passed and those that were deleted. -/

namespace Larder

namespace Shelf

variable {capacity : Nat} {s : Shelf} {l : Ranking}

/-- A key has one entry to lose or none. -/
theorem Ranking.Distinct.length_without_add (h : l.Distinct) (key : String) :
    (l.without key).length + (l.lookup key).isSome.toNat = l.length := by
  cases hfind : l.lookup key with
  | none =>
    have hkept : l.without key = l := by
      rw [Ranking.without, List.filter_eq_self]
      intro p hp
      have hne := List.lookup_eq_none_iff.mp hfind p hp
      rw [bne_iff_ne] at hne
      exact decide_eq_true (Ne.symm hne)
    rw [hkept]
    rfl
  | some entry => exact h.length_without (h.lookup_eq_some_iff.mp hfind)

namespace Follows

theorem size_eq (h : Follows capacity s l) : s.size = l.length := by
  obtain ⟨rows, hs, rfl, -, -⟩ := h
  rw [Shelf.size, hs.size, ranking, List.length_map]

theorem contains_eq (h : Follows capacity s l) (key : String) :
    s.contains key = (l.lookup key).isSome := by
  rw [← h.find?_eq, Shelf.find?, Option.isSome_map, Std.HashMap.isSome_getElem?_eq_contains]
  rfl

/-- A key that is new adds its entry, and whatever leaves for it is told. -/
theorem size_put (h : Follows capacity s l) (key value : String) (deadline : Deadline) :
    (s.put key value deadline).2.size + (s.put key value deadline).1.length +
      (s.contains key).toNat = s.size + 1 := by
  obtain ⟨hgone, hnext⟩ := h.put key value deadline
  rw [hnext.size_eq, hgone, h.size_eq, h.contains_eq, Ranking.put]
  have hlength := h.distinct.length_without_add key
  simp only [List.length_take, List.length_map, List.length_reverse, List.length_drop,
    List.length_cons]
  omega

theorem size_remove (h : Follows capacity s l) (key : String) :
    (s.remove key).2.size + (s.contains key).toNat = s.size := by
  rw [(h.remove key).2.size_eq, h.size_eq, h.contains_eq]
  exact h.distinct.length_without_add key

/-- A look-up takes away the entry that it finds expired and no other. -/
theorem size_get (h : Follows capacity s l) (key : String) (now : Millis) :
    (s.get key now).2.size + (if (s.get key now).1 = .expired then 1 else 0) = s.size := by
  obtain ⟨hsame, hnext⟩ := h.get key now
  have hlength := h.distinct.length_without_add key
  rw [hnext.size_eq, hsame, h.size_eq, Ranking.get]
  cases hfind : l.lookup key with
  | none => rfl
  | some entry =>
    rw [hfind] at hlength
    dsimp only
    split
    · exact hlength
    · exact hlength

end Follows

end Shelf

namespace Store

open Larder.Shelf (Follows Ranking)

/-- A call with its answer, and the store as the call has found it. -/
structure Exchange where
  store : Store
  call : Call
  answer : Answer

namespace Exchange

/-- A value is asked for. -/
def looksUp (x : Exchange) : Bool :=
  match x.call with
  | .get _ => true
  | _ => false

/-- A value is asked for and handed out. -/
def finds (x : Exchange) : Bool := (x.call.found? x.answer).isSome

/-- A change is asked for and acknowledged. -/
def changes (x : Exchange) : Bool :=
  match x.call with
  | .set .. => x.answer.granted
  | .delete _ => x.answer.granted
  | _ => false

/-- A change is acknowledged that stores something for a key without an entry. -/
def brings (x : Exchange) : Bool :=
  match x.call with
  | .set key _ _ => x.answer.granted && !x.store.shelf.contains key
  | _ => false

/-- A deletion is acknowledged of a key that had an entry, expired or not. -/
def takes (x : Exchange) : Bool :=
  match x.call with
  | .delete key => x.answer.granted && x.store.shelf.contains key
  | _ => false

end Exchange

/-- What must have been counted from one store to another that some exchanges have led to. -/
structure Books (s s' : Store) (xs : List Exchange) : Prop where
  entries : s.counters.entries = s.size → s'.counters.entries = s'.size
  hits : s'.counters.hits = s.counters.hits + xs.countP Exchange.finds
  lookups : s'.counters.hits + s'.counters.misses =
    s.counters.hits + s.counters.misses + xs.countP Exchange.looksUp
  appended : s'.counters.appended = s.counters.appended + xs.countP Exchange.changes
  balance : s'.size + s'.counters.evictions + s'.counters.expirations + xs.countP Exchange.takes =
    s.size + s.counters.evictions + s.counters.expirations + xs.countP Exchange.brings

variable {s s' s'' : Store} {m : Medium} {capacity : Nat} {l : Ranking}

namespace Books

theorem refl (s : Store) : Books s s [] := ⟨id, rfl, rfl, rfl, rfl⟩

theorem trans {xs ys : List Exchange} (h : Books s s' xs) (h' : Books s' s'' ys) :
    Books s s'' (xs ++ ys) := by
  obtain ⟨hentries, hhits, hlookups, happended, hbalance⟩ := h
  obtain ⟨hentries', hhits', hlookups', happended', hbalance'⟩ := h'
  constructor
  case entries => exact fun hs => hentries' (hentries hs)
  all_goals
    simp only [List.countP_append]
    omega

/-- A call that neither looks up nor changes anything leaves nothing to be counted. -/
theorem idle {x : Exchange} (hlooks : x.looksUp = false) (hchanges : x.changes = false)
    (s : Store) : Books s s [x] := by
  obtain ⟨store, call, answer⟩ := x
  have hfinds : Exchange.finds ⟨store, call, answer⟩ = false := by
    cases call with
    | get key => cases hlooks
    | _ => rfl
  have hbrings : Exchange.brings ⟨store, call, answer⟩ = false := by
    cases call with
    | set key value ttl =>
      have hrefused : answer.granted = false := hchanges
      simp [Exchange.brings, hrefused]
    | _ => rfl
  have htakes : Exchange.takes ⟨store, call, answer⟩ = false := by
    cases call with
    | delete key =>
      have hrefused : answer.granted = false := hchanges
      simp [Exchange.takes, hrefused]
    | _ => rfl
  constructor
  all_goals simp [hlooks, hfinds, hchanges, hbrings, htakes]

/-- What is neither the number of entries nor counted may change. -/
theorem of_size (hsize : s'.size = s.size) (hcounters : s'.counters = s.counters) :
    Books s s' [] := by
  constructor
  all_goals simp [hsize, hcounters]

/-- Entries that leave because they have expired are counted as that. -/
theorem of_expired {n : Nat} (hsize : s'.size + n = s.size)
    (hcounters : s'.counters = (s.counters.expire n).hold s'.size) : Books s s' [] := by
  constructor
  case entries => exact fun _ => congrArg Counters.entries hcounters
  case hits => rw [hcounters]; rfl
  case lookups => rw [hcounters]; rfl
  case appended => rw [hcounters]; rfl
  case balance =>
    rw [hcounters]
    simp only [Counters.expire, Counters.hold, List.countP_nil]
    omega

end Books

/-- A record that is written is counted, and nothing else is. -/
theorem counters_write (s : Store) (m : Medium) (r : Record) :
    let o := s.write m r
    o.store.counters = if o.answer.isOk then s.counters.append else s.counters := by
  unfold write
  split
  · rfl
  · split <;> rfl

/-- What has been written is entered with the entry that it brings and those that leave for it. -/
theorem books_place (h : Follows capacity s.shelf l) {key value : String} {deadline : Deadline}
    {ttl : Option Duration} (hshelf : s'.shelf = s.shelf)
    (hcounters : s'.counters = s.counters.append) :
    Books s (s'.place key value deadline) [⟨s, .set key value ttl, .done (.ok ())⟩] := by
  have hsize := h.size_put key value deadline
  have hstore : s'.place key value deadline =
      recount { s' with
        shelf := (s.shelf.put key value deadline).2
        counters := s.counters.append.evict (s.shelf.put key value deadline).1.length } := by
    rw [place, hshelf, hcounters]
  rw [hstore]
  constructor
  case entries => exact fun _ => rfl
  case hits => rfl
  case lookups => rfl
  case appended => rfl
  case balance =>
    have htakes : Exchange.takes ⟨s, .set key value ttl, .done (.ok ())⟩ = false := rfl
    have hbrings : Exchange.brings ⟨s, .set key value ttl, .done (.ok ())⟩ =
      !s.shelf.contains key := Bool.true_and _
    rw [List.countP_singleton, List.countP_singleton, htakes, hbrings]
    simp only [recount, size, Counters.hold, Counters.evict, Counters.append]
    by_cases hcontains : s.shelf.contains key = true
    · simp [hcontains] at hsize ⊢
      omega
    · simp [hcontains] at hsize ⊢
      omega

/-- A deletion that has been written is entered with the entry that it takes away. -/
theorem books_remove (h : Follows capacity s.shelf l) {key : String} {served : Bool}
    (hshelf : s'.shelf = s.shelf) (hcounters : s'.counters = s.counters.append) :
    Books s (recount { s' with shelf := (s'.shelf.remove key).2 })
      [⟨s, .delete key, .deleted (.ok served)⟩] := by
  have hsize := h.size_remove key
  have hstore : recount { s' with shelf := (s'.shelf.remove key).2 } =
      recount { s' with shelf := (s.shelf.remove key).2, counters := s.counters.append } := by
    rw [hshelf, hcounters]
  rw [hstore]
  constructor
  case entries => exact fun _ => rfl
  case hits => rfl
  case lookups => rfl
  case appended => rfl
  case balance =>
    have htakes : Exchange.takes ⟨s, .delete key, .deleted (.ok served)⟩ =
      s.shelf.contains key := Bool.true_and _
    have hbrings : Exchange.brings ⟨s, .delete key, .deleted (.ok served)⟩ = false := rfl
    rw [List.countP_singleton, List.countP_singleton, htakes, hbrings]
    simp only [recount, size, Counters.hold, Counters.append]
    by_cases hcontains : s.shelf.contains key = true
    · simp [hcontains] at hsize ⊢
      omega
    · simp [hcontains] at hsize ⊢
      omega

/-- A look-up is entered as one that found a value or as one that did not, and then with the entry
that has left because it was expired. -/
theorem books_get (h : Follows capacity s.shelf l) (now : Millis) (key : String) :
    Books s (s.get now key).2 [⟨s, .get key, .value (s.get now key).1⟩] := by
  have hsize := h.size_get key now
  have hhit : ∀ value, Books s { s with counters := s.counters.hit }
      [⟨s, .get key, .value (some value)⟩] := fun value =>
    ⟨id, rfl, Nat.add_right_comm _ _ _, rfl, rfl⟩
  have hmiss : Books s { s with counters := s.counters.miss } [⟨s, .get key, .value none⟩] :=
    ⟨id, rfl, rfl, rfl, rfl⟩
  unfold get
  generalize s.shelf.get key now = o at *
  obtain ⟨lookup, shelf⟩ := o
  cases lookup with
  | hit value => exact (hhit value).trans (.of_size hsize rfl)
  | expired => exact hmiss.trans (.of_expired hsize rfl)
  | miss => exact hmiss.trans (.of_size hsize rfl)

/-- What a slice takes away has expired and is entered as that. -/
theorem books_slice (h : Follows capacity s.shelf l) (sweep : Sweep) (now : Millis) :
    Books s (sweep.slice s now).2 [] := by
  unfold Sweep.slice
  split
  · exact .refl s
  · rename_i cursor _
    obtain ⟨l', hnext, -, hcount⟩ :=
      h.removeExpired_sheds now (s.shelf.expiredSlice cursor sweep.batch now).1
    rw [← hnext.size_eq, ← h.size_eq] at hcount
    dsimp only
    generalize Sweep.removeExpired now _ s.shelf = o at *
    obtain ⟨n, shelf⟩ := o
    dsimp only at hcount ⊢
    split
    · rename_i hnone
      rw [hnone] at hcount
      exact .of_size hcount rfl
    · exact .of_expired hcount rfl

theorem books_runFrom (h : Follows capacity s.shelf l) (now : Millis) (fuel : Nat)
    (sweep : Sweep) : Books s (Sweep.runFrom now fuel sweep s).2 [] := by
  induction fuel generalizing s l sweep with
  | zero => exact .refl s
  | succ fuel ih =>
    unfold Sweep.runFrom
    split
    · exact .refl s
    · have hslice := books_slice h sweep now
      obtain ⟨l', hnext, -⟩ := slice_sheds h sweep now
      exact hslice.trans (ih hnext (sweep.slice s now).1)

/-- Every call is entered once. -/
theorem books_perform (h : Follows capacity s.shelf l) (m : Medium) (now : Millis) (call : Call) :
    let o := s.perform m now call
    Books s o.store [⟨s, call, o.answer⟩] := by
  cases call with
  | set key value ttl =>
    cases hvalid : entryObjection? key value with
    | some o =>
      simp only [perform, set_of_objection hvalid]
      exact .idle rfl rfl s
    | none =>
      have hshelf := shelf_write s m (.set key value (s.deadlineFor now ttl))
      have hcounters := counters_write s m (.set key value (s.deadlineFor now ttl))
      simp only [perform, set, hvalid]
      generalize s.write m _ = o at *
      obtain ⟨result, s', m'⟩ := o
      cases result with
      | error f =>
        exact (Books.of_size (congrArg Shelf.size hshelf) hcounters).trans (.idle rfl rfl _)
      | ok _ => exact books_place h hshelf hcounters
  | delete key =>
    cases hvalid : keyObjection? key with
    | some o =>
      simp only [perform, delete_of_objection hvalid]
      exact .idle rfl rfl s
    | none =>
      have hshelf := shelf_write s m (.delete key)
      have hcounters := counters_write s m (.delete key)
      simp only [perform, delete, hvalid]
      generalize s.write m _ = o at *
      obtain ⟨result, s', m'⟩ := o
      cases result with
      | error f =>
        exact (Books.of_size (congrArg Shelf.size hshelf) hcounters).trans (.idle rfl rfl _)
      | ok _ => exact books_remove h hshelf hcounters
  | get key => exact books_get h now key
  | contains key => exact .idle rfl rfl s
  | stats => exact .idle rfl rfl s
  | slice sweep => exact (books_slice h sweep now).trans (.idle rfl rfl _)
  | sweep batch =>
    have hswept : Books s (s.sweep now batch).2 [] := books_runFrom h now _ _
    exact hswept.trans (.idle rfl rfl _)
  | close =>
    simp only [perform, store_close]
    exact (Books.idle rfl rfl s).trans (.of_size rfl rfl)

namespace History

/-- The calls of a run with their answers. -/
def exchanges (h : History) : List Event → List Exchange
  | [] => []
  | e :: events =>
    ⟨h.store, e.call, (h.store.perform (h.found e) e.now e.call).answer⟩ ::
      (h.step e).exchanges events

theorem books_run {h : History} (hf : Follows capacity h.store.shelf l) (events : List Event) :
    Books h.store (h.run events).store (h.exchanges events) := by
  induction events generalizing h l with
  | nil => exact .refl h.store
  | cons e events ih =>
    have hfirst : Books h.store (h.step e).store
        [⟨h.store, e.call, (h.store.perform (h.found e) e.now e.call).answer⟩] := by
      rw [store_step]
      exact books_perform hf (h.found e) e.now e.call
    obtain ⟨l', hnext, -⟩ := serves_step hf e
    exact hfirst.trans (ih hnext)

end History

/-- After any calls in any order, at whatever times and whatever fails, a store that came back from
a journal has counted its entries, the look-ups that found a value and those that did not, and the
changes that it acknowledged; its entries are those that came back and those that acknowledged
changes brought for keys without one, less those that left for newer ones, those that left because
they had expired, and those that acknowledged deletions took away, expired or not. -/
theorem counters_of_run {settings : Settings} {now : Millis} {m m' : Medium}
    {recovered : Recovered} (hload : Recovery.load settings now m = (.ok recovered, m'))
    (events : List Event) :
    let begun := History.start recovered.store m'
    let s := (begun.run events).store
    let exchanges := begun.exchanges events
    s.stats = s.counters ∧ s.counters.entries = s.size ∧
      s.counters.hits = exchanges.countP Exchange.finds ∧
      s.counters.hits + s.counters.misses = exchanges.countP Exchange.looksUp ∧
      s.counters.appended = exchanges.countP Exchange.changes ∧
      s.size + s.counters.evictions + s.counters.expirations + exchanges.countP Exchange.takes =
        recovered.store.size + exchanges.countP Exchange.brings := by
  intro begun s exchanges
  obtain ⟨w, -, hstore⟩ := Recovery.load_ok hload
  have hfollows := Recovery.follows_of_load hload
  obtain ⟨hentries, hhits, hlookups, happended, hbalance⟩ :=
    History.books_run (h := begun) hfollows events
  have hzero : begun.store.counters = Counters.zero.hold begun.store.size := by
    rw [show begun.store = recovered.store from rfl, hstore]
    rfl
  rw [hzero] at hentries hhits hlookups happended hbalance
  have hheld := hentries rfl
  refine ⟨?_, hheld, ?_, ?_, ?_, hbalance⟩
  · show s.counters.hold s.size = s.counters
    rw [← hheld]
    rfl
  · exact hhits.trans (Nat.zero_add _)
  · exact hlookups.trans (Nat.zero_add _)
  · exact happended.trans (Nat.zero_add _)

/-- With room for one entry, `a` leaves for `b`, which is found and then found expired; the first
value of `a` could not be synced. -/
theorem counters_of_run_expired :
    let settings := { Settings.default with maxEntries := 1 }
    let s : Store := .ofShelf (.empty 1) ⟨0, false⟩ settings
    let begun := History.start s ⟨[], .clear⟩
    let events : List Event := [⟨.set "a" "0" none, 5, ⟨none, .first 1, .none⟩⟩,
      ⟨.set "a" "1" none, 5, .clear⟩, ⟨.set "b" "2" (some (.ofMillis 10)), 5, .clear⟩,
      ⟨.get "b", 14, .clear⟩, ⟨.get "b", 15, .clear⟩]
    let h := begun.run events
    Recovery.load settings 0 ⟨[], .clear⟩ = (.ok ⟨s, .zero⟩, ⟨[], .clear⟩) ∧
      h.store.counters.entries = 0 ∧ h.store.counters.hits + h.store.counters.misses = 2 ∧
      h.store.counters.appended = 2 ∧
      h.store.counters.evictions + h.store.counters.expirations =
        (begun.exchanges events).countP Exchange.brings := by
  intro settings s begun events h
  have hload : Recovery.load settings 0 ⟨[], .clear⟩ = (.ok ⟨s, .zero⟩, ⟨[], .clear⟩) :=
    Recovery.load_nil settings 0 .clear
  have hrefused : Follows 1 (begun.step ⟨.set "a" "0" none, 5, ⟨none, .first 1, .none⟩⟩).store.shelf
      [] := Follows.empty 1
  have ha := History.follows_granted (e := ⟨.set "a" "1" none, 5, .clear⟩)
    (r := .set "a" "1" none) hrefused (by decide +kernel)
  have hb := History.follows_granted (e := ⟨.set "b" "2" (some (.ofMillis 10)), 5, .clear⟩)
    (r := .set "b" "2" (some 15)) ha (by decide +kernel)
  have hend := History.follows_get (History.follows_get hb "b" 14 .clear) "b" 15 .clear
  have hsize : h.store.size = 0 := by
    simp only [h, events, History.run, List.foldl_cons, List.foldl_nil]
    exact hend.size_eq.trans (by decide +kernel)
  have hlooks : (begun.exchanges events).countP Exchange.looksUp = 2 := by decide +kernel
  have hchanges : (begun.exchanges events).countP Exchange.changes = 2 := by decide +kernel
  have htakes : (begun.exchanges events).countP Exchange.takes = 0 := by decide +kernel
  have hempty : s.size = 0 := rfl
  have hmain := counters_of_run hload events
  have hh : h = (History.start s ⟨[], .clear⟩).run events := rfl
  have hbegun : begun = History.start s ⟨[], .clear⟩ := rfl
  clear_value h begun
  dsimp only at hmain
  rw [← hh, ← hbegun, hlooks, hchanges, htakes, hsize, hempty] at hmain
  obtain ⟨-, hentries, -, hlookups, happended, hbalance⟩ := hmain
  refine ⟨hload, hentries, hlookups, happended, ?_⟩
  omega

end Store

end Larder
