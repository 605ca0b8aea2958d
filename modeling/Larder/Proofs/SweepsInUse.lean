import Larder.Proofs.SweepSlices

/-! A sweep of a store that others use between its slices. Whatever they do, the sweep takes away
only what has expired, gives back how much that was, and leaves nothing behind that had expired
when it began and has not been set since; and it comes to its end after as many turns as there can
be slots, whatever is put on the shelf meanwhile. -/

namespace Larder

/-- How many entries a sweep has taken away so far. -/
def Sweep.Turn.removed : Turn → Nat
  | .pending sweep => sweep.removed
  | .finished removed => removed

/-- The sweep has still to come to a slot. -/
def Sweep.Turn.Awaits (i : Nat) : Turn → Prop
  | .pending sweep => sweep.Awaits i
  | .finished _ => False

theorem Sweep.poll_of_some {sweep : Sweep} {cursor : Nat} (h : sweep.cursor = some cursor)
    (s : Store) (now : Millis) :
    sweep.poll s now = (.pending (sweep.slice s now).1, (sweep.slice s now).2) := by
  unfold poll
  rw [h]

theorem Sweep.poll_of_none {sweep : Sweep} (h : sweep.cursor = none) (s : Store) (now : Millis) :
    sweep.poll s now = (.finished sweep.removed, s) := by
  unfold poll
  rw [h]

namespace Store

open Larder.Shelf (Follows Ranking Puts puts_nil puts_expiries expiries)

/-- What happens while a sweep is under way: it is given a turn, or the store is called. -/
inductive Moment
  | turn (now : Millis)
  | call (e : Event)

namespace Moment

def now : Moment → Millis
  | turn now => now
  | call e => e.now

def isTurn : Moment → Bool
  | turn _ => true
  | call _ => false

end Moment

/-- A turn that a sweep was given: when that was, and how it found everything and left it. -/
structure Visit where
  now : Millis
  before : History
  after : History

namespace Visit

/-- The keys that are gone after the turn. -/
def gone (v : Visit) : List String :=
  v.before.store.shelf.keysByRecency.filter fun key => key ∉ v.after.store.shelf.keysByRecency

/-- Only what has expired is gone, and it has been counted. All the rest keeps its entries and its
order, and the journal is as it was. -/
structure Clears (v : Visit) : Prop where
  expired : ∀ key ∈ v.gone, ∃ entry stop, v.before.store.shelf.find? key = some entry ∧
    entry.deadline = some stop ∧ stop ≤ v.now
  counted : v.after.store.counters.expirations =
    v.before.store.counters.expirations + v.gone.length
  order : v.after.store.shelf.keysByRecency.Sublist v.before.store.shelf.keysByRecency
  entries : ∀ key entry, v.after.store.shelf.find? key = some entry →
    v.before.store.shelf.find? key = some entry
  medium : v.after.medium = v.before.medium
  writer : v.after.store.writer = v.before.store.writer

variable {h : History} {capacity : Nat} {l : Ranking}

theorem length_gone {keys kept : List String} (hnodup : keys.Nodup) (hsub : kept.Sublist keys) :
    (keys.filter fun key => key ∉ kept).length + kept.length = keys.length := by
  have hsame : (keys.filter fun key => key ∈ kept).Perm kept := by
    refine (List.perm_ext_iff_of_nodup (hnodup.filter _) (hnodup.sublist hsub)).mpr fun key => ?_
    rw [List.mem_filter, decide_eq_true_eq]
    exact and_iff_right_of_imp fun hkey => hsub.subset hkey
  have hsplit := keys.length_eq_length_filter_add fun key => decide (key ∈ kept)
  simp only [← decide_not] at hsplit
  have := hsame.length_eq
  omega

/-- A slice clears, and it counts what is gone. -/
theorem clears_slice (hf : Follows capacity h.store.shelf l) (sweep : Sweep) (now : Millis) :
    let v : Visit := ⟨now, h, { h with store := (sweep.slice h.store now).2 }⟩
    v.Clears ∧ (sweep.slice h.store now).1.removed = sweep.removed + v.gone.length := by
  intro v
  obtain ⟨l', hnext, hsheds, n, hlength, hremoved, hcounted⟩ := slice_sheds hf sweep now
  have hbefore : v.before.store.shelf.keysByRecency = l.map Prod.fst := hf.keysByRecency_eq
  have hafter : v.after.store.shelf.keysByRecency = l'.map Prod.fst := hnext.keysByRecency_eq
  have hgone : v.gone.length = n := by
    have := length_gone hf.distinct (hsheds.sublist.map Prod.fst)
    rw [List.length_map, List.length_map, ← hbefore, ← hafter] at this
    rw [gone]
    omega
  refine ⟨⟨fun key hkey => ?_, ?_, ?_, ?_, rfl, writer_slice sweep h.store now⟩, ?_⟩
  · obtain ⟨hkey, hleft⟩ := List.mem_filter.mp hkey
    rw [hbefore] at hkey
    rw [hafter, decide_eq_true_eq] at hleft
    obtain ⟨⟨_, entry⟩, hp, rfl⟩ := List.mem_map.mp hkey
    have hexpired := hsheds.expired _ hp fun hstays => hleft (List.mem_map_of_mem hstays)
    obtain ⟨stop, hstop, hle⟩ := Deadline.hasPassed_iff.mp hexpired
    exact ⟨entry, stop, (hf.find?_eq _).trans (hf.distinct.lookup_eq_some_iff.mpr hp), hstop, hle⟩
  · rw [hgone]
    exact hcounted
  · rw [hbefore, hafter]
    exact hsheds.sublist.map Prod.fst
  · exact fun key entry => (Sweep.keeps_slice key sweep h.store now).find?
  · rw [hgone]
    exact hremoved

/-- A turn that does nothing leaves everything where it is. -/
theorem gone_idle (now : Millis) (h : History) : gone ⟨now, h, h⟩ = [] := by
  simp [gone]

theorem Clears.idle (now : Millis) (h : History) : Clears ⟨now, h, h⟩ where
  expired := by simp [gone_idle]
  counted := by simp [gone_idle]
  order := List.Sublist.refl _
  entries _ _ hfind := hfind
  medium := rfl
  writer := rfl

end Visit

/-- A sweep under way: how it stands, what has become of the store, and the turns it was given. -/
structure Course where
  turn : Sweep.Turn
  history : History
  visits : List Visit

namespace Course

def start (batch : Nat) (s : Store) (m : Medium) : Course :=
  ⟨.pending (.start batch), .start s m, []⟩

/-- A sweep that has ended is not given a turn any more. -/
def step (c : Course) : Moment → Course
  | .call e => { c with history := c.history.step e }
  | .turn now =>
    match c.turn with
    | .finished _ => c
    | .pending sweep =>
      let (turn, store) := sweep.poll c.history.store now
      let after := { c.history with store }
      ⟨turn, after, c.visits ++ [⟨now, c.history, after⟩]⟩

def run (c : Course) (moments : List Moment) : Course := moments.foldl step c

/-- How many entries were gone after the turns of the sweep. -/
def taken (c : Course) : Nat := (c.visits.flatMap Visit.gone).length

theorem run_concat (c : Course) (moments : List Moment) (x : Moment) :
    c.run (moments ++ [x]) = (c.run moments).step x := by
  rw [run, List.foldl_append]
  rfl

variable {c : Course} {s : Store} {sweep : Sweep} {now t₀ : Millis} {moments : List Moment}

/-- A turn with slots still to come to is a slice. -/
theorem step_of_cursor {cursor : Nat} (hturn : c.turn = .pending sweep)
    (hcursor : sweep.cursor = some cursor) (now : Millis) :
    let after := { c.history with store := (sweep.slice c.history.store now).2 }
    c.step (.turn now) =
      ⟨.pending (sweep.slice c.history.store now).1, after,
        c.visits ++ [⟨now, c.history, after⟩]⟩ := by
  simp only [step, hturn, Sweep.poll_of_some hcursor]

/-- The turn after the last slice does nothing but end the sweep. -/
theorem step_of_no_cursor (hturn : c.turn = .pending sweep) (hcursor : sweep.cursor = none)
    (now : Millis) :
    c.step (.turn now) =
      ⟨.finished sweep.removed, c.history, c.visits ++ [⟨now, c.history, c.history⟩]⟩ := by
  simp only [step, hturn, Sweep.poll_of_none hcursor]

theorem step_of_finished {removed : Nat} (hturn : c.turn = .finished removed) (now : Millis) :
    c.step (.turn now) = c := by
  simp only [step, hturn]

theorem taken_concat (turn : Sweep.Turn) (h : History) (visits : List Visit) (v : Visit) :
    taken ⟨turn, h, visits ++ [v]⟩ = taken ⟨turn, h, visits⟩ + v.gone.length := by
  simp [taken]

/-- What holds of a sweep under way, told from the store when it began and a time that no clock
reading comes before. An entry that had expired by then and has not been set since is in a slot
that the sweep has still to come to; and as each turn moves on by one slot at least, there are not
more turns than slots. -/
structure Sound (s : Store) (t₀ : Millis) (c : Course) : Prop where
  used : ∃ requests, c.history.store.shelf = s.shelf.after requests ∧
    Puts c.history.accepted requests
  clears : ∀ v ∈ c.visits, v.Clears
  removed : c.turn.removed = c.taken
  awaits : ∀ key slot, c.history.store.shelf.slots[key]? = some slot →
    slot.entry.hasExpired t₀ = true →
    (∀ value deadline, .set key value deadline ∉ c.history.accepted) →
    c.turn.Awaits slot.handle.slot
  progress : ∀ sweep, c.turn = .pending sweep → c.visits.length ≤ s.shelf.capacity + 1 ∧
    ∀ cursor, sweep.cursor = some cursor → c.visits.length ≤ cursor ∧ cursor ≤ s.shelf.capacity

theorem sound_start (s : Store) (t₀ : Millis) (batch : Nat) (m : Medium) :
    Sound s t₀ (start batch s m) where
  used := ⟨[], rfl, puts_nil _⟩
  clears _ hv := (List.not_mem_nil hv).elim
  removed := rfl
  awaits _ slot _ _ _ := Sweep.awaits_start batch slot.handle.slot
  progress sweep hturn := by
    cases hturn
    refine ⟨Nat.zero_le _, fun cursor hcursor => ?_⟩
    cases hcursor
    exact ⟨Nat.le_refl 0, Nat.zero_le _⟩

namespace Sound

/-- Between two turns entries come and go, and those that do not come anew stay in their slots. -/
theorem call (h : Sound s t₀ c) (e : Event) : Sound s t₀ (c.step (.call e)) := by
  obtain ⟨requests, hshelf, hputs⟩ := h.used
  obtain ⟨more, hmore, hthose⟩ := c.history.requests_of_step e
  have haccepted := c.history.accepted_step e
  constructor
  case used =>
    refine ⟨requests ++ more, ?_, ?_⟩
    · rw [Shelf.after_append, ← hshelf]
      exact hmore
    · rw [step, haccepted]
      exact hputs.append hthose
  case clears => exact h.clears
  case removed => exact h.removed
  case awaits =>
    intro key slot hslot hexpired hunset
    simp only [step, haccepted, List.mem_append, not_or] at hslot hunset
    have hkeeps := hthose.keeps (fun value deadline => (hunset value deadline).2)
      c.history.store.shelf
    rw [← hmore] at hkeeps
    exact h.awaits key slot (hkeeps slot hslot) hexpired fun value deadline =>
      (hunset value deadline).1
  case progress => exact h.progress

/-- Whatever has been asked for since the sweep began, the shelf stands for some ranking and has no
more than one slot too many. -/
theorem follows (h : Sound s t₀ c) (hs : s.Reached) :
    (∃ l, Follows s.shelf.capacity c.history.store.shelf l) ∧
      c.history.store.shelf.recency.slotCount ≤ s.shelf.capacity + 1 := by
  obtain ⟨requests, hshelf, -⟩ := h.used
  obtain ⟨l, hbegin⟩ := hs.follows
  rw [hshelf]
  exact ⟨hbegin.after requests, hbegin.slotCount_after_le hs.slotCount_le requests⟩

/-- A turn with slots still to come to takes away what it finds there and goes on. -/
theorem slice (h : Sound s t₀ c) (hs : s.Reached) (hle : t₀ ≤ now) {cursor : Nat}
    (hturn : c.turn = .pending sweep) (hcursor : sweep.cursor = some cursor) :
    Sound s t₀ (c.step (.turn now)) := by
  obtain ⟨⟨l, hfollows⟩, hcount⟩ := h.follows hs
  obtain ⟨hclears, hremoved⟩ := Visit.clears_slice hfollows sweep now
  rw [step_of_cursor hturn hcursor]
  constructor
  case used =>
    obtain ⟨requests, hshelf, hputs⟩ := h.used
    obtain ⟨keys, hkeys⟩ := shelf_slice sweep c.history.store now
    refine ⟨requests ++ expiries now keys, ?_, ?_⟩
    · rw [Shelf.after_append, ← hshelf]
      exact hkeys
    · simpa using hputs.append (puts_expiries [] now keys)
  case clears => exact List.forall_mem_append.mpr ⟨h.clears, List.forall_mem_singleton.mpr hclears⟩
  case removed =>
    have hbefore := h.removed
    rw [hturn] at hbefore
    rw [taken_concat]
    exact hremoved.trans (congrArg (· + _) hbefore)
  case awaits =>
    intro key slot hslot hexpired hunset
    have hbefore := h.awaits key slot (Sweep.keeps_slice key sweep _ now slot hslot) hexpired hunset
    rw [hturn] at hbefore
    exact Sweep.Awaits.slice hbefore hfollows hslot (Deadline.hasPassed_mono hexpired hle)
  case progress =>
    intro next hnext
    cases hnext
    obtain ⟨hvisits, hpast⟩ := (h.progress sweep hturn).2 cursor hcursor
    rw [List.length_append, List.length_singleton]
    refine ⟨by omega, fun stop hstop => ?_⟩
    -- The next slice begins behind this one, at a slot that is there.
    rw [(Sweep.slice_of_cursor hcursor _ now).2] at hstop
    obtain ⟨hlt, hstop⟩ := Option.ite_none_right_eq_some.mp hstop
    cases hstop
    omega

theorem turn (h : Sound s t₀ c) (hs : s.Reached) (hle : t₀ ≤ now) :
    Sound s t₀ (c.step (.turn now)) := by
  cases hturn : c.turn with
  | finished removed => rwa [step_of_finished hturn]
  | pending sweep =>
    cases hcursor : sweep.cursor with
    | some cursor => exact h.slice hs hle hturn hcursor
    | none =>
      rw [step_of_no_cursor hturn hcursor]
      constructor
      case used => exact h.used
      case clears =>
        exact List.forall_mem_append.mpr ⟨h.clears, List.forall_mem_singleton.mpr (.idle now _)⟩
      case removed =>
        have hbefore := h.removed
        rw [hturn] at hbefore
        rw [taken_concat, Visit.gone_idle]
        exact hbefore
      case awaits =>
        intro key slot hslot hexpired hunset
        have hawaits := h.awaits key slot hslot hexpired hunset
        rw [hturn] at hawaits
        obtain ⟨cursor, hsome, -⟩ := hawaits
        cases hcursor.symm.trans hsome
      case progress => exact fun _ hno => nomatch hno

theorem run (hs : s.Reached) (batch : Nat) (m : Medium) {moments : List Moment}
    (hclock : ∀ x ∈ moments, t₀ ≤ x.now) : Sound s t₀ ((start batch s m).run moments) := by
  induction moments using List.reverseRecOn with
  | nil => exact sound_start s t₀ batch m
  | append_singleton moments x ih =>
    rw [run_concat]
    have hbefore := ih fun y hy => hclock y (List.mem_append_left _ hy)
    have hle := hclock x (List.mem_append_right _ (List.mem_singleton_self x))
    cases x with
    | call e => exact hbefore.call e
    | turn now => exact hbefore.turn hs hle

end Sound

/-- A sweep that has not ended was given all the turns there were. -/
theorem length_visits_of_pending (hturn : (c.run moments).turn = .pending sweep) :
    (c.run moments).visits.length = c.visits.length + moments.countP Moment.isTurn := by
  induction moments using List.reverseRecOn generalizing sweep with
  | nil => rfl
  | append_singleton moments x ih =>
    rw [run_concat] at hturn ⊢
    rw [List.countP_append]
    cases x with
    | call e => exact ih hturn
    | turn now =>
      cases hbefore : (c.run moments).turn with
      | finished removed =>
        rw [step_of_finished hbefore, hbefore] at hturn
        cases hturn
      | pending last =>
        cases hcursor : last.cursor with
        | none =>
          rw [step_of_no_cursor hbefore hcursor] at hturn
          cases hturn
        | some cursor =>
          rw [step_of_cursor hbefore hcursor, List.length_append, ih hbefore]
          rfl

/-- Only a call adds to what has been accepted, and only what it asks for. -/
theorem mem_accepted_step {x : Moment} {r : Record} (hr : r ∈ (c.step x).history.accepted) :
    r ∈ c.history.accepted ∨
      ∃ e, x = .call e ∧ e.call.record? c.history.store e.now = some r := by
  cases x with
  | turn now =>
    simp only [step] at hr
    split at hr <;> exact .inl hr
  | call e =>
    simp only [step, c.history.accepted_step e, List.mem_append, Option.mem_toList] at hr
    refine hr.imp id fun hgranted => ⟨e, rfl, ?_⟩
    unfold History.granted? at hgranted
    split at hgranted
    · exact hgranted
    · cases hgranted

/-- What is stored while a sweep goes on was asked for by a call. -/
theorem exists_call_of_mem_accepted {key value : String} {deadline : Deadline}
    (hset : .set key value deadline ∈ (c.run moments).history.accepted) :
    .set key value deadline ∈ c.history.accepted ∨
      ∃ e ttl, .call e ∈ moments ∧ e.call = .set key value ttl := by
  induction moments using List.reverseRecOn with
  | nil => exact .inl hset
  | append_singleton moments x ih =>
    rw [run_concat] at hset
    rcases mem_accepted_step hset with hset | ⟨e, rfl, hr⟩
    · refine (ih hset).imp id fun ⟨e, ttl, he, hcall⟩ => ?_
      exact ⟨e, ttl, List.mem_append_left _ he, hcall⟩
    · refine .inr ⟨e, ?_⟩
      cases hcall : e.call with
      | set key value ttl =>
        rw [hcall] at hr
        cases (Call.record?_set_eq_some.mp hr).2
        exact ⟨ttl, List.mem_append_right _ (List.mem_singleton_self _), rfl⟩
      | delete key => rw [hcall] at hr; cases (Call.record?_delete_eq_some.mp hr).2
      | _ => rw [hcall] at hr; cases hr

end Course

/-- Whatever is called for between the turns of a sweep, with clocks that do not fall behind the
time when it began: a turn takes away only what has expired by then, counts it, and leaves the rest
and the journal alone; after as many turns as there can be slots and one more the sweep has ended;
and then it has given back how much was gone after its turns, and what had expired when it began is
not there any more unless its key has been set since. -/
theorem sweep_in_use {s : Store} (hs : s.Reached) (m : Medium) (batch : Nat) {t₀ : Millis}
    {moments : List Moment} (hclock : ∀ x ∈ moments, t₀ ≤ x.now) :
    let c := (Course.start batch s m).run moments
    (∀ v ∈ c.visits, v.Clears) ∧
      (s.shelf.capacity + 2 ≤ moments.countP Moment.isTurn → ∃ n, c.turn = .finished n) ∧
      ∀ n, c.turn = .finished n → n = c.taken ∧
        ∀ key entry stop, s.shelf.find? key = some entry → entry.deadline = some stop →
          stop ≤ t₀ → c.history.store.shelf.find? key = none ∨
            ∃ value deadline, .set key value deadline ∈ c.history.accepted := by
  intro c
  have hsound : Course.Sound s t₀ c := .run hs batch m hclock
  refine ⟨hsound.clears, fun hturns => ?_, fun n hturn =>
    ⟨?_, fun key entry stop hfind hstop hle => ?_⟩⟩
  · cases hturn : c.turn with
    | finished n => exact ⟨n, rfl⟩
    | pending sweep =>
      have hvisits := (hsound.progress sweep hturn).1
      rw [Course.length_visits_of_pending hturn] at hvisits
      omega
  · rw [← hsound.removed, hturn]
    rfl
  · by_contra hno
    rw [not_or, not_exists] at hno
    obtain ⟨hleft, hunset⟩ := hno
    have hunset : ∀ value deadline, .set key value deadline ∉ c.history.accepted :=
      fun value deadline hset => hunset value ⟨deadline, hset⟩
    obtain ⟨slot, hslot⟩ := Option.ne_none_iff_exists'.mp fun hnone =>
      hleft (congrArg (Option.map Shelf.Slot.entry) hnone)
    -- It has not been set since, so what is left is what was there.
    obtain ⟨requests, hshelf, hputs⟩ := hsound.used
    have hkeeps := hputs.keeps hunset s.shelf
    rw [← hshelf] at hkeeps
    have hsame : slot.entry = entry := by
      rw [Shelf.find?, hkeeps slot hslot] at hfind
      exact Option.some.inj hfind
    have hexpired : slot.entry.hasExpired t₀ = true := by
      rw [hsame]
      exact Deadline.hasPassed_iff.mpr ⟨stop, hstop, hle⟩
    have hawaits := hsound.awaits key slot hslot hexpired hunset
    rw [hturn] at hawaits
    exact hawaits

/-- While a sweep goes on, a key is set in the slot that it has just passed and another is
deleted. -/
theorem sweep_in_use_between :
    let settings : Settings := { Settings.default with maxEntries := 2 }
    let begun : History := .start (.ofShelf (.empty 2) ⟨0, false⟩ settings) ⟨[], .clear⟩
    let h := begun.run [⟨.set "a" "1" (some (.ofMillis 10)), 3, .clear⟩,
      ⟨.set "b" "2" none, 4, .clear⟩]
    let moments : List Moment := [.turn 20, .call ⟨.set "c" "3" none, 21, .clear⟩, .turn 21,
      .call ⟨.delete "b", 22, .clear⟩, .turn 22, .turn 23]
    let c := (Course.start 1 h.store h.medium).run moments
    h.store.Reached ∧ (∀ x ∈ moments, 20 ≤ x.now) ∧ (∀ v ∈ c.visits, v.Clears) ∧
      h.store.shelf.find? "a" = some ⟨"1", some 13⟩ ∧ c.history.store.shelf.find? "a" = none ∧
      c.turn = .finished c.taken := by
  intro settings begun h moments
  have hreached : h.store.Reached :=
    ⟨settings, 2, ⟨[], .clear⟩, _, _, _, Recovery.load_nil settings 2 .clear, rfl⟩
  have hclock : ∀ x ∈ moments, 20 ≤ x.now := by decide
  let first := begun.step ⟨.set "a" "1" (some (.ofMillis 10)), 3, .clear⟩
  have hfirst : Follows 2 first.store.shelf [("a", ⟨"1", some 13⟩)] :=
    History.follows_granted (h := begun) (e := ⟨.set "a" "1" (some (.ofMillis 10)), 3, .clear⟩)
      (r := .set "a" "1" (some 13)) (Follows.empty 2) (by decide +kernel)
  have hboth : Follows 2 h.store.shelf [("b", ⟨"2", none⟩), ("a", ⟨"1", some 13⟩)] :=
    History.follows_granted (e := ⟨.set "b" "2" none, 4, .clear⟩) (r := .set "b" "2" none) hfirst
      (by decide +kernel)
  have hfind : h.store.shelf.find? "a" = some ⟨"1", some 13⟩ := hboth.find?_eq "a"
  have hturns : h.store.shelf.capacity + 2 ≤ moments.countP Moment.isTurn := by
    rw [hboth.capacity_eq]
    decide
  have hunset : ∀ value deadline, Record.set "a" value deadline ∉
      ((Course.start 1 h.store h.medium).run moments).history.accepted := by
    intro value deadline hset
    rcases Course.exists_call_of_mem_accepted hset with hset | ⟨e, ttl, he, hcall⟩
    · cases hset
    · simp only [moments, List.mem_cons, Moment.call.injEq, List.not_mem_nil, reduceCtorEq,
        or_false, false_or] at he
      rcases he with rfl | rfl <;> simp at hcall
  have hmain := sweep_in_use hreached h.medium 1 hclock
  clear_value h moments
  intro c
  obtain ⟨hclears, hends, hended⟩ := hmain
  obtain ⟨n, hn⟩ := hends hturns
  obtain ⟨htaken, hgone⟩ := hended n hn
  refine ⟨hreached, hclock, hclears, hfind, ?_, htaken ▸ hn⟩
  rcases hgone "a" _ 13 hfind rfl (by decide) with hnone | ⟨value, deadline, hset⟩
  · exact hnone
  · exact absurd hset (hunset value deadline)

end Store

end Larder
