import Mathlib.Algebra.Order.Floor.Div
import Larder.Proofs.SweepsInUse

/-! How long a sweep can take. A slot is made only when there is an entry in every other, so there
is never more than one slot too many; and a slice after the first begins at a slot that is there,
as many slots behind the one before as one slice looks at. So the room on the shelf alone says how
many slices there can be, whatever is put on the shelf between them. -/

namespace Larder

/-- Whether the next turn of a sweep is a slice. -/
def Sweep.Turn.hasSlice : Turn → Bool
  | .pending sweep => sweep.cursor.isSome
  | .finished _ => false

theorem Sweep.Turn.hasSlice_iff {turn : Turn} :
    turn.hasSlice = true ↔ ∃ sweep cursor, turn = .pending sweep ∧ sweep.cursor = some cursor := by
  cases turn with
  | pending sweep => simp [hasSlice, Option.isSome_iff_exists]
  | finished removed => simp [hasSlice]

theorem Sweep.batch_slice (sweep : Sweep) (s : Store) (now : Millis) :
    (sweep.slice s now).1.batch = sweep.batch := by
  unfold slice
  split <;> rfl

namespace Store

namespace Course

variable {c : Course} {s : Store} {sweep : Sweep} {batch count : Nat} {moments : List Moment}

/-- How many slices the sweep performs in the course of these moments. -/
def slices (c : Course) : List Moment → Nat
  | [] => 0
  | x :: moments =>
    (if x.isTurn && c.turn.hasSlice then 1 else 0) + (c.step x).slices moments

theorem slices_concat (c : Course) (moments : List Moment) (x : Moment) :
    c.slices (moments ++ [x]) =
      c.slices moments + (if x.isTurn && (c.run moments).turn.hasSlice then 1 else 0) := by
  induction moments generalizing c with
  | nil => exact Nat.add_comm _ _
  | cons y moments ih =>
    rw [List.cons_append, slices, slices, ih, Nat.add_assoc]
    rfl

/-- What holds after so many slices: the next one begins where as many full slices end, and at a
slot that there is room for or at the one too many. -/
structure Paced (s : Store) (batch count : Nat) (c : Course) : Prop where
  used : ∃ requests, c.history.store.shelf = s.shelf.after requests
  bound : count ≤ (s.shelf.capacity + 1) ⌈/⌉ max batch 1
  stretch : ∀ sweep, c.turn = .pending sweep → sweep.batch = max batch 1
  cursor : ∀ sweep cursor, c.turn = .pending sweep → sweep.cursor = some cursor →
    cursor = count * max batch 1 ∧ cursor ≤ s.shelf.capacity

theorem paced_start (s : Store) (batch : Nat) (m : Medium) :
    Paced s batch 0 (start batch s m) where
  used := ⟨[], rfl⟩
  bound := Nat.zero_le _
  stretch sweep hturn := by
    cases hturn
    rfl
  cursor sweep cursor hturn hcursor := by
    cases hturn
    cases hcursor
    exact ⟨(Nat.zero_mul _).symm, Nat.zero_le _⟩

namespace Paced

theorem call (h : Paced s batch count c) (e : Event) :
    Paced s batch count (c.step (.call e)) := by
  obtain ⟨requests, hshelf⟩ := h.used
  obtain ⟨more, hmore, -⟩ := c.history.requests_of_step e
  refine ⟨⟨requests ++ more, ?_⟩, h.bound, h.stretch, h.cursor⟩
  rw [Shelf.after_append, ← hshelf]
  exact hmore

/-- A slice that does not begin behind the room leaves one more within the bound. -/
theorem slice (h : Paced s batch count c) (hs : s.Reached) {cursor : Nat}
    (hturn : c.turn = .pending sweep) (hcursor : sweep.cursor = some cursor) (now : Millis) :
    Paced s batch (count + 1) (c.step (.turn now)) := by
  obtain ⟨requests, hshelf⟩ := h.used
  obtain ⟨hbegin, hroom⟩ := h.cursor sweep cursor hturn hcursor
  have hbatch := h.stretch sweep hturn
  rw [step_of_cursor hturn hcursor]
  constructor
  case used =>
    obtain ⟨keys, hkeys⟩ := shelf_slice sweep c.history.store now
    refine ⟨requests ++ Shelf.expiries now keys, ?_⟩
    rw [Shelf.after_append, ← hshelf]
    exact hkeys
  case bound =>
    refine Nat.lt_of_not_le fun hle => ?_
    have := (ceilDiv_le_iff_le_mul (Nat.le_max_right batch 1)).mp hle
    rw [Nat.mul_comm] at this
    omega
  case stretch =>
    intro next hnext
    cases hnext
    rw [Sweep.batch_slice, hbatch]
  case cursor =>
    intro next stop hnext hstop
    cases hnext
    obtain ⟨l, hfollows⟩ := hs.follows
    have hcount := hfollows.slotCount_after_le hs.slotCount_le requests
    rw [(Sweep.slice_of_cursor hcursor _ now).2, hbatch] at hstop
    obtain ⟨hlt, hstop⟩ := Option.ite_none_right_eq_some.mp hstop
    cases hstop
    rw [hshelf] at hlt
    refine ⟨?_, by omega⟩
    rw [hbegin, Nat.succ_mul, Nat.max_eq_left (Nat.le_max_right batch 1)]

/-- A turn that is no slice ends the sweep, or comes after its end. -/
theorem idle (h : Paced s batch count c) (hno : c.turn.hasSlice = false) (now : Millis) :
    Paced s batch count (c.step (.turn now)) := by
  cases hturn : c.turn with
  | finished removed => rwa [step_of_finished hturn]
  | pending sweep =>
    cases hcursor : sweep.cursor with
    | some cursor =>
      rw [Sweep.Turn.hasSlice_iff.mpr ⟨sweep, cursor, hturn, hcursor⟩] at hno
      cases hno
    | none =>
      rw [step_of_no_cursor hturn hcursor]
      exact ⟨h.used, h.bound, fun _ hno => (nomatch hno), fun _ _ hno => (nomatch hno)⟩

theorem run (hs : s.Reached) (batch : Nat) (m : Medium) (moments : List Moment) :
    Paced s batch ((start batch s m).slices moments) ((start batch s m).run moments) := by
  induction moments using List.reverseRecOn with
  | nil => exact paced_start s batch m
  | append_singleton moments x ih =>
    rw [run_concat, slices_concat]
    cases x with
    | call e => exact ih.call e
    | turn now =>
      cases hslice : ((start batch s m).run moments).turn.hasSlice with
      | false => exact ih.idle hslice now
      | true =>
        obtain ⟨sweep, cursor, hturn, hcursor⟩ := Sweep.Turn.hasSlice_iff.mp hslice
        exact ih.slice hs hturn hcursor now

end Paced

/-- Before a sweep has ended, every turn that it was given has been a slice. -/
theorem slices_of_pending (hturn : (c.run moments).turn = .pending sweep) :
    c.slices moments = moments.countP Moment.isTurn := by
  induction moments using List.reverseRecOn generalizing sweep with
  | nil => rfl
  | append_singleton moments x ih =>
    rw [run_concat] at hturn
    rw [slices_concat, List.countP_append]
    cases x with
    | call e => rw [ih hturn]; rfl
    | turn now =>
      cases hbefore : (c.run moments).turn with
      | finished removed =>
        rw [step_of_finished hbefore, hbefore] at hturn
        cases hturn
      | pending last =>
        cases hcursor : last.cursor with
        | none =>
          rw [step_of_no_cursor hbefore hcursor] at hturn
          cases hturn
        | some cursor =>
          rw [ih hbefore, Sweep.Turn.hasSlice, hcursor]
          rfl

end Course

/-- However a shelf has been used, it has one slot at most more than there is room for entries. So
a sweep of a store that was loaded with room for some entries and has been in use since performs no
more slices than it takes to come to that many slots, whatever is called for between them, and it
has ended after one more turn. -/
theorem slices_le_ceilDiv {settings : Settings} {now : Millis} {m m' : Medium}
    {recovered : Recovered} (hload : Recovery.load settings now m = (.ok recovered, m'))
    (events : List Event) (batch : Nat) (moments : List Moment) :
    let h := (History.start recovered.store m').run events
    let c := Course.start batch h.store h.medium
    let most := (settings.maxEntries + 1) ⌈/⌉ max batch 1
    (∀ capacity requests,
        ((Shelf.empty capacity).after requests).recency.slotCount ≤ capacity + 1) ∧
      c.slices moments ≤ most ∧
      (most + 1 ≤ moments.countP Moment.isTurn → ∃ n, (c.run moments).turn = .finished n) := by
  intro h c most
  have hs : h.store.Reached := ⟨settings, now, m, recovered, m', events, hload, rfl⟩
  obtain ⟨requests, hshelf⟩ := exists_requests_of_load hload events
  obtain ⟨l, hfollows⟩ := (Shelf.Follows.empty settings.maxEntries).after requests
  rw [← hshelf] at hfollows
  have hpaced := (Course.Paced.run hs batch h.medium moments).bound
  rw [hfollows.capacity_eq] at hpaced
  refine ⟨fun capacity requests =>
    (Shelf.Follows.empty capacity).slotCount_after_le (Nat.zero_le _) requests, hpaced,
    fun hturns => ?_⟩
  cases hturn : (c.run moments).turn with
  | finished n => exact ⟨n, rfl⟩
  | pending sweep =>
    have hall : c.slices moments = moments.countP Moment.isTurn := Course.slices_of_pending hturn
    exact absurd hpaced (Nat.not_le_of_lt (hall ▸ hturns))

/-- With room for one entry and a slice for each slot: a key is set before each turn, each time
another one, and the second of them makes a slot while the sweep is under way. -/
theorem slices_le_ceilDiv_writers :
    let settings : Settings := { Settings.default with maxEntries := 1 }
    let recovered : Recovered := ⟨.ofShelf (.empty 1) ⟨0, false⟩ settings, .zero⟩
    let h := (History.start recovered.store ⟨[], .clear⟩).run [⟨.set "a" "1" none, 3, .clear⟩]
    let moments : List Moment := [.call ⟨.set "b" "2" none, 5, .clear⟩, .turn 6,
      .call ⟨.set "c" "3" none, 7, .clear⟩, .turn 8, .call ⟨.set "d" "4" none, 9, .clear⟩, .turn 10]
    let c := Course.start 0 h.store h.medium
    Recovery.load settings 0 ⟨[], .clear⟩ = (.ok recovered, ⟨[], .clear⟩) ∧
      c.slices moments ≤ 2 ∧ ∃ n, (c.run moments).turn = .finished n := by
  intro settings recovered h moments c
  have hload : Recovery.load settings 0 ⟨[], .clear⟩ = (.ok recovered, ⟨[], .clear⟩) :=
    Recovery.load_nil settings 0 .clear
  obtain ⟨-, hslices, hends⟩ :=
    slices_le_ceilDiv hload [⟨.set "a" "1" none, 3, .clear⟩] 0 moments
  have hmost : (settings.maxEntries + 1) ⌈/⌉ max 0 1 = 2 := by decide
  exact ⟨hload, hmost ▸ hslices, hends (hmost ▸ by decide)⟩

end Store

end Larder
