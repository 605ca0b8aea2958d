import Larder.Proofs.Accounts
import Larder.Proofs.FirstFaults

/-! What a replay counts adds up. Each line that does not hold blanks only is counted once, as a
record or as a line that was left out, and each record once more by what it does to the shelf; the
entries in the end are those of the shelf at the start and those that records brought for keys
without one, less those that had to leave for them and those that records took away. -/

namespace Larder

/-- One entry has to leave for a new key on a full shelf, and otherwise none. -/
theorem Shelf.Follows.length_put {capacity : Nat} {s : Shelf} {l : Ranking}
    (h : Follows capacity s l) (key value : String) (deadline : Deadline) :
    (s.put key value deadline).1.length = (!s.contains key && s.size == s.capacity).toNat := by
  have hkeys := h.distinct.length_without_add key
  have hroom := h.consistent.bound
  rw [h.size_eq, h.capacity_eq] at hroom
  rw [(h.put key value deadline).1, h.size_eq, h.capacity_eq, h.contains_eq, Ranking.put]
  simp only [List.length_map, List.length_reverse, List.length_drop, List.length_cons]
  cases hfind : (l.lookup key).isSome with
  | true =>
    rw [hfind, Bool.toNat_true] at hkeys
    rw [Bool.not_true, Bool.false_and, Bool.toNat_false]
    omega
  | false =>
    rw [hfind, Bool.toNat_false] at hkeys
    rw [Bool.not_false, Bool.true_and]
    by_cases hfull : l.length = capacity
    · rw [beq_iff_eq.mpr hfull, Bool.toNat_true]
      omega
    · rw [beq_false_of_ne hfull, Bool.toNat_false]
      omega

namespace Journal

instance : DecidablePred Blank := fun _ =>
  decidable_of_iff _ (Option.isNone_iff_eq_none.trans readLine?_eq_none_iff)

/-- All lines but those of blanks give an item. -/
theorem length_itemsFrom (taken : Nat) (lines : List Bytes) :
    (itemsFrom taken lines).length = lines.countP fun line => ¬Blank line := by
  induction lines generalizing taken with
  | nil => rfl
  | cons line lines ih =>
    rw [itemsFrom_cons, List.length_append, ih, List.countP_cons, Nat.add_comm, item?]
    by_cases hblank : Blank line
    · rw [readLine?_eq_none_iff.mpr hblank]
      simp [hblank]
    · obtain ⟨held, hheld⟩ := Option.ne_none_iff_exists'.mp (mt readLine?_eq_none_iff.mp hblank)
      rw [hheld]
      simp [hblank]

end Journal

namespace Replay

open Journal
open Larder.Shelf (Follows Ranking Request)

/-- A record that is replayed, and the shelf as the record has found it. -/
structure Step where
  shelf : Shelf
  record : Record

namespace Step

/-- Something is stored that has not expired. -/
def stores (now : Millis) (x : Step) : Bool :=
  match x.record with
  | .set _ _ deadline => !deadline.hasPassed now
  | .delete _ => false

/-- Something would be stored that has expired. -/
def lapses (now : Millis) (x : Step) : Bool :=
  match x.record with
  | .set _ _ deadline => deadline.hasPassed now
  | .delete _ => false

def deletes (x : Step) : Bool :=
  match x.record with
  | .set .. => false
  | .delete _ => true

/-- The key has an entry, expired or not. -/
def finds (x : Step) : Bool := x.shelf.contains x.record.key

/-- Something is stored for a key without an entry. -/
def brings (now : Millis) (x : Step) : Bool := x.stores now && !x.finds

/-- Something is stored for a key without an entry, and there is no room for one more. -/
def crowds (now : Millis) (x : Step) : Bool := x.brings now && x.shelf.size == x.shelf.capacity

/-- Nothing is stored, and the key has an entry that goes. -/
def takes (now : Millis) (x : Step) : Bool := (x.lapses now || x.deletes) && x.finds

end Step

/-- The records among some items, each as a replay that begins in this state comes to it. -/
def steps (now : Millis) (s : State) : List Item → List Step
  | [] => []
  | .ok r :: items => ⟨s.shelf, r⟩ :: steps now (apply now s r) items
  | .error _ :: items => steps now (skipLine s) items

/-- A record is found on the shelf that the items in front of it leave. -/
theorem steps_append_ok {now : Millis} {before : List Item} (h : ∀ i ∈ before, FromLine i)
    (s : State) (r : Record) (after : List Item) :
    (steps now s (before ++ .ok r :: after))[(records before).length]? =
      some ⟨(runItems .skip now s before).2.shelf, r⟩ := by
  induction before generalizing s with
  | nil => rfl
  | cons i before ih =>
    have hrest := ih fun j hj => h j (List.mem_cons_of_mem i hj)
    rcases h i List.mem_cons_self with ⟨r', rfl⟩ | ⟨number, reason, rfl⟩
    · exact hrest (apply now s r')
    · exact hrest (skipLine s)

/-- An item is a record, or it is left out. -/
theorem length_steps_add (now : Millis) (s : State) (items : List Item) :
    (steps now s items).length + items.countP (fun i => !i.isOk) = items.length := by
  induction items generalizing s with
  | nil => rfl
  | cons i items ih =>
    rw [List.countP_cons, List.length_cons]
    cases i with
    | ok r =>
      have hok : (!Except.isOk (.ok r : Item)) = false := rfl
      have hrest := ih (apply now s r)
      rw [hok, if_neg Bool.false_ne_true, steps, List.length_cons]
      omega
    | error f =>
      have herror : (!Except.isOk (.error f : Item)) = true := rfl
      have hrest := ih (skipLine s)
      rw [herror, if_pos rfl, steps]
      omega

theorem countP_cons_toNat (p : Step → Bool) (x : Step) (xs : List Step) :
    (x :: xs).countP p = (p x).toNat + xs.countP p := by
  rw [List.countP_cons, Nat.add_comm]
  cases p x <;> rfl

theorem toNat_not_add (b : Bool) : (!b).toNat + b.toNat = 1 := by
  cases b <;> rfl

/-- A record stores something, deletes something or has expired. -/
theorem Step.kinds (now : Millis) (x : Step) :
    (x.stores now).toNat + x.deletes.toNat + (x.lapses now).toNat = 1 := by
  obtain ⟨shelf, r⟩ := x
  cases r with
  | set key value deadline => exact toNat_not_add (deadline.hasPassed now)
  | delete key => rfl

theorem length_eq_kinds (now : Millis) (xs : List Step) :
    xs.length = xs.countP (Step.stores now) + xs.countP Step.deletes +
      xs.countP (Step.lapses now) := by
  induction xs with
  | nil => rfl
  | cons x xs ih =>
    have hkind := x.kinds now
    simp only [countP_cons_toNat, List.length_cons]
    omega

/-- What must have been counted from one state to another that some records have led to. -/
structure Books (now : Millis) (s s' : State) (xs : List Step) : Prop where
  read : s'.tally.read = s.tally.read + xs.length
  sets : s'.tally.sets = s.tally.sets + xs.countP (Step.stores now)
  deletes : s'.tally.deletes = s.tally.deletes + xs.countP Step.deletes
  expired : s'.tally.expired = s.tally.expired + xs.countP (Step.lapses now)
  evictions : s'.tally.evictions = s.tally.evictions + xs.countP (Step.crowds now)
  entries : s'.shelf.size + xs.countP (Step.crowds now) + xs.countP (Step.takes now) =
    s.shelf.size + xs.countP (Step.brings now)

variable {now : Millis} {s s' s'' : State} {capacity : Nat} {l : Ranking}

namespace Books

theorem refl (now : Millis) (s : State) : Books now s s [] := ⟨rfl, rfl, rfl, rfl, rfl, rfl⟩

theorem trans {xs ys : List Step} (h : Books now s s' xs) (h' : Books now s' s'' ys) :
    Books now s s'' (xs ++ ys) := by
  obtain ⟨hread, hsets, hdeletes, hexpired, hevictions, hentries⟩ := h
  obtain ⟨hread', hsets', hdeletes', hexpired', hevictions', hentries'⟩ := h'
  constructor
  all_goals
    simp only [List.countP_append, List.length_append]
    omega

end Books

theorem books_skipLine (now : Millis) (s : State) : Books now s (skipLine s) [] :=
  ⟨rfl, rfl, rfl, rfl, rfl, rfl⟩

/-- A record is counted as what it is, with the entry that it brings or takes away and the one that
has to leave for it. -/
theorem books_apply (h : Follows capacity s.shelf l) (now : Millis) (r : Record) :
    Books now s (apply now s r) [⟨s.shelf, r⟩] := by
  cases r with
  | set key value deadline =>
    rw [apply]
    cases hpassed : deadline.hasPassed now with
    | true =>
      -- What has expired only takes away what its key had.
      have hsize := h.size_remove key
      rw [if_pos rfl]
      constructor
      all_goals
        simp only [countP_cons_toNat, List.countP_nil, Step.stores, Step.deletes, Step.lapses,
          Step.crowds, Step.takes, Step.brings, hpassed]
      case entries => exact hsize
      all_goals rfl
    | false =>
      -- Whatever had to leave is counted as evicted, and that is one entry at most.
      have hgone := h.length_put key value deadline
      have hsize := h.size_put key value deadline
      rw [if_neg Bool.false_ne_true]
      constructor
      all_goals
        simp only [countP_cons_toNat, List.countP_nil, Step.stores, Step.deletes, Step.lapses,
          Step.crowds, Step.takes, Step.brings, hpassed]
      case evictions => exact congrArg (s.tally.evictions + ·) hgone
      case entries =>
        have hnew := toNat_not_add (s.shelf.contains key)
        show (s.shelf.put key value deadline).2.size +
            (!s.shelf.contains key && s.shelf.size == s.shelf.capacity).toNat =
          s.shelf.size + (!s.shelf.contains key).toNat
        omega
      all_goals rfl
  | delete key =>
    have hsize := h.size_remove key
    constructor
    case entries =>
      simp only [countP_cons_toNat, List.countP_nil]
      exact hsize
    all_goals rfl

/-- All records among some items are entered, and other lines make no difference to the books. -/
theorem books_runItems {items : List Item} (h : ∀ i ∈ items, FromLine i)
    (hf : Follows capacity s.shelf l) (now : Millis) :
    Books now s (runItems .skip now s items).2 (steps now s items) := by
  induction items generalizing s l with
  | nil => exact .refl now s
  | cons i items ih =>
    have hothers : ∀ j ∈ items, FromLine j := fun j hj => h j (List.mem_cons_of_mem i hj)
    rcases h i List.mem_cons_self with ⟨r, rfl⟩ | ⟨number, reason, rfl⟩
    · have hnext : Follows capacity (apply now s r).shelf (l.restore capacity now r) := by
        rw [shelf_apply]
        exact hf.restore now r
      exact (books_apply hf now r).trans (ih hothers hnext)
    · exact (books_skipLine now s).trans (ih (s := skipLine s) hothers hf)

theorem shelf_run (policy : Policy) (now : Millis) (shelf : Shelf) (items : List Item) :
    (run policy now shelf items).2 = (runItems policy now (start shelf) items).2.shelf := by
  unfold run
  split
  · rename_i hrun
    rw [hrun]
  · rename_i hrun
    rw [hrun]

/-- A replay that leaves out lines which are no records goes through, whatever the journal, the
time and the shelf that requests have led to, and what it has counted adds up. Its records are those
that stored something, those that deleted something and those that had expired; with the lines that
were left out they are all lines but those of blanks. The entries are those of the shelf at the
start and those stored for keys that had none just then, less those that had to leave and those that
a deletion or an expired record came upon. One has to leave for each new key that comes to a full
shelf, so no more leave than records were stored. Just then is when all items in front of the record
have been replayed. -/
theorem tally_adds_up (capacity : Nat) (requests : List Request) (now : Millis) (bs : Bytes) :
    let begun := (Shelf.empty capacity).after requests
    let lines := segments bs
    let xs := steps now (start begun) (items bs)
    ∃ tally shelf, run .skip now begun (items bs) = (.ok tally, shelf) ∧
      tally.read = tally.sets + tally.deletes + tally.expired ∧
      Divided bs lines ∧ tally.read + tally.corrupt = lines.countP (fun line => ¬Blank line) ∧
      shelf.size + tally.evictions + xs.countP (Step.takes now) =
        begun.size + xs.countP (Step.brings now) ∧
      tally.evictions ≤ tally.sets ∧
      (tally.read = xs.length ∧ tally.sets = xs.countP (Step.stores now) ∧
        tally.deletes = xs.countP Step.deletes ∧ tally.expired = xs.countP (Step.lapses now) ∧
        tally.evictions = xs.countP (Step.crowds now)) ∧
      ∀ before r after, items bs = before ++ .ok r :: after →
        xs[(records before).length]? = some ⟨(run .skip now begun before).2, r⟩ := by
  intro begun lines xs
  obtain ⟨l, hl⟩ := (Follows.empty capacity).after requests
  obtain ⟨tally, hrun⟩ := run_skip now begun bs
  have hlines : ∀ i ∈ items bs, FromLine i := fun i hi => fromLine_items hi
  have hcorrupt := corrupt_of_run_skip hrun
  have hcount : (items bs).length = lines.countP fun line => ¬Blank line := length_itemsFrom 0 lines
  have hrecords := length_steps_add now (start begun) (items bs)
  have hkinds := length_eq_kinds now xs
  have hstored : xs.countP (Step.crowds now) ≤ xs.countP (Step.stores now) :=
    List.countP_mono_left fun x _ hcrowds =>
      (Bool.and_eq_true_iff.mp (Bool.and_eq_true_iff.mp hcrowds).1).1
  have hbooks := books_runItems (s := start begun) hlines hl now
  rw [runItems_of_run hrun] at hbooks
  obtain ⟨hread, hsets, hdeletes, hexpired, hevictions, hentries⟩ := hbooks
  simp only [start, Tally.zero, Nat.zero_add] at hread hsets hdeletes hexpired hevictions hentries
  refine ⟨tally, _, hrun, ?_, divided_segments bs, ?_, ?_, ?_,
    ⟨hread, hsets, hdeletes, hexpired, hevictions⟩, fun before r after hitems => ?_⟩
  · rw [hread, hsets, hdeletes, hexpired]
    exact hkinds
  · rw [hread, hcorrupt, ← hcount]
    exact hrecords
  · rw [hevictions]
    exact hentries
  · rw [hevictions, hsets]
    exact hstored
  · have hbefore : ∀ i ∈ before, FromLine i := fun i hi =>
      hlines i (hitems ▸ List.mem_append_left _ hi)
    rw [shelf_run, ← steps_append_ok hbefore (start begun) r after, ← hitems]

/-- On a full shelf `b` leaves for `c`, which expires; `b` is deleted in vain and `a` is deleted and
stored again. A blank line is between them, a line that is no record, and the tail of another. -/
theorem tally_adds_up_mixed :
    let requests : List Request := [.put "b" "0" none, .put "a" "0" none]
    let begun := (Shelf.empty 2).after requests
    let bs := encoding [.set "c" "1" none] ++ [32, lineFeed] ++ encoding [.set "c" "2" (some 5)] ++
      [120, lineFeed] ++ encoding [.delete "b", .delete "a", .set "a" "3" none] ++
      (Record.delete "a").bytes.take 5
    let xs := steps 5 (start begun) (items bs)
    ∃ tally shelf, run .skip 5 begun (items bs) = (.ok tally, shelf) ∧ tally.read = 5 ∧
      tally.sets = 2 ∧ tally.deletes = 2 ∧ tally.expired = 1 ∧ tally.corrupt = 2 ∧
      shelf.keysByRecency = ["a"] ∧
      1 + tally.evictions + xs.countP (Step.takes 5) = 2 + xs.countP (Step.brings 5) := by
  intro requests begun bs xs
  obtain ⟨tally, shelf, hrun, hkinds, -, hlines, hentries, -, hcounts, -⟩ :=
    tally_adds_up 2 requests 5 bs
  obtain ⟨-, hsets, hdeletes, hexpired, -⟩ := hcounts
  have hbegun : Follows 2 begun [("a", ⟨"0", none⟩), ("b", ⟨"0", none⟩)] :=
    ((Follows.empty 2).serveAll requests).2
  have hrecords : records (items bs) = [.set "c" "1" none, .set "c" "2" (some 5), .delete "b",
    .delete "a", .set "a" "3" none] := by decide +kernel
  have hshelf : Follows 2 shelf [("a", ⟨"3", none⟩)] := by
    rw [run_ok hrun, hrecords]
    exact hbegun.restoreOnto 5 _
  rw [hshelf.size_eq, hbegun.size_eq] at hentries
  have hcount : (segments bs).countP (fun line => ¬Blank line) = 7 := by decide +kernel
  have hsets : tally.sets = 2 := hsets.trans (by decide +kernel)
  have hdeletes : tally.deletes = 2 := hdeletes.trans (by decide +kernel)
  have hexpired : tally.expired = 1 := hexpired.trans (by decide +kernel)
  have hread : tally.read = 5 := by rw [hkinds, hsets, hdeletes, hexpired]
  refine ⟨tally, shelf, hrun, hread, hsets, hdeletes, hexpired, ?_, hshelf.keysByRecency_eq,
    hentries⟩
  omega

end Replay

end Larder
