import Larder.Proofs.CorruptLines
import Larder.Proofs.Reloading

/-! A replay that stops at the first line which is no record, beside one that leaves such lines
out. Where there is no such line they are the same replay. Where there is one, the first of them
has done by then what the second makes of the bytes in front of that line, and its failure has the
number of the line, with all lines before it counted. -/

namespace Larder

namespace Journal

/-- Why a line is no record; none if it is one or holds blanks only. -/
def fault? (line : Bytes) : Option LineError :=
  match readLine? line with
  | some (.error reason) => some reason
  | _ => none

/-- Where the first line stands that is no record, and why it is none. -/
structure FirstFault (bs front line rest : Bytes) (reason : LineError) : Prop where
  bytes : bs = front ++ line ++ rest
  lines : segments bs = segments front ++ line :: segments rest
  sound : ∀ l ∈ segments front, fault? l = none
  fault : fault? line = some reason

/-- What stands in front of a line is divided into the lines before it, and what stands behind it
into those after it. -/
theorem Divided.exists_append {bs line : Bytes} {before after : List Bytes}
    (h : Divided bs (before ++ line :: after)) :
    ∃ front rest, bs = front ++ line ++ rest ∧ Divided front before ∧ Divided rest after := by
  induction before generalizing bs with
  | nil =>
    cases h with
    | unended => exact ⟨[], [], by simp, .nil, .nil⟩
    | @line l rest _ _ h => exact ⟨[], rest, by simp, .nil, h⟩
  | cons first before ih =>
    rw [List.cons_append] at h
    generalize hlines : before ++ line :: after = lines at h
    cases h with
    | unended => exact absurd hlines (by simp)
    | line hl h =>
      subst hlines
      obtain ⟨front, rest, rfl, hfront, hrest⟩ := ih h
      exact ⟨_, rest, by simp only [List.append_assoc], .line hl hfront, hrest⟩

/-- The lines of a journal are all sound, or one of them is the first that is not. -/
theorem sound_or_firstFault (bs : Bytes) :
    (∀ line ∈ segments bs, fault? line = none) ∨
      ∃ front line rest reason, FirstFault bs front line rest reason := by
  cases hfind : (segments bs).find? fun line => (fault? line).isSome with
  | none =>
    refine .inl fun line hline => ?_
    have := List.find?_eq_none.mp hfind line hline
    exact Option.not_isSome_iff_eq_none.mp this
  | some line =>
    obtain ⟨hfault, before, after, hlines, hbefore⟩ := List.find?_eq_some_iff_append.mp hfind
    obtain ⟨reason, hreason⟩ := Option.isSome_iff_exists.mp hfault
    obtain ⟨front, rest, hbytes, hfront, hrest⟩ := (hlines ▸ divided_segments bs).exists_append
    cases hfront.eq_segments
    cases hrest.eq_segments
    refine .inr ⟨front, line, rest, reason, hbytes, hlines, fun l hl => ?_, hreason⟩
    simpa using hbefore l hl

theorem FirstFault.findIdx_eq {bs front line rest : Bytes} {reason : LineError}
    (h : FirstFault bs front line rest reason) :
    (segments bs).findIdx (fun l => (fault? l).isSome) = (segments front).length := by
  rw [h.lines, List.findIdx_append, List.findIdx_cons, h.fault, if_neg]
  · exact Nat.zero_add _
  · rw [List.findIdx_lt_length]
    rintro ⟨l, hl, hfault⟩
    rw [h.sound l hl] at hfault
    cases hfault

theorem item?_of_fault {line : Bytes} {reason : LineError} (h : fault? line = some reason)
    (number : Nat) : item? number line = some (.error (.corruptLine number reason)) := by
  unfold fault? at h
  unfold item?
  split at h
  · rename_i hread
    cases h
    rw [hread]
    rfl
  · cases h

theorem isOk_of_item? {number : Nat} {line : Bytes} {i : Item} (hsound : fault? line = none)
    (h : item? number line = some i) : i.isOk = true := by
  unfold fault? at hsound
  unfold item? at h
  cases hread : readLine? line with
  | none => rw [hread] at h; cases h
  | some held =>
    rw [hread] at h hsound
    cases held with
    | error reason => cases hsound
    | ok r => cases h; rfl

/-- Lines that are sound give records and nothing else. -/
theorem isOk_of_mem_itemsFrom {lines : List Bytes} (hsound : ∀ line ∈ lines, fault? line = none)
    {taken : Nat} {i : Item} (h : i ∈ itemsFrom taken lines) : i.isOk = true := by
  rw [itemsFrom, List.mem_filterMap] at h
  obtain ⟨⟨line, number⟩, hmem, hitem⟩ := h
  exact isOk_of_item? (hsound line (List.fst_mem_of_mem_zipIdx hmem)) hitem

/-- The report of the first fault stands behind the items of the bytes in front of it. -/
theorem FirstFault.items_eq {bs front line rest : Bytes} {reason : LineError}
    (h : FirstFault bs front line rest reason) :
    ∃ others, items bs =
      items front ++ .error (.corruptLine ((segments front).length + 1) reason) :: others := by
  refine ⟨itemsFrom ((segments front).length + 1) (segments rest), ?_⟩
  rw [Journal.items_eq, h.lines, itemsFrom_append, Nat.zero_add, itemsFrom_cons,
    item?_of_fault h.fault]
  rfl

end Journal

namespace Replay

open Journal

/-- Where all items are records the policy does not matter. -/
theorem runItems_of_isOk {items : List Item} (h : ∀ i ∈ items, i.isOk = true)
    (policy policy' : Policy) (now : Millis) (s : State) :
    runItems policy now s items = runItems policy' now s items := by
  induction items generalizing s with
  | nil => rfl
  | cons i items ih =>
    have hrest := ih fun j hj => h j (List.mem_cons_of_mem i hj)
    cases i with
    | ok r => exact hrest (apply now s r)
    | error f => cases h (.error f) List.mem_cons_self

theorem corrupt_apply (now : Millis) (s : State) (r : Record) :
    (apply now s r).tally.corrupt = s.tally.corrupt := by
  cases r with
  | set key value deadline =>
    rw [apply]
    split <;> rfl
  | delete key => rfl

/-- A replay that leaves out lines which are no records counts them. -/
theorem corrupt_runItems {items : List Item} (h : ∀ i ∈ items, FromLine i) (now : Millis)
    (s : State) :
    (runItems .skip now s items).2.tally.corrupt =
      s.tally.corrupt + items.countP fun i => !i.isOk := by
  induction items generalizing s with
  | nil => rfl
  | cons i items ih =>
    have hrest := ih fun j hj => h j (List.mem_cons_of_mem i hj)
    rw [List.countP_cons]
    rcases h i List.mem_cons_self with ⟨r, rfl⟩ | ⟨number, reason, rfl⟩
    · exact (hrest (apply now s r)).trans (congrArg (· + _) (corrupt_apply now s r))
    · refine (hrest (skipLine s)).trans ?_
      simp only [skipLine, Except.isOk, Except.toBool, Bool.not_false, if_true]
      omega

theorem corrupt_of_run_skip {now : Millis} {shelf shelf' : Shelf} {bs : Bytes} {tally : Tally}
    (h : run .skip now shelf (items bs) = (.ok tally, shelf')) :
    tally.corrupt = (items bs).countP fun i => !i.isOk := by
  have hlines : ∀ i ∈ items bs, FromLine i := fun i hi => fromLine_items hi
  have hcount := corrupt_runItems hlines now (start shelf)
  rw [runItems_of_run h] at hcount
  exact hcount.trans (Nat.zero_add _)

/-- Behind records a report ends the replay that stops at it, and what the records have done
stays. -/
theorem run_strict_of_report {items : List Item} (h : ∀ i ∈ items, i.isOk = true) (now : Millis)
    (shelf : Shelf) (number : Nat) (reason : LineError) (others : List Item) :
    run .strict now shelf (items ++ .error (.corruptLine number reason) :: others) =
      (.error (.corruptLine number reason), (run .skip now shelf items).2) := by
  have hnone : (runItems .strict now (start shelf) items).1 = none := by
    rw [runItems_eq_none_iff]
    intro i hi
    cases i with
    | ok r => rfl
    | error f => cases h (.error f) hi
  rw [run, runItems_append hnone, run, ← runItems_of_isOk h .strict .skip]
  generalize runItems .strict now (start shelf) items = o at *
  obtain ⟨failure, s⟩ := o
  cases hnone
  rfl

/-- A replay that stops at lines which are no records, of any journal, at any time and onto any
shelf: it goes through exactly if the replay that leaves such lines out comes to none, and then both
have counted the same and leave the same shelf. Otherwise its failure has the number and the reason
of the first such line, and the shelf is what the other replay makes of the bytes in front of it. -/
theorem strict_until_fault (now : Millis) (shelf : Shelf) (bs : Bytes) :
    ∃ tally skipped, run .skip now shelf (items bs) = (.ok tally, skipped) ∧
      ((run .strict now shelf (items bs)).1.isOk = true ↔ tally.corrupt = 0) ∧
      (tally.corrupt = 0 → run .strict now shelf (items bs) = (.ok tally, skipped)) ∧
      (tally.corrupt ≠ 0 → ∃ front line rest reason, FirstFault bs front line rest reason ∧
        ∃ before stopped, run .skip now shelf (items front) = (.ok before, stopped) ∧
          run .strict now shelf (items bs) =
            (.error (.corruptLine ((segments front).length + 1) reason), stopped)) := by
  obtain ⟨tally, hskip⟩ := run_skip now shelf bs
  have hcorrupt := corrupt_of_run_skip hskip
  refine ⟨tally, _, hskip, ?_⟩
  rcases sound_or_firstFault bs with hsound | ⟨front, line, rest, reason, hfault⟩
  · have hok : ∀ i ∈ items bs, i.isOk = true := fun i hi => isOk_of_mem_itemsFrom hsound hi
    have hzero : tally.corrupt = 0 := by
      rw [hcorrupt, List.countP_eq_zero]
      intro i hi
      rw [hok i hi]
      decide
    have hstrict : run .strict now shelf (items bs) = run .skip now shelf (items bs) := by
      rw [run, runItems_of_isOk hok .strict .skip, run]
    rw [hstrict, hskip]
    exact ⟨iff_of_true rfl hzero, fun _ => rfl, fun hne => absurd hzero hne⟩
  · obtain ⟨others, hitems⟩ := hfault.items_eq
    have hok : ∀ i ∈ items front, i.isOk = true := fun i hi =>
      isOk_of_mem_itemsFrom hfault.sound hi
    obtain ⟨before, hfront⟩ := run_skip now shelf front
    have hstrict := run_strict_of_report hok now shelf ((segments front).length + 1) reason others
    rw [← hitems, hfront] at hstrict
    have hne : tally.corrupt ≠ 0 := by
      rw [hcorrupt, hitems, List.countP_append, List.countP_cons]
      exact Nat.succ_ne_zero _
    rw [hstrict]
    exact ⟨iff_of_false Bool.false_ne_true hne, fun hzero => absurd hzero hne,
      fun _ => ⟨front, line, rest, reason, hfault, before, _, hfront, rfl⟩⟩

/-- An empty line and a record in front of a line that is no record, and a record behind it. -/
theorem strict_until_fault_third_line :
    let front : Bytes := lineFeed :: (Record.set "a" "1" none).bytes
    let bs := front ++ [120, lineFeed] ++ (Record.set "b" "2" none).bytes
    ∃ tally skipped, run .skip 5 (.empty 2) (items bs) = (.ok tally, skipped) ∧ tally.corrupt = 1 ∧
      skipped.keysByRecency = ["b", "a"] ∧
      ∃ before stopped reason, run .skip 5 (.empty 2) (items front) = (.ok before, stopped) ∧
        run .strict 5 (.empty 2) (items bs) = (.error (.corruptLine 3 reason), stopped) ∧
        stopped.keysByRecency = ["a"] := by
  intro front bs
  obtain ⟨tally, skipped, hskip, -, -, hstops⟩ := strict_until_fault 5 (.empty 2) bs
  have hcorrupt : tally.corrupt = 1 := by
    rw [corrupt_of_run_skip hskip]
    decide +kernel
  have hrecords : records (items bs) = [.set "a" "1" none, .set "b" "2" none] := by decide +kernel
  have hrecords' : records (items front) = [.set "a" "1" none] := by decide +kernel
  obtain ⟨front', line, rest, reason, hfault, before, stopped, hfront, hstrict⟩ :=
    hstops (by rw [hcorrupt]; decide)
  have hlength : (segments front').length = 2 := by
    rw [← hfault.findIdx_eq]
    decide +kernel
  have hsame : front' = front := by
    have hlines := congrArg (fun lines => (lines.take 2).flatten) hfault.lines
    rw [List.take_left' hlength, flatten_segments] at hlines
    rw [← hlines]
    decide +kernel
  rw [hsame] at hfront
  rw [hlength] at hstrict
  refine ⟨tally, skipped, hskip, hcorrupt, ?_, before, stopped, reason, hfront, hstrict, ?_⟩
  · rw [run_ok hskip, hrecords, (Shelf.Follows.restoreAll 2 5 _).keysByRecency_eq]
    rfl
  · rw [run_ok hfront, hrecords', (Shelf.Follows.restoreAll 2 5 _).keysByRecency_eq]
    rfl

end Replay

end Larder
