import Mathlib.Algebra.Order.Floor.Div
import Larder.Proofs.CompletePrefix

/-! The search for the last line feed with the stretches that it reads. They lie one before the
other, from the end of the file on, and none reaches out of it; the search stops at the first of
them that has a line feed, so what it finds does not depend on where the borders of the stretches
are, but how many it reads does. -/

namespace Larder.Journal

/-- What is read of a file from one place to another. -/
def read (bs : Bytes) (x : Nat × Nat) : Bytes := (bs.toArray.extract x.1 x.2).toList

/-- The stretches that are read, of those that may be, and what is found: the place after the last
line feed of the first that has one. -/
def readUntilFeed (bs : Bytes) : List (Nat × Nat) → List (Nat × Nat) × Nat
  | [] => ([], 0)
  | x :: rest =>
    match afterLastFeed? (read bs x) with
    | some k => ([x], x.1 + k)
    | none =>
      let (reads, found) := readUntilFeed bs rest
      (x :: reads, found)

/-- The search in the first `stop` bytes, with the stretches that it reads. -/
def lookBack (bs : Bytes) (stop : Nat) : List (Nat × Nat) × Nat := readUntilFeed bs (stretches stop)

/-- Stretches that lie one before the other, the first of them ending at `stop`. None is empty and
none is longer than a stretch can be. -/
def Adjacent : Nat → List (Nat × Nat) → Prop
  | _, [] => True
  | stop, x :: reads => x.2 = stop ∧ x.1 < x.2 ∧ x.2 - x.1 ≤ stretch ∧ Adjacent x.1 reads

theorem Adjacent.bounds {stop : Nat} {reads : List (Nat × Nat)} (h : Adjacent stop reads) :
    ∀ x ∈ reads, x.1 < x.2 ∧ x.2 ≤ stop ∧ x.2 - x.1 ≤ stretch := by
  induction reads generalizing stop with
  | nil => exact fun x hx => (List.not_mem_nil hx).elim
  | cons first reads ih =>
    obtain ⟨hstop, hlt, hlength, hrest⟩ := h
    intro x hx
    rcases List.mem_cons.mp hx with rfl | hx
    · exact ⟨hlt, Nat.le_of_eq hstop, hlength⟩
    · obtain ⟨hlt', hle, hlength'⟩ := ih hrest x hx
      exact ⟨hlt', by omega, hlength'⟩

/-- What is read inside the file is as long as it was meant to be. -/
theorem length_read {bs : Bytes} {x : Nat × Nat} (h : x.2 ≤ bs.length) :
    (read bs x).length = x.2 - x.1 := by
  rw [read, Array.length_toList, Array.size_extract, List.size_toArray, Nat.min_eq_left h]

/-- A place behind a line feed is behind the beginning and not behind the end. -/
theorem bounds_of_afterLastFeed? {bs : Bytes} {k : Nat} (h : afterLastFeed? bs = some k) :
    0 < k ∧ k ≤ bs.length := by
  obtain ⟨i, hi, rfl⟩ := Option.map_eq_some_iff.mp h
  have hlt := (List.findIdx?_eq_some_iff_findIdx_eq.mp hi).1
  rw [List.length_reverse] at hlt
  omega

/-- The place just after a line feed that no other follows. -/
theorem afterLastFeed?_of_last {bs : Bytes} {i : Nat} (h : bs[i]? = some lineFeed)
    (hlast : ∀ j, i < j → bs[j]? ≠ some lineFeed) : afterLastFeed? bs = some (i + 1) := by
  obtain ⟨hlt, hget⟩ := List.getElem?_eq_some_iff.mp h
  have hafter : lineFeed ∉ bs.drop (i + 1) := by
    intro hmem
    obtain ⟨j, hj⟩ := List.mem_iff_getElem?.mp hmem
    rw [List.getElem?_drop] at hj
    exact hlast (i + 1 + j) (by omega) hj
  have hsplit : bs = bs.take i ++ ([lineFeed] ++ bs.drop (i + 1)) := by
    rw [← hget, List.singleton_append, ← List.drop_eq_getElem_cons hlt, List.take_append_drop]
  have hfeed : afterLastFeed? [lineFeed] = some 1 := by decide
  rw [hsplit, afterLastFeed?_append, afterLastFeed?_append, afterLastFeed?_of_not_mem hafter, hfeed,
    Option.map_none, Option.none_or, Option.map_some, Option.some_or, List.length_take,
    Nat.min_eq_left (Nat.le_of_lt hlt)]

theorem readUntilFeed_of_some {bs : Bytes} {x : Nat × Nat} {k : Nat}
    (h : afterLastFeed? (read bs x) = some k) (rest : List (Nat × Nat)) :
    readUntilFeed bs (x :: rest) = ([x], x.1 + k) := by
  rw [readUntilFeed, h]

theorem readUntilFeed_of_none {bs : Bytes} {x : Nat × Nat}
    (h : afterLastFeed? (read bs x) = none) (rest : List (Nat × Nat)) :
    readUntilFeed bs (x :: rest) = (x :: (readUntilFeed bs rest).1, (readUntilFeed bs rest).2) := by
  rw [readUntilFeed, h]

/-- What is read stands at the front of what may be read. -/
theorem readUntilFeed_isPrefix (bs : Bytes) (xs : List (Nat × Nat)) :
    (readUntilFeed bs xs).1 <+: xs := by
  induction xs with
  | nil => exact List.prefix_refl []
  | cons x rest ih =>
    cases h : afterLastFeed? (read bs x) with
    | some k =>
      rw [readUntilFeed_of_some h]
      exact List.prefix_append [x] rest
    | none =>
      rw [readUntilFeed_of_none h]
      exact List.cons_prefix_cons.mpr ⟨rfl, ih⟩

theorem stretch_pos : 0 < stretch := Nat.succ_pos _

/-- The search comes from one stretch to the next and ends, because each of them takes something
off what is left. -/
theorem stretchwise {P : Nat → Prop} (zero : P 0)
    (next : ∀ start stop, stop ≠ 0 → start < stop → stop ≤ start + stretch →
      stop - stretch = start → P start → P stop) (stop : Nat) : P stop := by
  induction stop using stretches.induct with
  | case1 => exact zero
  | case2 stop hne ih =>
    have hlt : stop - stretch < stop := Nat.sub_lt (Nat.pos_of_ne_zero hne) stretch_pos
    exact next _ stop hne hlt (by omega) rfl ih

section LookBack

variable {bs : Bytes} {start stop : Nat}

theorem lookBack_zero (bs : Bytes) : lookBack bs 0 = ([], 0) := by
  rw [lookBack, stretches_zero, readUntilFeed]

/-- The search ends with a stretch that has a line feed. -/
theorem lookBack_of_some (hne : stop ≠ 0) (hstart : stop - stretch = start) {k : Nat}
    (h : afterLastFeed? (read bs (start, stop)) = some k) :
    lookBack bs stop = ([(start, stop)], start + k) := by
  rw [lookBack, stretches_of_ne hne, hstart, readUntilFeed_of_some h]

/-- A stretch without a line feed leaves the search to the bytes before it. -/
theorem lookBack_of_none (hne : stop ≠ 0) (hstart : stop - stretch = start)
    (h : afterLastFeed? (read bs (start, stop)) = none) :
    lookBack bs stop = ((start, stop) :: (lookBack bs start).1, (lookBack bs start).2) := by
  rw [lookBack, stretches_of_ne hne, hstart, readUntilFeed_of_none h, lookBack]

theorem afterLastFeed?_take_read (hlt : start < stop) (hle : stop ≤ bs.length) :
    afterLastFeed? (bs.take stop) =
      ((afterLastFeed? (read bs (start, stop))).map (start + ·)).or
        (afterLastFeed? (bs.take start)) := by
  rw [read]
  exact afterLastFeed?_take bs (Nat.le_of_lt hlt) hle

theorem adjacent_lookBack (bs : Bytes) (stop : Nat) : Adjacent stop (lookBack bs stop).1 := by
  induction stop using stretchwise with
  | zero => rw [lookBack_zero]; trivial
  | next start stop hne hlt hreach hstart ih =>
    have hlength : stop - start ≤ stretch := Nat.sub_le_iff_le_add'.mpr hreach
    cases h : afterLastFeed? (read bs (start, stop)) with
    | some k =>
      rw [lookBack_of_some hne hstart h]
      exact ⟨rfl, hlt, hlength, trivial⟩
    | none =>
      rw [lookBack_of_none hne hstart h]
      exact ⟨rfl, hlt, hlength, ih⟩

/-- The search finds the last line feed there is. -/
theorem found_lookBack (hle : stop ≤ bs.length) :
    (lookBack bs stop).2 = (afterLastFeed? (bs.take stop)).getD 0 := by
  induction stop using stretchwise with
  | zero => rw [lookBack_zero]; rfl
  | next start stop hne hlt hreach hstart ih =>
    rw [afterLastFeed?_take_read hlt hle]
    cases h : afterLastFeed? (read bs (start, stop)) with
    | some k =>
      rw [lookBack_of_some hne hstart h, Option.map_some, Option.some_or, Option.getD_some]
    | none =>
      rw [lookBack_of_none hne hstart h, ih (Nat.le_trans (Nat.le_of_lt hlt) hle),
        Option.map_none, Option.none_or]

/-- Without a line feed all stretches are read. -/
theorem length_lookBack_of_none (hle : stop ≤ bs.length)
    (hnone : afterLastFeed? (bs.take stop) = none) :
    (lookBack bs stop).1.length = stop ⌈/⌉ stretch := by
  induction stop using stretchwise with
  | zero => rw [lookBack_zero]; rfl
  | next start stop hne hlt hreach hstart ih =>
    rw [afterLastFeed?_take_read hlt hle, Option.or_eq_none_iff, Option.map_eq_none_iff] at hnone
    rw [lookBack_of_none hne hstart hnone.1, List.length_cons,
      ih (Nat.le_trans (Nat.le_of_lt hlt) hle) hnone.2, Nat.ceilDiv_eq_add_pred_div,
      Nat.ceilDiv_eq_add_pred_div]
    simp only [stretch] at *
    omega

/-- With one, those up to it, counted from the end. -/
theorem length_lookBack_of_some (hle : stop ≤ bs.length) {n : Nat}
    (hsome : afterLastFeed? (bs.take stop) = some n) :
    (lookBack bs stop).1.length = (stop - n) / stretch + 1 := by
  induction stop using stretchwise with
  | zero => cases hsome
  | next start stop hne hlt hreach hstart ih =>
    have hle' : start ≤ bs.length := Nat.le_trans (Nat.le_of_lt hlt) hle
    rw [afterLastFeed?_take_read hlt hle] at hsome
    cases h : afterLastFeed? (read bs (start, stop)) with
    | some k =>
      obtain ⟨hk₀, hk⟩ := bounds_of_afterLastFeed? h
      rw [h, Option.map_some, Option.some_or] at hsome
      rw [length_read hle] at hk
      rw [lookBack_of_some hne hstart h, List.length_singleton, ← Option.some.inj hsome,
        Nat.div_eq_of_lt (by omega)]
    | none =>
      rw [h, Option.map_none, Option.none_or] at hsome
      obtain ⟨hn₀, hn⟩ := bounds_of_afterLastFeed? hsome
      rw [List.length_take, Nat.min_eq_left hle'] at hn
      -- it stands before this stretch, so what is left has to come one stretch less far
      have hsplit : stop - n = start - n + stretch := by omega
      rw [lookBack_of_none hne hstart h, List.length_cons, ih hle' hsome, hsplit,
        Nat.add_div_right _ stretch_pos]

theorem completeLength_eq_lookBack (bs : Bytes) : completeLength bs = (lookBack bs bs.length).2 := by
  rw [found_lookBack (Nat.le_refl _), List.take_length, getD_afterLastFeed?, completeLength_eq]

end LookBack

/-- The length of the complete prefix is what the search from behind finds: 0 if there is no line
feed, and otherwise the place after the last one, wherever it stands. The stretches that are read
are the first of those that cover the file. Each lies inside it, is as long as it was meant to be
and ends where the one read before it begins; a line feed in it is found inside it; and there are as
many of them as it takes to come to the last line feed, or to the beginning if there is none. -/
theorem completeLength_of_reads (bs : Bytes) :
    let reads := (lookBack bs bs.length).1
    completeLength bs = (lookBack bs bs.length).2 ∧
      (lineFeed ∉ bs → completeLength bs = 0 ∧ reads.length = bs.length ⌈/⌉ stretch) ∧
      (∀ i, bs[i]? = some lineFeed → (∀ j, i < j → bs[j]? ≠ some lineFeed) →
        completeLength bs = i + 1 ∧ reads.length = (bs.length - (i + 1)) / stretch + 1) ∧
      reads <+: stretches bs.length ∧ Adjacent bs.length reads ∧
      ∀ x ∈ reads, x.1 < x.2 ∧ x.2 ≤ bs.length ∧ (read bs x).length = x.2 - x.1 ∧
        ∀ k, afterLastFeed? (read bs x) = some k → 0 < k ∧ x.1 + k ≤ x.2 := by
  intro reads
  have hadjacent := adjacent_lookBack bs bs.length
  have hfound := completeLength_eq_lookBack bs
  rw [found_lookBack (Nat.le_refl _), List.take_length] at hfound
  refine ⟨completeLength_eq_lookBack bs, fun hno => ?_, fun i hi hlast => ?_,
    readUntilFeed_isPrefix bs _, hadjacent, fun x hx => ?_⟩
  · have hnone := afterLastFeed?_of_not_mem hno
    rw [hnone] at hfound
    exact ⟨hfound, length_lookBack_of_none (Nat.le_refl _) (by rwa [List.take_length])⟩
  · have hsome := afterLastFeed?_of_last hi hlast
    rw [hsome] at hfound
    exact ⟨hfound, length_lookBack_of_some (Nat.le_refl _) (by rwa [List.take_length])⟩
  · obtain ⟨hlt, hle, -⟩ := hadjacent.bounds x hx
    have hlength : (read bs x).length = x.2 - x.1 := length_read hle
    refine ⟨hlt, hle, hlength, fun k hk => ?_⟩
    obtain ⟨hpos, hk⟩ := bounds_of_afterLastFeed? hk
    omega

/-- The only line feed is the first of 4097 bytes, so the first stretch just misses it. -/
theorem completeLength_of_reads_missed :
    let bs := lineFeed :: List.replicate stretch 32
    bs[0]? = some lineFeed ∧ (∀ j, 0 < j → bs[j]? ≠ some lineFeed) ∧ completeLength bs = 1 ∧
      (lookBack bs bs.length).1.length = 2 ∧ ∀ x ∈ (lookBack bs bs.length).1, x.2 ≤ stretch + 1 := by
  intro bs
  have hlast : ∀ j, 0 < j → bs[j]? ≠ some lineFeed := by
    intro j hj hfeed
    obtain ⟨j, rfl⟩ : ∃ i, j = i + 1 := ⟨j - 1, by omega⟩
    rw [List.getElem?_cons_succ] at hfeed
    have hmem := List.eq_of_mem_replicate (List.mem_of_getElem? hfeed)
    exact absurd hmem (by decide)
  have hlength : bs.length = stretch + 1 := by rw [List.length_cons, List.length_replicate]
  obtain ⟨-, -, hfeed, -, -, hreads⟩ := completeLength_of_reads bs
  have hfirst : bs[0]? = some lineFeed := List.getElem?_cons_zero
  obtain ⟨hfound, hcount⟩ := hfeed 0 hfirst hlast
  have htwo : (bs.length - (0 + 1)) / stretch + 1 = 2 := by
    rw [hlength, Nat.zero_add, Nat.add_sub_cancel, Nat.div_self stretch_pos]
  exact ⟨hfirst, hlast, hfound, hcount.trans htwo, fun x hx => hlength ▸ (hreads x hx).2.1⟩

end Larder.Journal
