import Larder.Journal.Tail

/-! The complete prefix of a journal is its longest prefix that is empty or ends in a line feed,
and the search from behind finds its length: a stretch without a line feed leaves the question
to the bytes before it. -/

namespace Larder.Journal

/-- Empty, or ended by a line feed. -/
def Complete (bs : Bytes) : Prop := ∀ b, bs.getLast? = some b → b = lineFeed

theorem complete_nil : Complete [] := by
  intro b h
  cases h

theorem complete_append_feed (bs : Bytes) : Complete (bs ++ [lineFeed]) := by
  intro b h
  rw [List.getLast?_concat] at h
  exact (Option.some.inj h).symm

theorem Complete.eq_nil_or {bs : Bytes} (h : Complete bs) :
    bs = [] ∨ ∃ init, bs = init ++ [lineFeed] := by
  rcases List.eq_nil_or_concat bs with rfl | ⟨init, b, rfl⟩
  · exact .inl rfl
  · right
    refine ⟨init, ?_⟩
    rw [List.concat_eq_append] at h ⊢
    rw [h b (by simp)]

theorem Complete.append {a b : Bytes} (ha : Complete a) (hb : Complete b) :
    Complete (a ++ b) := by
  rcases hb.eq_nil_or with rfl | ⟨init, rfl⟩
  · simpa using ha
  · rw [← List.append_assoc]
    exact complete_append_feed _

theorem completePrefix_append_feed (bs : Bytes) :
    completePrefix (bs ++ [lineFeed]) = bs ++ [lineFeed] := by
  simp [completePrefix]

theorem completePrefix_of_complete {bs : Bytes} (h : Complete bs) : completePrefix bs = bs := by
  rcases h.eq_nil_or with rfl | ⟨init, rfl⟩
  · rfl
  · exact completePrefix_append_feed init

theorem completePrefix_append_of_not_mem (a : Bytes) {t : Bytes} (h : lineFeed ∉ t) :
    completePrefix (a ++ t) = completePrefix a := by
  have ht : ∀ b ∈ t.reverse, decide (b ≠ lineFeed) = true := by
    intro b hb
    rw [decide_eq_true_eq]
    rintro rfl
    exact h (List.mem_reverse.mp hb)
  rw [completePrefix, completePrefix, List.reverse_append, List.dropWhile_append_of_pos ht]

/-- What follows the complete prefix is one line that has not been ended. -/
theorem exists_completePrefix_append (bs : Bytes) :
    ∃ t, lineFeed ∉ t ∧ bs = completePrefix bs ++ t := by
  refine ⟨(bs.reverse.takeWhile (· ≠ lineFeed)).reverse, ?_, ?_⟩
  · intro h
    have := List.all_eq_true.mp List.all_takeWhile _ (List.mem_reverse.mp h)
    simp at this
  · rw [completePrefix, ← List.reverse_append, List.takeWhile_append_dropWhile,
      List.reverse_reverse]

theorem complete_completePrefix (bs : Bytes) : Complete (completePrefix bs) := by
  intro b h
  rw [completePrefix, List.getLast?_reverse] at h
  have := List.head?_dropWhile_not (fun b => decide (b ≠ lineFeed)) bs.reverse
  rw [h] at this
  simpa using this

theorem completePrefix_isPrefix (bs : Bytes) : completePrefix bs <+: bs := by
  obtain ⟨t, -, h⟩ := exists_completePrefix_append bs
  exact ⟨t, h.symm⟩

/-- No longer prefix is complete. -/
theorem isPrefix_completePrefix {a bs : Bytes} (ha : Complete a) (h : a <+: bs) :
    a <+: completePrefix bs := by
  rcases ha.eq_nil_or with rfl | ⟨init, rfl⟩
  · exact List.nil_prefix
  · obtain ⟨t, ht, hbs⟩ := exists_completePrefix_append bs
    obtain ⟨u, hu⟩ := h
    rw [hbs] at hu
    -- the line feed at the end of `a` cannot lie in the unended line
    rcases List.append_eq_append_iff.mp hu with ⟨v, hv, -⟩ | ⟨v, hv, hvu⟩
    · exact ⟨v, hv.symm⟩
    · rcases List.eq_nil_or_concat v with rfl | ⟨w, b, rfl⟩
      · exact ⟨[], by simpa using hv⟩
      · rw [List.concat_eq_append, ← List.append_assoc] at hv
        have hb : lineFeed = b := (List.append_inj' hv rfl).2 |> List.singleton_inj.mp
        exact absurd (by rw [hvu, hb]; simp) ht

theorem afterLastFeed?_append (a b : Bytes) :
    afterLastFeed? (a ++ b) =
      ((afterLastFeed? b).map (a.length + ·)).or (afterLastFeed? a) := by
  unfold afterLastFeed? List.idxOf?
  rw [List.reverse_append, List.findIdx?_append]
  cases h : b.reverse.findIdx? (· == lineFeed) with
  | none =>
    cases a.reverse.findIdx? (· == lineFeed) with
    | none => rfl
    | some k => simp; omega
  | some k =>
    have hk := (List.findIdx?_eq_some_iff_findIdx_eq.mp h).1
    simp at hk ⊢
    omega

theorem afterLastFeed?_of_not_mem {bs : Bytes} (h : lineFeed ∉ bs) : afterLastFeed? bs = none := by
  have : bs.reverse.idxOf? lineFeed = none := by simpa using h
  rw [afterLastFeed?, this, Option.map_none]

theorem getD_afterLastFeed? (bs : Bytes) :
    (afterLastFeed? bs).getD 0 = (completePrefix bs).length := by
  obtain ⟨t, ht, hbs⟩ := exists_completePrefix_append bs
  conv => lhs; rw [hbs]
  rw [afterLastFeed?_append, afterLastFeed?_of_not_mem ht, Option.map_none, Option.none_or]
  rcases (complete_completePrefix bs).eq_nil_or with h | ⟨init, h⟩
  · rw [h]
    rfl
  · rw [h, afterLastFeed?_append]
    simp [afterLastFeed?, List.idxOf?_cons]

/-- What a stretch says about a prefix that ends with it. -/
theorem afterLastFeed?_take (bs : Bytes) {k n : Nat} (hk : k ≤ n) (hn : n ≤ bs.length) :
    afterLastFeed? (bs.take n) =
      ((afterLastFeed? (bs.toArray.extract k n).toList).map (k + ·)).or
        (afterLastFeed? (bs.take k)) := by
  have hsplit : bs.take n = bs.take k ++ (bs.take n).drop k := by
    conv => lhs; rw [← List.take_append_drop k (bs.take n)]
    rw [List.take_take, Nat.min_eq_left hk]
  have hstretch : (bs.toArray.extract k n).toList = (bs.take n).drop k := by
    simp [List.drop_take]
  conv => lhs; rw [hsplit]
  rw [afterLastFeed?_append, List.length_take, Nat.min_eq_left (Nat.le_trans hk hn), hstretch]

theorem stretches_zero : stretches 0 = [] := by rw [stretches, if_pos rfl]

theorem stretches_of_ne {n : Nat} (h : n ≠ 0) :
    stretches n = (n - stretch, n) :: stretches (n - stretch) := by
  rw [stretches, if_neg h]

private theorem findSome?_cons_or {α β : Type} (f : α → Option β) (a : α) (l : List α) :
    (a :: l).findSome? f = (f a).or (l.findSome? f) := by
  rw [List.findSome?_cons]
  cases f a <;> rfl

/-- The stretches that cover the first `n` bytes find their last line feed. -/
theorem findSome?_stretches (bs : Bytes) (n : Nat) (hn : n ≤ bs.length) :
    ((stretches n).findSome? fun x =>
      (afterLastFeed? (bs.toArray.extract x.1 x.2).toList).map (x.1 + ·)) =
      afterLastFeed? (bs.take n) := by
  induction n using stretches.induct with
  | case1 =>
    rw [stretches_zero]
    rfl
  | case2 n h ih =>
    have hle : n - stretch ≤ n := Nat.sub_le _ _
    rw [stretches_of_ne h, findSome?_cons_or, ih (Nat.le_trans hle hn),
      afterLastFeed?_take bs hle hn]

theorem completeLength_eq (bs : Bytes) : completeLength bs = (completePrefix bs).length := by
  rw [completeLength]
  simp only [List.size_toArray]
  rw [findSome?_stretches bs bs.length (Nat.le_refl _), List.take_length, getD_afterLastFeed?]

end Larder.Journal
