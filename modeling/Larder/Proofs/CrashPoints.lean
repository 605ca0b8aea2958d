import Larder.Proofs.Reading
import Larder.Proofs.Replaying

/-! A journal that breaks off at any byte. The records that had been written whole are read, and
what stands behind them is either nothing or one line that is reported; reading, opening and
loading agree on where the whole records end. -/

namespace Larder.Journal

/-- How many records end within the first `n` bytes. -/
def wholeWithin (rs : List Record) (n : Nat) : Nat :=
  (List.range rs.length).countP fun i => (encoding (rs.take (i + 1))).length ≤ n

/-- The first `n` bytes are whole records. -/
def IsBoundary (rs : List Record) (n : Nat) : Prop := ∃ k, n = (encoding (rs.take k)).length

theorem wholeWithin_cons_of_le {r : Record} (rs : List Record) {n : Nat} (h : r.bytes.length ≤ n) :
    wholeWithin (r :: rs) n = wholeWithin rs (n - r.bytes.length) + 1 := by
  have hstep : ∀ i, decide ((encoding ((r :: rs).take (i + 1 + 1))).length ≤ n) =
      decide ((encoding (rs.take (i + 1))).length ≤ n - r.bytes.length) := by
    intro i
    rw [List.take_succ_cons, encoding_cons, List.length_append, decide_eq_decide]
    omega
  rw [wholeWithin, List.length_cons, List.range_succ_eq_map, List.countP_cons, List.countP_map]
  simp only [Function.comp_def, Nat.succ_eq_add_one, hstep]
  simp [wholeWithin, h]

theorem wholeWithin_cons_of_lt {r : Record} (rs : List Record) {n : Nat} (h : n < r.bytes.length) :
    wholeWithin (r :: rs) n = 0 := by
  rw [wholeWithin, List.countP_eq_zero]
  intro i _
  rw [List.take_succ_cons, encoding_cons, List.length_append, decide_eq_true_eq]
  omega

theorem isBoundary_cons_iff {r : Record} {rs : List Record} {n : Nat} :
    IsBoundary (r :: rs) n ↔
      n = 0 ∨ r.bytes.length ≤ n ∧ IsBoundary rs (n - r.bytes.length) := by
  constructor
  · rintro ⟨k, hk⟩
    cases k with
    | zero => exact .inl hk
    | succ k =>
      rw [List.take_succ_cons, encoding_cons, List.length_append] at hk
      exact .inr ⟨by omega, k, by omega⟩
  · rintro (rfl | ⟨hle, k, hk⟩)
    · exact ⟨0, rfl⟩
    · refine ⟨k + 1, ?_⟩
      rw [List.take_succ_cons, encoding_cons, List.length_append]
      omega

/-- A cut either falls between two records or inside the first one that is not whole. -/
theorem take_encoding (rs : List Record) {n : Nat} (hn : n ≤ (encoding rs).length) :
    (IsBoundary rs n ∧ (encoding rs).take n = encoding (rs.take (wholeWithin rs n))) ∨
      ¬IsBoundary rs n ∧ ∃ (r : Record) (k : Nat), 0 < k ∧ k < r.bytes.length ∧
        (encoding rs).take n = encoding (rs.take (wholeWithin rs n)) ++ r.bytes.take k := by
  induction rs generalizing n with
  | nil => exact .inl ⟨⟨0, Nat.le_zero.mp hn⟩, List.take_nil⟩
  | cons r rs ih =>
    rw [encoding_cons, List.length_append] at hn
    by_cases hle : r.bytes.length ≤ n
    · have htake : (encoding (r :: rs)).take n =
          r.bytes ++ (encoding rs).take (n - r.bytes.length) := by
        rw [encoding_cons, List.take_append, List.take_of_length_le hle]
      rw [htake, wholeWithin_cons_of_le rs hle, List.take_succ_cons, encoding_cons,
        isBoundary_cons_iff]
      rcases ih (n := n - r.bytes.length) (by omega) with ⟨hb, h⟩ | ⟨hb, q, k, hpos, hk, h⟩
      · exact .inl ⟨.inr ⟨hle, hb⟩, by rw [h]⟩
      · refine .inr ⟨?_, q, k, hpos, hk, by rw [h, List.append_assoc]⟩
        rintro (rfl | ⟨-, hbound⟩)
        · -- a record is never empty, so nothing of it fits into no bytes
          rw [Nat.zero_sub] at hb
          exact hb ⟨0, rfl⟩
        · exact hb hbound
    · have hlt : n < r.bytes.length := Nat.lt_of_not_le hle
      have htake : (encoding (r :: rs)).take n = r.bytes.take n := by
        rw [encoding_cons, List.take_append_of_le_length (Nat.le_of_lt hlt)]
      rw [htake, wholeWithin_cons_of_lt rs hlt, isBoundary_cons_iff]
      rcases Nat.eq_zero_or_pos n with rfl | hpos
      · exact .inl ⟨.inl rfl, rfl⟩
      · refine .inr ⟨?_, r, n, hpos, hlt, rfl⟩
        rintro (h | ⟨h, -⟩) <;> omega

theorem length_take_wholeWithin (rs : List Record) (n : Nat) :
    (rs.take (wholeWithin rs n)).length = wholeWithin rs n := by
  have hle : wholeWithin rs n ≤ (List.range rs.length).length := List.countP_le_length
  rw [List.length_range] at hle
  rw [List.length_take, Nat.min_eq_left hle]

/-- Whole records and then the beginning of one more: they are read, and it is reported. -/
theorem items_broken {kept : List Record} (hkeys : ∀ r ∈ kept, r.key ≠ "") (r : Record) {k : Nat}
    (hpos : 0 < k) (hk : k < r.bytes.length) :
    completePrefix (encoding kept ++ r.bytes.take k) = encoding kept ∧
      ∃ e, LineError.Unended e ∧ items (encoding kept ++ r.bytes.take k) =
        kept.map .ok ++ [.error (.corruptLine (kept.length + 1) e)] := by
  obtain ⟨hfeed, e, he, hread⟩ := readLine?_take_bytes r hpos hk
  have hne : r.bytes.take k ≠ [] := by
    rw [← List.length_pos_iff, List.length_take]
    omega
  refine ⟨?_, e, he, ?_⟩
  · rw [completePrefix_append_of_not_mem _ hfeed, completePrefix_of_complete (complete_encoding kept)]
  · rw [items_append (complete_encoding kept), items_encoding hkeys, segments_unended hfeed,
      if_neg hne, segments_encoding, List.length_map, itemsFrom_cons, item?, hread]
    rfl

/-- What stands behind the whole records of a journal that broke off after `n` bytes. -/
def Report (rs : List Record) (n : Nat) (report : List Item) : Prop :=
  (IsBoundary rs n → report = []) ∧
    (¬IsBoundary rs n →
      ∃ e, LineError.Unended e ∧ report = [.error (.corruptLine (wholeWithin rs n + 1) e)])

theorem items_take {rs : List Record} (hkeys : ∀ r ∈ rs, r.key ≠ "") {n : Nat}
    (hn : n ≤ (encoding rs).length) :
    completePrefix ((encoding rs).take n) = encoding (rs.take (wholeWithin rs n)) ∧
      ∃ report, Report rs n report ∧
        items ((encoding rs).take n) = (rs.take (wholeWithin rs n)).map .ok ++ report := by
  have hkept : ∀ r ∈ rs.take (wholeWithin rs n), r.key ≠ "" :=
    fun r hr => hkeys r (List.mem_of_mem_take hr)
  rcases take_encoding rs hn with ⟨hb, htake⟩ | ⟨hb, r, k, hpos, hk, htake⟩
  · rw [htake]
    refine ⟨completePrefix_of_complete (complete_encoding _), [], ⟨fun _ => rfl, absurd hb⟩, ?_⟩
    rw [items_encoding hkept, List.append_nil]
  · obtain ⟨hfront, e, he, hitems⟩ := items_broken hkept r hpos hk
    rw [length_take_wholeWithin] at hitems
    rw [htake]
    exact ⟨hfront, _, ⟨fun h => absurd h hb, fun _ => ⟨e, he, rfl⟩⟩, hitems⟩

theorem Report.records {rs : List Record} {n : Nat} {report : List Item}
    (h : Report rs n report) : Replay.records report = [] := by
  by_cases hb : IsBoundary rs n
  · rw [h.1 hb]
    rfl
  · obtain ⟨e, -, rfl⟩ := h.2 hb
    rfl

/-- Wherever a journal breaks off, exactly the records that were whole come back: a reader gives
them and then one report unless it broke off between two records, opening it for appending cuts
it behind them, and loading it restores them. A disk on which nothing fails lets it be opened
and loaded. -/
theorem wholeWithin_survive {rs : List Record} (hkeys : ∀ r ∈ rs, r.key ≠ "") {n : Nat}
    (hn : n ≤ (encoding rs).length) :
    let file := (encoding rs).take n
    let kept := rs.take (wholeWithin rs n)
    (∃ report, Report rs n report ∧ (Reader.ofBytes file).Yields (kept.map .ok ++ report)) ∧
      ∀ outlook : Outlook,
        (∀ w m', Writer.open? ⟨file, outlook⟩ = (.ok w, m') →
          w = ⟨(encoding kept).length, false⟩ ∧ m'.bytes = encoding kept) ∧
        (∀ settings now recovered m', settings.policy = .skip →
          Recovery.load settings now ⟨file, outlook⟩ = (.ok recovered, m') →
          recovered.store.shelf = (Recovery.replay settings now (kept.map .ok)).2 ∧
            m'.bytes = encoding kept) ∧
        (outlook.Calm →
          (∃ w m', Writer.open? ⟨file, outlook⟩ = (.ok w, m')) ∧
          ∀ settings now, settings.policy = .skip →
            ∃ recovered m', Recovery.load settings now ⟨file, outlook⟩ = (.ok recovered, m')) := by
  intro file kept
  obtain ⟨hfront, report, hreport, hitems⟩ := items_take hkeys hn
  have hopen : ∀ outlook w m', Writer.open? ⟨file, outlook⟩ = (.ok w, m') →
      w = ⟨(encoding kept).length, false⟩ ∧ m'.bytes = encoding kept := by
    intro outlook w m' h
    obtain ⟨htorn, hstands⟩ := Writer.stands_of_open? h
    rw [hfront] at hstands
    refine ⟨?_, hstands.bytes.trans (List.append_nil _)⟩
    rw [← hstands.committed, ← htorn]
  have hrecords : Replay.records (items file) = kept := by
    rw [hitems, Replay.records_append, hreport.records, Replay.records_map_ok, List.append_nil]
  refine ⟨⟨report, hreport, ?_⟩, fun outlook => ⟨hopen outlook, ?_, fun hcalm => ⟨?_, ?_⟩⟩⟩
  · rw [← hitems]
    exact Reader.yields_items file
  · intro settings now recovered m' hskip hload
    obtain ⟨w, hw, hstore⟩ := Recovery.load_ok hload
    obtain ⟨tally, hrun⟩ :=
      Replay.run_map_ok settings.policy now (.empty settings.maxEntries) kept
    refine ⟨?_, (hopen _ w m' hw).2⟩
    rw [hstore, Recovery.replay, hrun, hrecords]
    rfl
  · obtain ⟨m', h, -⟩ := Writer.open?_calm (m := ⟨file, outlook⟩) hcalm
    exact ⟨_, m', h⟩
  · intro settings now hskip
    obtain ⟨m', h, -⟩ := Writer.open?_calm (m := ⟨file, outlook⟩) hcalm
    obtain ⟨recovered, hload⟩ := Recovery.load_skip hskip now h
    exact ⟨recovered, m', hload⟩

/-- A journal that broke off just before a deadline, where its last line reads like a record. -/
theorem wholeWithin_survive_before_deadline :
    let rs : List Record := [.delete "a", .set "k" "v" (some 12)]
    let file := (encoding rs).take 20
    (∀ r ∈ rs, r.key ≠ "") ∧ 20 ≤ (encoding rs).length ∧ Settings.default.policy = .skip ∧
      Outlook.clear.Calm ∧
      (∃ e, LineError.Unended e ∧
        (Reader.ofBytes file).Yields [.ok (.delete "a"), .error (.corruptLine 2 e)]) ∧
      (∃ m', Writer.open? ⟨file, .clear⟩ = (.ok ⟨8, false⟩, m') ∧
        m'.bytes = encoding [.delete "a"]) ∧
      ∃ recovered m', Recovery.load .default 0 ⟨file, .clear⟩ = (.ok recovered, m') ∧
        recovered.store.shelf = (Recovery.replay .default 0 [.ok (.delete "a")]).2 ∧
        m'.bytes = encoding [.delete "a"] := by
  intro rs file
  have hkeys : ∀ r ∈ rs, r.key ≠ "" := by decide
  have hn : 20 ≤ (encoding rs).length := by decide
  have hwhole : wholeWithin rs 20 = 1 := by decide
  have hinside : ¬IsBoundary rs 20 := by
    rintro ⟨k, hk⟩
    match k with
    | 0 => cases hk
    | 1 => revert hk; decide
    | k + 2 => revert hk; simp only [rs, List.take_succ_cons, List.take_nil]; decide
  obtain ⟨⟨report, hreport, hyields⟩, hlater⟩ := wholeWithin_survive hkeys hn
  obtain ⟨e, he, rfl⟩ := hreport.2 hinside
  obtain ⟨hopened, hloaded, hcalm⟩ := hlater .clear
  obtain ⟨⟨w, m', hopen⟩, hload⟩ := hcalm Outlook.calm_clear
  obtain ⟨recovered, m'', hload⟩ := hload .default 0 rfl
  rw [hwhole] at hyields hopened hloaded
  refine ⟨hkeys, hn, rfl, Outlook.calm_clear, ⟨e, he, hyields⟩, ⟨m', ?_⟩, recovered, m'', hload, ?_⟩
  · obtain ⟨rfl, hbytes⟩ := hopened w m' hopen
    exact ⟨hopen, hbytes⟩
  · exact hloaded .default 0 recovered m'' rfl hload

end Larder.Journal
