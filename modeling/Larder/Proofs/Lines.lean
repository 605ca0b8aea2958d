import Larder.Journal.Reader
import Larder.Proofs.CompletePrefix
import Larder.Proofs.RecordLine

/-! The lines of a journal. A line feed ends a line for good, so what is added after it changes
no line before it; items are then read from the lines one by one, and only their numbers depend
on what came before. -/

namespace Larder.Journal

theorem segmentsFrom_done (line : Bytes) (done : List Bytes) (bs : Bytes) :
    segmentsFrom line done bs = done.reverse ++ segmentsFrom line [] bs := by
  induction bs generalizing line done with
  | nil =>
    unfold segmentsFrom
    split <;> simp
  | cons b rest ih =>
    unfold segmentsFrom
    split
    · rw [ih, ih [] [_]]
      simp
    · exact ih _ _

theorem segmentsFrom_append_feed (line : Bytes) (done : List Bytes) (a b : Bytes) :
    segmentsFrom line done (a ++ [lineFeed] ++ b) =
      segmentsFrom line done (a ++ [lineFeed]) ++ segments b := by
  induction a generalizing line done with
  | nil =>
    simp only [List.nil_append, List.singleton_append, segmentsFrom, if_true]
    rw [segmentsFrom_done]
    rfl
  | cons c a ih =>
    simp only [List.cons_append, segmentsFrom]
    split
    · exact ih _ _
    · exact ih _ _

theorem segments_append {a : Bytes} (ha : Complete a) (b : Bytes) :
    segments (a ++ b) = segments a ++ segments b := by
  rcases ha.eq_nil_or with rfl | ⟨init, rfl⟩
  · rfl
  · exact segmentsFrom_append_feed [] [] init b

theorem segmentsFrom_begun {l : Bytes} (hl : lineFeed ∉ l) (line : Bytes) (done : List Bytes)
    (rest : Bytes) :
    segmentsFrom line done (l ++ rest) = segmentsFrom (l.reverse ++ line) done rest := by
  induction l generalizing line with
  | nil => rfl
  | cons b l ih =>
    rw [List.mem_cons, not_or] at hl
    rw [List.cons_append, segmentsFrom, if_neg (Ne.symm hl.1), ih hl.2]
    simp

theorem segments_unended {t : Bytes} (ht : lineFeed ∉ t) :
    segments t = if t = [] then [] else [t] := by
  have h := segmentsFrom_begun ht [] [] []
  rw [List.append_nil, List.append_nil] at h
  rw [segments, h, segmentsFrom]
  split <;> simp_all

theorem segments_line {l : Bytes} (hl : lineFeed ∉ l) :
    segments (l ++ [lineFeed]) = [l ++ [lineFeed]] := by
  rw [segments, segmentsFrom_begun hl, segmentsFrom, if_pos rfl, segmentsFrom, if_pos rfl]
  simp

/-- Records as they stand in a journal. -/
def encoding (rs : List Record) : Bytes := rs.flatMap Record.bytes

@[simp]
theorem encoding_nil : encoding [] = [] := rfl

@[simp]
theorem encoding_cons (r : Record) (rs : List Record) :
    encoding (r :: rs) = r.bytes ++ encoding rs := rfl

theorem encoding_append (rs qs : List Record) :
    encoding (rs ++ qs) = encoding rs ++ encoding qs := List.flatMap_append

theorem complete_bytes (r : Record) : Complete r.bytes := by
  rw [r.bytes_eq]
  exact complete_append_feed _

theorem complete_encoding (rs : List Record) : Complete (encoding rs) := by
  induction rs with
  | nil => exact complete_nil
  | cons r rs ih => exact (complete_bytes r).append ih

theorem segments_bytes (r : Record) : segments r.bytes = [r.bytes] := by
  rw [r.bytes_eq]
  exact segments_line r.lineFeed_not_mem_encode_body

/-- Each record is a line of its own. -/
theorem segments_encoding (rs : List Record) : segments (encoding rs) = rs.map Record.bytes := by
  induction rs with
  | nil => rfl
  | cons r rs ih => rw [encoding_cons, segments_append (complete_bytes r), segments_bytes, ih]; rfl

/-- What the lines after the first `taken` ones hold. -/
def itemsFrom (taken : Nat) (lines : List Bytes) : List Item :=
  (lines.zipIdx (taken + 1)).filterMap fun (line, n) => item? n line

@[simp]
theorem itemsFrom_nil (taken : Nat) : itemsFrom taken [] = [] := rfl

theorem itemsFrom_cons (taken : Nat) (line : Bytes) (lines : List Bytes) :
    itemsFrom taken (line :: lines) =
      (item? (taken + 1) line).toList ++ itemsFrom (taken + 1) lines := by
  rw [itemsFrom, List.zipIdx_cons, List.filterMap_cons]
  dsimp only
  cases item? (taken + 1) line <;> rfl

theorem itemsFrom_append (taken : Nat) (as bs : List Bytes) :
    itemsFrom taken (as ++ bs) = itemsFrom taken as ++ itemsFrom (taken + as.length) bs := by
  induction as generalizing taken with
  | nil => rfl
  | cons line as ih =>
    rw [List.cons_append, itemsFrom_cons, itemsFrom_cons, ih, List.append_assoc,
      List.length_cons, show taken + 1 + as.length = taken + (as.length + 1) by omega]

theorem items_eq (bs : Bytes) : items bs = itemsFrom 0 (segments bs) := rfl

/-- What stands before a complete prefix's end does not change how the rest is read, but for the
numbers of the lines. -/
theorem items_append {a : Bytes} (ha : Complete a) (b : Bytes) :
    items (a ++ b) = items a ++ itemsFrom (segments a).length (segments b) := by
  rw [items_eq, segments_append ha, itemsFrom_append, Nat.zero_add]
  rfl

theorem isBlank_SD {c : Char} (h : c = 'S' ∨ c = 'D') : Text.isBlank c = false := by
  rcases h with rfl | rfl <;> decide

/-- A record's line holds the record. -/
theorem readLine?_bytes {r : Record} (hkey : r.key ≠ "") : readLine? r.bytes = some (.ok r) := by
  obtain ⟨c, cs, hbody, hc⟩ := r.exists_body_eq_cons
  have hblank : r.line.all Text.isBlank = false := by
    rw [Record.line, hbody, List.cons_append, List.all_cons, isBlank_SD hc, Bool.false_and]
  have hlast : r.line.getLast? = some '\n' := by
    rw [Record.line, List.getLast?_concat]
  rw [readLine?, Record.bytes, Text.Utf8.decode_encode]
  simp only [hblank, hlast, Record.decode_line hkey]
  rfl

theorem itemsFrom_bytes (taken : Nat) {rs : List Record} (hkeys : ∀ r ∈ rs, r.key ≠ "") :
    itemsFrom taken (rs.map Record.bytes) = rs.map .ok := by
  induction rs generalizing taken with
  | nil => rfl
  | cons r rs ih =>
    rw [List.map_cons, itemsFrom_cons, ih _ fun q hq => hkeys q (List.mem_cons_of_mem r hq), item?,
      readLine?_bytes (hkeys r List.mem_cons_self)]
    rfl

theorem items_encoding {rs : List Record} (hkeys : ∀ r ∈ rs, r.key ≠ "") :
    items (encoding rs) = rs.map .ok := by
  rw [items_eq, segments_encoding, itemsFrom_bytes 0 hkeys]

/-- A line of blanks, or an empty one. -/
def Blank (line : Bytes) : Prop :=
  ∃ text, line = Text.Utf8.encode text ∧ text.all Text.isBlank = true

/-- The lines that are passed over are those of blanks. -/
theorem readLine?_eq_none_iff {line : Bytes} : readLine? line = none ↔ Blank line := by
  constructor
  · intro h
    unfold readLine? at h
    split at h
    · cases h
    · rename_i text hdecode
      refine ⟨text, Text.Utf8.decode_eq_ok_iff.mp hdecode, ?_⟩
      by_contra hno
      rw [if_neg hno] at h
      split at h <;> cases h
  · rintro ⟨text, rfl, hblank⟩
    rw [readLine?, Text.Utf8.decode_encode]
    exact if_pos hblank

/-- Why a line that was never ended is no record. -/
inductive LineError.Unended : LineError → Prop
  | unterminated : Unended .unterminated
  | invalidUtf8 (defect : Text.Utf8.Defect) : Unended (.invalidUtf8 defect)

/-- A line that was never ended is reported unless it holds blanks only. -/
theorem readLine?_unended {t : Bytes} (ht : lineFeed ∉ t) (hblank : ¬Blank t) :
    ∃ e, LineError.Unended e ∧ readLine? t = some (.error e) := by
  rw [← readLine?_eq_none_iff] at hblank
  unfold readLine? at hblank ⊢
  cases h : Text.Utf8.decode t with
  | error defect => exact ⟨_, .invalidUtf8 defect, rfl⟩
  | ok text =>
    simp only [h] at hblank ⊢
    have hnot : ¬text.all Text.isBlank = true := fun hall => hblank (if_pos hall)
    have hlast : text.getLast? ≠ some '\n' := by
      intro hn
      obtain ⟨init, rfl⟩ := List.getLast?_eq_some_iff.mp hn
      apply ht
      rw [Text.Utf8.decode_eq_ok_iff.mp h, Text.Utf8.encode_append, List.mem_append]
      exact .inr List.mem_cons_self
    exact ⟨_, .unterminated, by rw [if_neg hnot, if_pos hlast]⟩

/-- Behind a complete prefix a line that was never ended adds one report, or nothing if it holds
blanks only. -/
theorem items_append_unended {a t : Bytes} (ha : Complete a) (ht : lineFeed ∉ t) :
    (Blank t ∧ items (a ++ t) = items a) ∨
      ¬Blank t ∧ ∃ number e, items (a ++ t) = items a ++ [.error (.corruptLine number e)] := by
  rw [items_append ha, segments_unended ht]
  by_cases hblank : Blank t
  · refine .inl ⟨hblank, ?_⟩
    split
    · exact List.append_nil _
    · rw [itemsFrom_cons, item?, readLine?_eq_none_iff.mpr hblank]
      exact List.append_nil _
  · have hne : t ≠ [] := by
      rintro rfl
      exact hblank ⟨[], rfl, rfl⟩
    obtain ⟨e, -, hread⟩ := readLine?_unended ht hblank
    refine .inr ⟨hblank, (segments a).length + 1, e, ?_⟩
    rw [if_neg hne, itemsFrom_cons, item?, hread]
    rfl

/-- A line that breaks off inside a record is reported, wherever it breaks off. -/
theorem readLine?_take_bytes (r : Record) {k : Nat} (hpos : 0 < k) (hk : k < r.bytes.length) :
    lineFeed ∉ r.bytes.take k ∧
      ∃ e, LineError.Unended e ∧ readLine? (r.bytes.take k) = some (.error e) := by
  obtain ⟨c, cs, hbody, hc⟩ := r.exists_body_eq_cons
  have htake : r.bytes.take k = (Text.Utf8.encode r.body).take k := by
    rw [r.bytes_eq, List.length_append, List.length_singleton] at hk
    rw [r.bytes_eq, List.take_append_of_le_length (by omega)]
  have hfeed : lineFeed ∉ r.bytes.take k := by
    rw [htake]
    exact fun h => r.lineFeed_not_mem_encode_body (List.mem_of_mem_take h)
  have hfirst : UInt8.ofNat c.toNat ∈ r.bytes.take k := by
    obtain ⟨k, rfl⟩ : ∃ j, k = j + 1 := ⟨k - 1, by omega⟩
    have hbyte : Text.Utf8.encodeChar c = [UInt8.ofNat c.toNat] := by
      rcases hc with rfl | rfl <;> rfl
    rw [htake, hbody, Text.Utf8.encode_cons, hbyte]
    exact List.mem_cons_self
  refine ⟨hfeed, readLine?_unended hfeed ?_⟩
  -- The first letter of the record would be a blank.
  rintro ⟨text, henc, hblank⟩
  rw [henc] at hfirst
  have hmem : c ∈ text := by
    have := Text.Utf8.mem_of_mem_encode hfirst (by rcases hc with rfl | rfl <;> decide)
    rcases hc with rfl | rfl <;> exact this
  have := List.all_eq_true.mp hblank c hmem
  rw [isBlank_SD hc] at this
  cases this

end Larder.Journal
