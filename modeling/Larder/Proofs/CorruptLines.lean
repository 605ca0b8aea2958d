import Larder.Proofs.Reading

/-! What a journal with damage in it reads as. Each of its lines is passed over, reported or taken
as a record by what stands in that line alone; so in front of a line there can be anything, as long
as it has been ended, and it changes nothing but the numbers of the lines behind it. -/

namespace Larder.Journal

open Text.Utf8 (encode)

/-- How a text is divided into lines: each ends at its first line feed, and what is left behind the
last line feed is a line as well if it is anything at all. -/
inductive Divided : Bytes → List Bytes → Prop
  | nil : Divided [] []
  | unended {t : Bytes} (hne : t ≠ []) (ht : lineFeed ∉ t) : Divided t [t]
  | line {l rest : Bytes} {lines : List Bytes} (hl : lineFeed ∉ l) (h : Divided rest lines) :
      Divided (l ++ [lineFeed] ++ rest) ((l ++ [lineFeed]) :: lines)

theorem Divided.eq_segments {bs : Bytes} {lines : List Bytes} (h : Divided bs lines) :
    lines = segments bs := by
  induction h with
  | nil => rfl
  | unended hne ht => rw [segments_unended ht, if_neg hne]
  | line hl _ ih => rw [segments_append (complete_append_feed _), segments_line hl, ih]; rfl

theorem divided_segments (bs : Bytes) : Divided bs (segments bs) := by
  obtain ⟨lines, h⟩ : ∃ lines, Divided bs lines := by
    induction hn : bs.length using Nat.strongRecOn generalizing bs with
    | ind n ih =>
      by_cases hfeed : lineFeed ∈ bs
      · obtain ⟨l, rest, rfl, hl⟩ := List.eq_append_cons_of_mem hfeed
        rw [List.length_append, List.length_cons] at hn
        obtain ⟨lines, hrest⟩ := ih rest.length (by omega) rest rfl
        rw [List.append_cons]
        exact ⟨_, .line hl hrest⟩
      · by_cases hnil : bs = []
        · exact ⟨[], hnil ▸ .nil⟩
        · exact ⟨[bs], .unended hnil hfeed⟩
  exact h.eq_segments ▸ h

theorem getLast?_encode (text : List Char) :
    (encode text).getLast? = some lineFeed ↔ text.getLast? = some '\n' := by
  rcases List.eq_nil_or_concat text with rfl | ⟨init, c, rfl⟩
  · exact iff_of_false nofun nofun
  rw [List.concat_eq_append, List.getLast?_concat, Option.some.injEq, Text.Utf8.encode_append]
  constructor
  · intro h
    have hne : encode [c] ≠ [] := Text.Utf8.encode_ne_nil (List.cons_ne_nil c [])
    rw [List.getLast?_append, List.getLast?_eq_some_getLast hne, Option.some_or] at h
    have hmem : lineFeed ∈ Text.Utf8.encodeChar c := by
      have := List.getLast_mem hne
      rw [Option.some.inj h] at this
      simpa [encode] using this
    rcases Text.Utf8.toNat_of_mem_encodeChar hmem with hsame | hge
    · have hsame : '\n'.toNat = c.toNat := hsame
      exact (Char.toNat_inj.mp hsame).symm
    · exact absurd hge (by decide)
  · rintro rfl
    exact List.getLast?_concat

/-- What a reader has for a line: nothing if it is a text of blanks; a report that has its number if
it is no text, has not been ended or is no record; otherwise its record. -/
inductive Holds (number : Nat) (line : Bytes) : Option Item → Prop
  | blank (h : Blank line) : Holds number line none
  | invalid {defect : Text.Utf8.Defect} (h : ∀ text, line ≠ encode text) :
      Holds number line (some (.error (.corruptLine number (.invalidUtf8 defect))))
  | unended {text : List Char} (hline : line = encode text) (hblank : ¬Blank line)
      (hlast : line.getLast? ≠ some lineFeed) :
      Holds number line (some (.error (.corruptLine number .unterminated)))
  | undecodable {text : List Char} {e : Record.DecodeError} (hline : line = encode text)
      (hblank : ¬Blank line) (hlast : line.getLast? = some lineFeed)
      (hdecode : Record.decode text = .error e) :
      Holds number line (some (.error (.corruptLine number (.undecodable e))))
  | record {text : List Char} {r : Record} (hline : line = encode text)
      (hlast : line.getLast? = some lineFeed) (hdecode : Record.decode text = .ok r) :
      Holds number line (some (.ok r))

theorem holds_item? (number : Nat) (line : Bytes) : Holds number line (item? number line) := by
  by_cases hblank : Blank line
  · rw [item?, readLine?_eq_none_iff.mpr hblank]
    exact .blank hblank
  have hnot := mt readLine?_eq_none_iff.mp hblank
  unfold item?
  unfold readLine? at hnot ⊢
  cases hdecode : Text.Utf8.decode line with
  | error defect =>
    refine .invalid fun text hline => ?_
    rw [Text.Utf8.decode_eq_ok_iff.mpr hline] at hdecode
    cases hdecode
  | ok text =>
    have hline := Text.Utf8.decode_eq_ok_iff.mp hdecode
    simp only [hdecode] at hnot ⊢
    rw [if_neg fun hall => hnot (if_pos hall)]
    split
    · rename_i hlast
      exact .unended hline hblank (by rwa [hline, ne_eq, getLast?_encode])
    · rename_i hlast
      have hlast : line.getLast? = some lineFeed := by
        rw [hline, getLast?_encode]
        exact not_not.mp hlast
      cases hrecord : Record.decode text with
      | error e => exact .undecodable hline hblank hlast hrecord
      | ok r => exact .record hline hlast hrecord

/-- An item as it is when this many lines more stand in front of it. -/
def renumbered (lines : Nat) : Item → Item
  | .error (.corruptLine number reason) => .error (.corruptLine (lines + number) reason)
  | item => item

theorem item?_add (lines number : Nat) (line : Bytes) :
    item? (lines + number) line = (item? number line).map (renumbered lines) := by
  unfold item?
  cases readLine? line with
  | none => rfl
  | some held => cases held <;> rfl

theorem itemsFrom_add (before taken : Nat) (lines : List Bytes) :
    itemsFrom (before + taken) lines = (itemsFrom taken lines).map (renumbered before) := by
  induction lines generalizing taken with
  | nil => rfl
  | cons line lines ih =>
    rw [itemsFrom_cons, itemsFrom_cons, List.map_append, Nat.add_assoc, item?_add, ih]
    cases item? (taken + 1) line <;> rfl

theorem items_append_renumbered {a : Bytes} (ha : Complete a) (b : Bytes) :
    items (a ++ b) = items a ++ (items b).map (renumbered (segments a).length) := by
  rw [items_append ha, items_eq b, ← itemsFrom_add, Nat.add_zero]

namespace Reader

/-- The answers to so many calls, one after the other, and the reader after them. -/
def asked (r : Reader) : Nat → List (Option Item) × Reader
  | 0 => ([], r)
  | calls + 1 =>
    let (item, r) := r.next
    let (items, r) := r.asked calls
    (item :: items, r)

theorem asked_succ {r r' : Reader} {item : Option Item} (h : r.next = (item, r')) (calls : Nat) :
    r.asked (calls + 1) = (item :: (r'.asked calls).1, (r'.asked calls).2) := by
  rw [asked, h]

theorem next_lines (taken : Nat) (lines : List Bytes) :
    next ⟨none, lines, taken⟩ = nextLine taken lines := rfl

/-- A reader at its end stays there. -/
theorem asked_ended (taken calls : Nat) :
    asked ⟨none, [], taken⟩ calls = (List.replicate calls none, ⟨none, [], taken⟩) := by
  induction calls with
  | zero => rfl
  | succ calls ih =>
    have hnext : next ⟨none, [], taken⟩ = (none, ⟨none, [], taken⟩) := rfl
    rw [asked_succ hnext, ih]
    rfl

/-- The lines that are left hold the answers; a call after the last of them finds that all lines
have been taken. -/
theorem asked_lines (taken : Nat) (lines : List Bytes) (calls : Nat) :
    (asked ⟨none, lines, taken⟩ calls).1 =
        (List.range calls).map (fun i => (itemsFrom taken lines)[i]?) ∧
      ((itemsFrom taken lines).length < calls →
        (asked ⟨none, lines, taken⟩ calls).2.linesRead = taken + lines.length) := by
  induction calls generalizing taken lines with
  | zero => exact ⟨rfl, fun h => (Nat.not_lt_zero _ h).elim⟩
  | succ calls ih =>
    rcases nextLine_spec taken lines with
      ⟨hitems, hnext⟩ | ⟨i, before, line, rest, rfl, hitems, hnext⟩
    · rw [asked_succ ((next_lines taken lines).trans hnext), asked_ended, hitems]
      exact ⟨by simp [List.map_const', List.replicate_succ], fun _ => rfl⟩
    · obtain ⟨hanswers, hread⟩ := ih (taken + before.length + 1) rest
      rw [asked_succ ((next_lines taken _).trans hnext), hitems, hanswers]
      refine ⟨?_, fun hcalls => ?_⟩
      · rw [List.range_succ_eq_map, List.map_cons, List.map_map]
        rfl
      · rw [hread (Nat.lt_of_succ_lt_succ hcalls), List.length_append, List.length_cons]
        omega

end Reader

/-- A file is read line by line. Its lines are where its line feeds are, and what there is to be had
from each of them is told by that line and its number. Asked again and again, the reader gives this
in the order of the lines and then nothing any more, and by then it has counted all lines. So behind
a text that is empty or ends in a line feed everything is read as it would be by itself, but for the
numbers of the lines. -/
theorem reads_line_by_line (bs : Bytes) :
    let lines := segments bs
    Divided bs lines ∧
      (∀ number line, Holds number line (item? number line)) ∧
      items bs = (lines.zipIdx 1).filterMap (fun (line, number) => item? number line) ∧
      (∀ calls,
        ((Reader.ofBytes bs).asked calls).1 = (List.range calls).map (fun i => (items bs)[i]?) ∧
          ((items bs).length < calls →
            ((Reader.ofBytes bs).asked calls).2.linesRead = lines.length)) ∧
      ∀ a b, Complete a →
        items (a ++ b) = items a ++ (items b).map (renumbered (segments a).length) := by
  intro lines
  refine ⟨divided_segments bs, holds_item?, rfl, fun calls => ?_,
    fun a b ha => items_append_renumbered ha b⟩
  obtain ⟨hanswers, hread⟩ := Reader.asked_lines 0 (segments bs) calls
  rw [Nat.zero_add] at hread
  exact ⟨hanswers, hread⟩

/-- Two lines that are blank or no text, one that is no record, a record, and a tail. -/
theorem reads_line_by_line_damaged :
    let a : Bytes := [32, 13, 10, 255, 34, 10]
    let b : Bytes := [83, 69, 84, 10] ++ (Record.delete "k").bytes ++ [68, 69, 76]
    Complete a ∧ (items (a ++ b)).length = 4 ∧
      ((Reader.ofBytes (a ++ b)).asked 7).2.linesRead = 5 ∧
      items (a ++ b) = items a ++ (items b).map (renumbered 2) := by
  intro a b
  have ha : Complete a := complete_append_feed [32, 13, 10, 255, 34]
  have hcount : (items (a ++ b)).length = 4 := by decide +kernel
  obtain ⟨-, -, -, hasked, happend⟩ := reads_line_by_line (a ++ b)
  have hlines : (segments (a ++ b)).length = 5 := by decide +kernel
  exact ⟨ha, hcount, hlines ▸ (hasked 7).2 (hcount ▸ by decide), happend a b ha⟩

end Larder.Journal
