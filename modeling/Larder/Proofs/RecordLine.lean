import Mathlib.Data.List.TakeDrop
import Larder.Proofs.RecordFields
import Larder.Journal.Tail

/-! A record is read back from its line, with or without the line feed. The fields are read in the
order in which they are written: a literal ends at its own quote, and a deadline is the last
thing on the line. -/

namespace Larder.Record

open Text.Utf8
open Json (blanks_nil blanks_space)

theorem key_ne_of_decode {text : List Char} {r : Record} (h : decode text = .ok r) :
    r.key ≠ "" := by
  unfold decode at h
  dsimp only at h
  split at h
  · cases h
  · unfold ofOperands at h
    dsimp only at h
    split at h
    · cases h
    · obtain ⟨rfl, hkey⟩ := of_finish h
      exact hkey

theorem literal_quoteChars (s : String) : Literal (Json.quoteChars s.toList) s :=
  .mk (Json.spelling_escaped s.toList)

theorem deadlineField?_deadlineField (d : Deadline) (p : Json.Place) :
    ∃ p', deadlineField? ⟨p, encode (deadlineField d)⟩ = .ok (d, ⟨p', encode []⟩) := by
  cases d with
  | none => exact ⟨p, rfl⟩
  | some stop =>
    obtain ⟨p', h⟩ := deadlineField?_of_numeral blanks_space (Json.numeral_iff.mpr rfl) blanks_nil p
    refine ⟨p', ?_⟩
    rwa [← encode_append, List.append_nil, ← encode_append] at h

theorem ofOperands_operands (r : Record) :
    ofOperands r.word (.start (encode r.operands)) = r.checked := by
  cases r with
  | set key value deadline =>
    have h := ofOperands_of_set blanks_nil (literal_quoteChars key) blanks_space
      (literal_quoteChars value) blanks_nil (deadlineField?_deadlineField deadline) ⟨1, 0⟩
    rw [operands, List.append_assoc]
    exact h
  | delete key =>
    have h := ofOperands_of_delete blanks_nil (literal_quoteChars key) blanks_nil ⟨1, 0⟩
    rw [List.nil_append, List.append_nil] at h
    exact h

/-- The last character of a record is a quote or a digit. -/
theorem exists_body_eq (r : Record) : ∃ init c, r.body = init ++ [c] ∧ isTerminator c = false := by
  have hquote : ∀ (front : List Char) (s : String), ∃ init c,
      front ++ Json.quoteChars s.toList = init ++ [c] ∧ isTerminator c = false := by
    intro front s
    refine ⟨front ++ '"' :: s.toList.flatMap Json.escapeChar, '"', ?_, rfl⟩
    rw [Json.quoteChars, List.append_assoc, List.cons_append]
  cases r with
  | delete key =>
    obtain ⟨init, c, h, hc⟩ := hquote (deleteWord ++ [' ']) key
    exact ⟨init, c, by rw [← h]; simp [body, word, operands], hc⟩
  | set key value deadline =>
    cases deadline with
    | none =>
      obtain ⟨init, c, h, hc⟩ := hquote (setWord ++ ' ' :: Json.quoteChars key.toList ++ [' ']) value
      exact ⟨init, c, by rw [← h]; simp [body, word, operands, deadlineField], hc⟩
    | some stop =>
      rcases List.eq_nil_or_concat (Nat.toDigits 10 stop.toNat) with h | ⟨ds, c, h⟩
      · exact absurd h Nat.toDigits_ne_nil
      · have hc : c.isDigit = true :=
          Nat.isDigit_of_mem_toDigits (b := 10) (n := stop.toNat) (by decide) (by decide)
            (by rw [h]; simp)
        refine ⟨setWord ++ ' ' :: (Json.quoteChars key.toList ++
          ' ' :: Json.quoteChars value.toList ++ ' ' :: ds), c, ?_, ?_⟩
        · simp [body, word, operands, deadlineField, h]
        · rw [isTerminator, Bool.or_eq_false_iff, beq_eq_false_iff_ne, beq_eq_false_iff_ne]
          constructor <;> (rintro rfl; cases hc)

theorem dropTerminator_append (text : List Char) {ends : List Char}
    (h : ∀ c ∈ ends, isTerminator c = true) :
    dropTerminator (text ++ ends) = dropTerminator text := by
  rw [dropTerminator, List.reverse_append,
    List.dropWhile_append_of_pos (fun c hc => h c (List.mem_reverse.mp hc)), dropTerminator]

theorem dropTerminator_body (r : Record) {ends : List Char}
    (h : ∀ c ∈ ends, isTerminator c = true) : dropTerminator (r.body ++ ends) = r.body := by
  obtain ⟨init, c, hbody, hc⟩ := exists_body_eq r
  rw [dropTerminator_append _ h, dropTerminator, hbody]
  simp [hc]

theorem span_word {word : List Char} (h : ' ' ∉ word) (cs : List Char) :
    (word ++ ' ' :: cs).span (· ≠ ' ') = (word, ' ' :: cs) := by
  have hword : ∀ c ∈ word, decide (c ≠ ' ') = true := fun c hc =>
    decide_eq_true fun he => h (he ▸ hc)
  rw [List.span_eq_takeWhile_dropWhile, List.takeWhile_append_of_pos hword,
    List.dropWhile_append_of_pos hword]
  simp

theorem blank_not_mem_word (r : Record) : ' ' ∉ r.word := by
  cases r with
  | set key value deadline => simp [word, setWord]
  | delete key => simp [word, deleteWord]

theorem decode_of_word {text word cs : List Char} (hword : ' ' ∉ word)
    (h : dropTerminator text = word ++ ' ' :: cs) :
    decode text = ofOperands word (.start (encode cs)) := by
  rw [decode, h]
  simp only [span_word hword]

/-- Reading takes back what was written, whatever line feeds and carriage returns follow. -/
theorem decode_body_append (r : Record) {ends : List Char}
    (h : ∀ c ∈ ends, isTerminator c = true) : decode (r.body ++ ends) = r.checked := by
  rw [decode_of_word r.blank_not_mem_word (dropTerminator_body r h)]
  exact ofOperands_operands r

theorem decode_line {r : Record} (hkey : r.key ≠ "") : decode r.line = .ok r := by
  rw [line, decode_body_append r (by simp [isTerminator])]
  exact if_neg hkey

theorem le_toNat_of_mem_escapeChar {c d : Char} (h : d ∈ Json.escapeChar c) : 0x20 ≤ d.toNat := by
  have hletters : ∀ x ∈ Json.letterEscapes, 0x20 ≤ x.1.toNat := by decide
  have hhex : ∀ k < 16, 0x20 ≤ (Json.hexDigit k).toNat := by decide
  rcases Json.escapeChar_cases c with ⟨letter, hmem, hc⟩ | ⟨hcontrol, hc⟩ | ⟨-, -, hle, hc⟩ <;>
    rw [hc] at h <;>
    simp only [List.mem_cons, List.not_mem_nil, or_false] at h
  · rcases h with rfl | rfl
    · decide
    · exact hletters _ hmem
  · rcases h with rfl | rfl | rfl | rfl | rfl | rfl
    · decide
    · decide
    · decide
    · decide
    · exact hhex _ (by omega)
    · exact hhex _ (by omega)
  · exact h ▸ hle

theorem le_toNat_of_mem_quoteChars {cs : List Char} {d : Char} (h : d ∈ Json.quoteChars cs) :
    0x20 ≤ d.toNat := by
  simp only [Json.quoteChars, List.mem_cons, List.mem_append, List.mem_flatMap,
    List.not_mem_nil, or_false] at h
  rcases h with rfl | ⟨c, -, hd⟩ | rfl
  · decide
  · exact le_toNat_of_mem_escapeChar hd
  · decide

theorem le_toNat_of_mem_deadlineField {deadline : Deadline} {d : Char}
    (h : d ∈ deadlineField deadline) : 0x20 ≤ d.toNat := by
  cases deadline with
  | none => cases h
  | some stop =>
    rcases List.mem_cons.mp h with rfl | h
    · decide
    · have hdigit := Nat.isDigit_of_mem_toDigits (b := 10) (by decide) (by decide) h
      exact Nat.le_trans (by decide) (Char.isDigit_iff_toNat.mp hdigit).1

/-- The text of a record has no control characters, whatever its key and its value have. -/
theorem le_toNat_of_mem_body {r : Record} {d : Char} (h : d ∈ r.body) : 0x20 ≤ d.toNat := by
  have hword : (r.word ++ [' ']).all (fun d => decide (0x20 ≤ d.toNat)) = true := by
    cases r with
    | set key value deadline => rfl
    | delete key => rfl
  have hbody : r.body = r.word ++ [' '] ++ r.operands := by simp [body]
  rw [hbody, List.mem_append] at h
  rcases h with h | h
  · exact of_decide_eq_true (List.all_eq_true.mp hword d h)
  · cases r with
    | delete key => exact le_toNat_of_mem_quoteChars h
    | set key value deadline =>
      rw [operands, List.mem_append, List.mem_append, List.mem_cons] at h
      rcases h with (h | rfl | h) | h
      · exact le_toNat_of_mem_quoteChars h
      · decide
      · exact le_toNat_of_mem_quoteChars h
      · exact le_toNat_of_mem_deadlineField h

theorem newline_not_mem_body (r : Record) : '\n' ∉ r.body := fun h =>
  absurd (le_toNat_of_mem_body h) (by decide)

/-- A line of a journal has one line feed, and that at its end. -/
theorem bytes_eq (r : Record) : r.bytes = encode r.body ++ [Journal.lineFeed] := by
  rw [bytes, line, encode_append]
  rfl

theorem lineFeed_not_mem_encode_body (r : Record) : Journal.lineFeed ∉ encode r.body := by
  intro h
  exact newline_not_mem_body r (mem_of_mem_encode h (by decide))

/-- A record is one line of text: it has no control characters but the line feed at its end, so
none of its bytes before is one, and with any line feeds and carriage returns at its end, or none,
it is read back as what it was, unless its key is empty. Whatever text a record was read from, its
own line stands for the same. -/
theorem reads_back_from_line (r : Record) :
    (r.line = r.body ++ ['\n'] ∧ ∀ c ∈ r.body, 0x20 ≤ c.toNat) ∧
      (Text.Utf8.decode r.bytes = .ok r.line ∧
        ∃ front, r.bytes = front ++ [Journal.lineFeed] ∧ Journal.lineFeed ∉ front) ∧
      (∀ ends : List Char, (∀ c ∈ ends, isTerminator c = true) →
        decode (r.body ++ ends) = if r.key = "" then .error .emptyKey else .ok r) ∧
      ∀ text, decode text = .ok r → r.key ≠ "" ∧ decode r.line = .ok r := by
  refine ⟨⟨rfl, fun c => le_toNat_of_mem_body⟩, ⟨decode_encode _, encode r.body, r.bytes_eq,
    r.lineFeed_not_mem_encode_body⟩, fun ends => decode_body_append r, fun text h => ?_⟩
  have hkey := key_ne_of_decode h
  exact ⟨hkey, decode_line hkey⟩

theorem reads_back_from_line_escaped :
    let r := set "a\n\r\x00\"\\\u2028" "" (some 18446744073709551615)
    let text :=
      "SET  \"a\\n\\r\\u0000\\u0022\\u005c\u2028\"\t\"\" 18446744073709551615 \r\n".toList
    (∀ c ∈ ['\r', '\n'], isTerminator c = true) ∧ decode (r.body ++ ['\r', '\n']) = .ok r ∧
      decode text = .ok r ∧ r.line ≠ text ∧ decode r.line = .ok r := by
  intro r text
  have hends : ∀ c ∈ ['\r', '\n'], isTerminator c = true := by simp [isTerminator]
  have htext : decode text = .ok r := by
    have hread : (decode text).toOption = some r := by decide +kernel
    cases hdecode : decode text with
    | error e => rw [hdecode] at hread; cases hread
    | ok q => rw [hdecode] at hread; cases hread; rfl
  have hline : r.line ≠ text := by decide +kernel
  obtain ⟨-, -, hback, hagain⟩ := reads_back_from_line r
  obtain ⟨hkey, hdecode⟩ := hagain text htext
  exact ⟨hends, (hback _ hends).trans (if_neg hkey), htext, hline, hdecode⟩

/-- The first letter of a record. -/
theorem exists_body_eq_cons (r : Record) : ∃ c cs, r.body = c :: cs ∧ (c = 'S' ∨ c = 'D') := by
  cases r with
  | set key value deadline => exact ⟨'S', _, rfl, .inl rfl⟩
  | delete key => exact ⟨'D', _, rfl, .inr rfl⟩

end Larder.Record
