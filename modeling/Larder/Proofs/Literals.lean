import Larder.Json.Printer
import Larder.Proofs.Spellings

/-! A string literal reads back as the text it was written for, whatever follows its closing
quote: each of its characters is written in one of the ways to spell it. -/

namespace Larder.Json

open Text.Utf8

theorem hexDigit_hexDigit : ∀ k < 16, HexDigit (hexDigit k) k := by decide

/-- A control character as four hexadecimal digits. -/
theorem escape_control {n : Nat} (h : n < 0x20) :
    Escape ['\\', 'u', '0', '0', hexDigit (n / 16), hexDigit (n % 16)] (Char.ofNat n) := by
  have hzero : HexDigit '0' 0 := by decide
  have hunit : HexUnit ['0', '0', hexDigit (n / 16), hexDigit (n % 16)] n := by
    have hdigits := HexUnit.mk hzero hzero (hexDigit_hexDigit (n / 16) (by omega))
      (hexDigit_hexDigit (n % 16) (by omega))
    rwa [show 0 * 4096 + 0 * 256 + n / 16 * 16 + n % 16 = n by omega] at hdigits
  exact .unit hunit (by omega)

/-- How a character is written: behind a backslash as a letter or as four digits, or as it is. -/
theorem escapeChar_cases (c : Char) :
    (∃ letter, (letter, c) ∈ letterEscapes ∧ escapeChar c = ['\\', letter]) ∨
      (c.toNat < 0x20 ∧
        escapeChar c = ['\\', 'u', '0', '0', hexDigit (c.toNat / 16), hexDigit (c.toNat % 16)]) ∨
      (c ≠ '"' ∧ c ≠ '\\' ∧ 0x20 ≤ c.toNat ∧ escapeChar c = [c]) := by
  unfold escapeChar
  split
  · rename_i hc
    exact .inl ⟨'"', by rw [hc]; decide, rfl⟩
  split
  · rename_i hc
    exact .inl ⟨'\\', by rw [hc]; decide, rfl⟩
  split
  · rename_i hc
    exact .inl ⟨'b', by rw [hc]; decide, rfl⟩
  split
  · rename_i hc
    exact .inl ⟨'f', by rw [hc]; decide, rfl⟩
  split
  · rename_i hc
    exact .inl ⟨'n', by rw [hc]; decide, rfl⟩
  split
  · rename_i hc
    exact .inl ⟨'r', by rw [hc]; decide, rfl⟩
  split
  · rename_i hc
    exact .inl ⟨'t', by rw [hc]; decide, rfl⟩
  split
  · rename_i hc
    exact .inr (.inl ⟨hc, rfl⟩)
  · rename_i hquote hslash _ _ _ _ _ hcontrol
    exact .inr (.inr ⟨hquote, hslash, Nat.le_of_not_lt hcontrol, rfl⟩)

theorem Spelling.escapeChar {written text : List Char} (h : Spelling written text) (c : Char) :
    Spelling (Json.escapeChar c ++ written) (c :: text) := by
  rcases escapeChar_cases c with ⟨letter, hmem, hc⟩ | ⟨hcontrol, hc⟩ | ⟨hquote, hslash, hle, hc⟩
  · rw [hc]
    exact .escape (.letter hmem) h
  · have hescape := escape_control hcontrol
    rw [Char.ofNat_toNat] at hescape
    rw [hc]
    exact .escape hescape h
  · rw [hc]
    exact .plain hquote hslash hle h

theorem spelling_escaped (cs : List Char) : Spelling (cs.flatMap escapeChar) cs := by
  induction cs with
  | nil => exact .nil
  | cons c cs ih => exact ih.escapeChar c

/-- The part of a literal after its opening quote gives the text. -/
theorem readText_literal (cs : List Char) (p : Place) (rest : Bytes) :
    ∃ p', readText p [] (encode (cs.flatMap escapeChar ++ ['"']) ++ rest) =
      .ok (String.ofList cs, ⟨p', rest⟩) :=
  (spelling_escaped cs).readText_quoted p rest

theorem skipBlank_of_not_blank {b : UInt8} (h : isBlankByte b = false) (p : Place) (rest : Bytes) :
    Cursor.skipBlank ⟨p, b :: rest⟩ = ⟨p, b :: rest⟩ := by
  simp [Cursor.skipBlank, skipBlankFrom, h]

theorem readValue_quote (bound depth : Nat) (p : Place) (rest : Bytes) :
    readValue bound depth ⟨p, 34 :: rest⟩ =
      (readText (p.after 34) [] rest).map fun (s, c) => (.text s, c) := by
  have hwith : ∀ inner, readValueWith inner bound ⟨p, 34 :: rest⟩ =
      (readText (p.after 34) [] rest).map fun (s, c) => (.text s, c) := by
    intro inner
    rw [readValueWith.eq_def, skipBlank_of_not_blank (by decide)]
    simp [Cursor.skip]
  cases depth <;> exact hwith _

/-- A literal is the next value of a stream, however it is spelled and whatever follows it. -/
theorem Spelling.nextValue {written text : List Char} (h : Spelling written text) (p : Place)
    (rest : Bytes) :
    ∃ p', Json.nextValue ⟨p, encode ('"' :: (written ++ ['"'])) ++ rest⟩ =
      .ok (some (.text (String.ofList text)), ⟨p', rest⟩) := by
  obtain ⟨p', hread⟩ := h.readText_quoted (p.after 34) rest
  refine ⟨p', ?_⟩
  have hbytes : encode ('"' :: (written ++ ['"'])) ++ rest =
      34 :: (encode (written ++ ['"']) ++ rest) := by
    rw [encode_cons]
    rfl
  rw [hbytes, Json.nextValue, skipBlank_of_not_blank (by decide)]
  simp only [readValue_quote, hread, Except.map]
  cases rest <;> rfl

end Larder.Json
