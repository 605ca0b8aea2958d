import Larder.Text.Utf8.Lemmas

/-! Encoding undoes decoding: bytes that are a text are that text's only form. Each kind of
sequence gives its own bytes back; the rest follows the decoder. -/

namespace Larder.Text.Utf8

theorem toNat_char_ofNat {n : Nat} (h : n < 0xD800 ∨ 0xDFFF < n ∧ n < 0x110000) :
    (Char.ofNat n).toNat = n := by
  have hv : n.isValidChar := h
  rw [Char.ofNat, dif_pos hv]
  rfl

theorem byte_eq {n : Nat} {b : UInt8} (h : n = b.toNat) : UInt8.ofNat n = b := by
  rw [h, UInt8.ofNat_toNat]

/-- The leading bytes of each width. -/
theorem width_cases {a : UInt8} {n : Nat} (h : width a = some n) :
    n = 1 ∧ a.toNat < 0x80 ∨ n = 2 ∧ 0xC2 ≤ a.toNat ∧ a.toNat < 0xE0 ∨
      n = 3 ∧ 0xE0 ≤ a.toNat ∧ a.toNat < 0xF0 ∨ n = 4 ∧ 0xF0 ≤ a.toNat ∧ a.toNat < 0xF5 := by
  have hw := width_ofNat a.toNat_lt
  rw [UInt8.ofNat_toNat, h] at hw
  grind

theorem isTail_iff (b : UInt8) : isTail b = true ↔ 0x80 ≤ b.toNat ∧ b.toNat < 0xC0 := by
  unfold isTail
  rw [Bool.and_eq_true, decide_eq_true_iff, decide_eq_true_iff, UInt8.le_iff_toNat_le,
    UInt8.lt_iff_toNat_lt]
  rfl

theorem isSecond_bounds {a b : UInt8} (h : isSecond a b = true) :
    0x80 ≤ b.toNat ∧ b.toNat < 0xC0 ∧ (a.toNat = 0xE0 → 0xA0 ≤ b.toNat) ∧
      (a.toNat = 0xED → b.toNat < 0xA0) ∧ (a.toNat = 0xF0 → 0x90 ≤ b.toNat) ∧
      (a.toNat = 0xF4 → b.toNat < 0x90) := by
  unfold isSecond at h
  simp only [← UInt8.toNat_inj, UInt8.le_iff_toNat_le, UInt8.lt_iff_toNat_lt, isTail] at h
  change (if a.toNat = 224 then (decide (160 ≤ b.toNat) && decide (b.toNat < 192))
    else if a.toNat = 237 then (decide (128 ≤ b.toNat) && decide (b.toNat < 160))
    else if a.toNat = 240 then (decide (144 ≤ b.toNat) && decide (b.toNat < 192))
    else if a.toNat = 244 then (decide (128 ≤ b.toNat) && decide (b.toNat < 144))
    else (decide (128 ≤ b.toNat) && decide (b.toNat < 192))) = true at h
  split at h <;> try split at h <;> try split at h <;> try split at h
  all_goals
    simp only [Bool.and_eq_true, decide_eq_true_eq] at h
    omega

theorem encodeChar_char1 {a : UInt8} (h : width a = some 1) :
    encodeChar (Char.ofNat a.toNat) = [a] := by
  have ha := width_cases h
  rw [encodeChar, toNat_char_ofNat (by omega)]
  simp only [UInt8.ofNat_toNat]
  rw [if_pos (by omega)]

theorem encodeChar_char2 {a b : UInt8} (h : width a = some 2) (hb : isTail b = true) :
    encodeChar (char2 a b) = [a, b] := by
  have ha := width_cases h
  rw [isTail_iff] at hb
  have hn : (char2 a b).toNat = (a.toNat - 0xC0) * 64 + (b.toNat - 0x80) :=
    toNat_char_ofNat (by omega)
  unfold encodeChar
  simp only [hn]
  rw [if_neg (by omega), if_pos (by omega), byte_eq (b := a) (by omega),
    byte_eq (b := b) (by omega)]

theorem encodeChar_char3 {a b c : UInt8} (h : width a = some 3) (hb : isSecond a b = true)
    (hc : isTail c = true) : encodeChar (char3 a b c) = [a, b, c] := by
  have ha := width_cases h
  have hb := isSecond_bounds hb
  rw [isTail_iff] at hc
  have hn : (char3 a b c).toNat =
      (a.toNat - 0xE0) * 4096 + (b.toNat - 0x80) * 64 + (c.toNat - 0x80) :=
    toNat_char_ofNat (by omega)
  unfold encodeChar
  simp only [hn]
  rw [if_neg (by omega), if_neg (by omega), if_pos (by omega), byte_eq (b := a) (by omega),
    byte_eq (b := b) (by omega), byte_eq (b := c) (by omega)]

theorem encodeChar_char4 {a b c d : UInt8} (h : width a = some 4) (hb : isSecond a b = true)
    (hc : isTail c = true) (hd : isTail d = true) :
    encodeChar (char4 a b c d) = [a, b, c, d] := by
  have ha := width_cases h
  have hb := isSecond_bounds hb
  rw [isTail_iff] at hc hd
  have hn : (char4 a b c d).toNat = (a.toNat - 0xF0) * 262144 + (b.toNat - 0x80) * 4096 +
      (c.toNat - 0x80) * 64 + (d.toNat - 0x80) :=
    toNat_char_ofNat (by omega)
  unfold encodeChar
  simp only [hn]
  rw [if_neg (by omega), if_neg (by omega), if_neg (by omega), byte_eq (b := a) (by omega),
    byte_eq (b := b) (by omega), byte_eq (b := c) (by omega), byte_eq (b := d) (by omega)]

/-- A character with its own bytes comes in front of what is decoded behind it. -/
theorem exists_decoded_cons {c : Char} {own rest : Bytes} (hc : encodeChar c = own)
    {done cs : List Char} (h : ∃ tail, cs = (c :: done).reverse ++ tail ∧ rest = encode tail) :
    ∃ tail, cs = done.reverse ++ tail ∧ own ++ rest = encode tail := by
  obtain ⟨tail, rfl, rfl⟩ := h
  exact ⟨c :: tail, by simp, by rw [encode_cons, hc]⟩

theorem exists_decoded {index : Nat} {done cs : List Char} {bs : Bytes}
    (h : decodeFrom index done bs = .ok cs) :
    ∃ tail, cs = done.reverse ++ tail ∧ bs = encode tail := by
  fun_induction decodeFrom index done bs
  case case1 =>
    cases h
    exact ⟨[], (List.append_nil _).symm, rfl⟩
  case case3 hw ih => exact exists_decoded_cons (encodeChar_char1 hw) (ih h)
  case case5 hw _ _ hb ih => exact exists_decoded_cons (encodeChar_char2 hw hb) (ih h)
  case case9 hw _ hb _ _ hc ih => exact exists_decoded_cons (encodeChar_char3 hw hb hc) (ih h)
  case case15 n h₁ h₂ h₃ hw _ hb _ hc _ _ hd ih =>
    obtain rfl : n = 4 := by
      rcases width_cases hw with ⟨hn, -⟩ | ⟨hn, -⟩ | ⟨hn, -⟩ | ⟨hn, -⟩
      · exact (h₁ hn).elim
      · exact (h₂ hn).elim
      · exact (h₃ hn).elim
      · exact hn
    exact exists_decoded_cons (encodeChar_char4 hw hb hc hd) (ih h)
  all_goals cases h

theorem encode_of_decode {bs : Bytes} {cs : List Char} (h : decode bs = .ok cs) :
    encode cs = bs := by
  obtain ⟨tail, rfl, rfl⟩ := exists_decoded h
  rfl

/-- No character's bytes begin those of another one, so what begins with the bytes of a text begins
with that text. -/
theorem exists_eq_append_of_encode {cs ds : List Char} {bs : Bytes}
    (h : encode cs = encode ds ++ bs) : ∃ rest, cs = ds ++ rest ∧ bs = encode rest := by
  have hdecode := decode_encode cs
  rw [h] at hdecode
  obtain ⟨k, hk⟩ := exists_decodeFrom_encode 0 [] ds bs
  obtain ⟨rest, rfl, hbs⟩ := exists_decoded (hk.symm.trans hdecode)
  exact ⟨rest, by simp, hbs⟩

/-- Bytes are a text exactly when they are its encoding. -/
theorem decode_eq_ok_iff {bs : Bytes} {cs : List Char} : decode bs = .ok cs ↔ bs = encode cs :=
  ⟨fun h => (encode_of_decode h).symm, fun h => h ▸ decode_encode cs⟩

theorem encodeChar_of_lt {c : Char} (h : c.toNat < 0x80) :
    encodeChar c = [UInt8.ofNat c.toNat] := by
  unfold encodeChar
  simp only [if_pos h]

/-- A byte below 80 stands for itself only. -/
theorem toNat_of_mem_encodeChar {c : Char} {b : UInt8} (h : b ∈ encodeChar c) :
    b.toNat = c.toNat ∨ 0x80 ≤ b.toNat := by
  have hr := toNat_range c
  have hbyte : ∀ {n : Nat}, n < 256 → (UInt8.ofNat n).toNat = n := toNat_ofNat_of_lt
  unfold encodeChar at h
  simp only at h
  split at h
  · rw [List.mem_singleton] at h
    left
    rw [h, hbyte (by omega)]
  · right
    split at h <;> try split at h
    all_goals
      simp only [List.mem_cons, List.not_mem_nil, or_false] at h
      rcases h with rfl | rfl | rfl | rfl <;> rw [hbyte (by omega)] <;> omega

theorem mem_of_mem_encode {cs : List Char} {b : UInt8} (h : b ∈ encode cs) (hb : b.toNat < 0x80) :
    Char.ofNat b.toNat ∈ cs := by
  obtain ⟨c, hc, hbc⟩ := List.mem_flatMap.mp h
  rcases toNat_of_mem_encodeChar hbc with he | hge
  · rwa [he, Char.ofNat_toNat]
  · omega

theorem encode_ne_nil {cs : List Char} (h : cs ≠ []) : encode cs ≠ [] := by
  intro hnil
  have hdecode := decode_encode cs
  rw [hnil] at hdecode
  cases hdecode
  exact h rfl

end Larder.Text.Utf8
