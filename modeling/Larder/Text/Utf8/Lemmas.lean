import Larder.Text.Utf8

/-! Decoding undoes encoding. Each character is taken back from its own bytes whatever follows
them, by the number of bytes it has; the rest is one induction over the text. -/

namespace Larder.Text.Utf8

theorem toNat_range (c : Char) :
    c.toNat < 0xD800 ∨ (0xDFFF < c.toNat ∧ c.toNat < 0x110000) := c.valid

theorem toNat_ofNat_of_lt {n : Nat} (h : n < 256) : (UInt8.ofNat n).toNat = n :=
  UInt8.toNat_ofNat_of_lt' h

theorem ofNat_lt_iff {n : Nat} (b : UInt8) (h : n < 256) : UInt8.ofNat n < b ↔ n < b.toNat := by
  rw [UInt8.lt_iff_toNat_lt, toNat_ofNat_of_lt h]

theorem le_ofNat_iff {n : Nat} (b : UInt8) (h : n < 256) :
    b ≤ UInt8.ofNat n ↔ b.toNat ≤ n := by
  rw [UInt8.le_iff_toNat_le, toNat_ofNat_of_lt h]

theorem ofNat_eq_iff {n : Nat} (b : UInt8) (h : n < 256) : UInt8.ofNat n = b ↔ n = b.toNat := by
  rw [← UInt8.toNat_inj, toNat_ofNat_of_lt h]

theorem isTail_ofNat {n : Nat} (h : n < 64) : isTail (UInt8.ofNat (0x80 + n)) = true := by
  have h' : 0x80 + n < 256 := by omega
  unfold isTail
  rw [Bool.and_eq_true, decide_eq_true_iff, decide_eq_true_iff, le_ofNat_iff _ h',
    ofNat_lt_iff _ h']
  exact ⟨by change 128 ≤ _; omega, by change _ < 192; omega⟩

theorem width_ofNat {n : Nat} (h : n < 256) :
    width (UInt8.ofNat n) =
      if n < 0x80 then some 1 else if n < 0xC2 then none else if n < 0xE0 then some 2
      else if n < 0xF0 then some 3 else if n < 0xF5 then some 4 else none := by
  unfold width
  simp only [ofNat_lt_iff _ h]
  rfl

theorem isSecond_ofNat {a n : Nat} (ha : a < 256) (h : n < 64)
    (h₀ : a = 0xE0 → 0x20 ≤ n) (h₁ : a = 0xED → n < 0x20) (h₂ : a = 0xF0 → 0x10 ≤ n)
    (h₃ : a = 0xF4 → n < 0x10) :
    isSecond (UInt8.ofNat a) (UInt8.ofNat (0x80 + n)) = true := by
  have hb : 0x80 + n < 256 := by omega
  unfold isSecond
  simp only [ofNat_eq_iff _ ha, le_ofNat_iff _ hb, ofNat_lt_iff _ hb]
  split
  · rename_i e
    have := h₀ e
    simp only [Bool.and_eq_true, decide_eq_true_eq]
    exact ⟨by change 160 ≤ _; omega, by change _ < 192; omega⟩
  · split
    · rename_i e
      have := h₁ e
      simp only [Bool.and_eq_true, decide_eq_true_eq]
      exact ⟨by change 128 ≤ _; omega, by change _ < 160; omega⟩
    · split
      · rename_i e
        have := h₂ e
        simp only [Bool.and_eq_true, decide_eq_true_eq]
        exact ⟨by change 144 ≤ _; omega, by change _ < 192; omega⟩
      · split
        · rename_i e
          have := h₃ e
          simp only [Bool.and_eq_true, decide_eq_true_eq]
          exact ⟨by change 128 ≤ _; omega, by change _ < 144; omega⟩
        · exact isTail_ofNat h

theorem decodeFrom_encodeChar (index : Nat) (done : List Char) (c : Char) (rest : Bytes) :
    ∃ k, decodeFrom index done (encodeChar c ++ rest) = decodeFrom k (c :: done) rest := by
  have hr := toNat_range c
  have hc : Char.ofNat c.toNat = c := Char.ofNat_toNat c
  unfold encodeChar
  generalize c.toNat = n at *
  simp only
  split
  · refine ⟨index + 1, ?_⟩
    have hn : n < 256 := by omega
    have hw : width (UInt8.ofNat n) = some 1 := by rw [width_ofNat hn, if_pos (by omega)]
    rw [List.cons_append, List.nil_append]
    conv => lhs; unfold decodeFrom
    simp only [hw, toNat_ofNat_of_lt hn, hc]
  · split
    · refine ⟨index + 2, ?_⟩
      have ha : 0xC0 + n / 64 < 256 := by omega
      have hb : 0x80 + n % 64 < 256 := by omega
      have hw : width (UInt8.ofNat (0xC0 + n / 64)) = some 2 := by
        rw [width_ofNat ha, if_neg (by omega), if_neg (by omega), if_pos (by omega)]
      have hchar : char2 (UInt8.ofNat (0xC0 + n / 64)) (UInt8.ofNat (0x80 + n % 64)) = c := by
        rw [char2, toNat_ofNat_of_lt ha, toNat_ofNat_of_lt hb,
          show (0xC0 + n / 64 - 0xC0) * 64 + (0x80 + n % 64 - 0x80) = n by omega, hc]
      simp only [List.cons_append, List.nil_append]
      conv => lhs; unfold decodeFrom
      simp only [hw, isTail_ofNat (show n % 64 < 64 by omega), hchar, if_true]
    · split
      · refine ⟨index + 3, ?_⟩
        have ha : 0xE0 + n / 4096 < 256 := by omega
        have hb : 0x80 + n / 64 % 64 < 256 := by omega
        have hd : 0x80 + n % 64 < 256 := by omega
        have hw : width (UInt8.ofNat (0xE0 + n / 4096)) = some 3 := by
          rw [width_ofNat ha, if_neg (by omega), if_neg (by omega), if_neg (by omega),
            if_pos (by omega)]
        have hs : isSecond (UInt8.ofNat (0xE0 + n / 4096))
            (UInt8.ofNat (0x80 + n / 64 % 64)) = true := by
          apply isSecond_ofNat ha <;> omega
        have hchar : char3 (UInt8.ofNat (0xE0 + n / 4096)) (UInt8.ofNat (0x80 + n / 64 % 64))
            (UInt8.ofNat (0x80 + n % 64)) = c := by
          rw [char3, toNat_ofNat_of_lt ha, toNat_ofNat_of_lt hb, toNat_ofNat_of_lt hd,
            show (0xE0 + n / 4096 - 0xE0) * 4096 + (0x80 + n / 64 % 64 - 0x80) * 64
              + (0x80 + n % 64 - 0x80) = n by omega, hc]
        simp only [List.cons_append, List.nil_append]
        conv => lhs; unfold decodeFrom
        simp only [hw, hs, isTail_ofNat (show n % 64 < 64 by omega), hchar, if_true]
      · refine ⟨index + 4, ?_⟩
        have ha : 0xF0 + n / 262144 < 256 := by omega
        have hb : 0x80 + n / 4096 % 64 < 256 := by omega
        have hd : 0x80 + n / 64 % 64 < 256 := by omega
        have he : 0x80 + n % 64 < 256 := by omega
        have hw : width (UInt8.ofNat (0xF0 + n / 262144)) = some 4 := by
          rw [width_ofNat ha, if_neg (by omega), if_neg (by omega), if_neg (by omega),
            if_neg (by omega), if_pos (by omega)]
        have hs : isSecond (UInt8.ofNat (0xF0 + n / 262144))
            (UInt8.ofNat (0x80 + n / 4096 % 64)) = true := by
          apply isSecond_ofNat ha <;> omega
        have hchar : char4 (UInt8.ofNat (0xF0 + n / 262144)) (UInt8.ofNat (0x80 + n / 4096 % 64))
            (UInt8.ofNat (0x80 + n / 64 % 64)) (UInt8.ofNat (0x80 + n % 64)) = c := by
          rw [char4, toNat_ofNat_of_lt ha, toNat_ofNat_of_lt hb, toNat_ofNat_of_lt hd,
            toNat_ofNat_of_lt he,
            show (0xF0 + n / 262144 - 0xF0) * 262144 + (0x80 + n / 4096 % 64 - 0x80) * 4096
              + (0x80 + n / 64 % 64 - 0x80) * 64 + (0x80 + n % 64 - 0x80) = n by omega, hc]
        simp only [List.cons_append, List.nil_append]
        conv => lhs; unfold decodeFrom
        simp only [hw, hs, isTail_ofNat (show n / 64 % 64 < 64 by omega),
          isTail_ofNat (show n % 64 < 64 by omega), hchar, if_true]

/-- The bytes of a text give that text, whatever follows them. -/
theorem exists_decodeFrom_encode (index : Nat) (done cs : List Char) (rest : Bytes) :
    ∃ k, decodeFrom index done (encode cs ++ rest) = decodeFrom k (cs.reverse ++ done) rest := by
  induction cs generalizing index done with
  | nil => exact ⟨index, rfl⟩
  | cons c cs ih =>
    obtain ⟨k, hk⟩ := decodeFrom_encodeChar index done c (encode cs ++ rest)
    rw [encode_cons, List.append_assoc, hk, List.reverse_cons, List.append_assoc]
    exact ih k (c :: done)

theorem decode_encode (cs : List Char) : decode (encode cs) = .ok cs := by
  obtain ⟨k, hk⟩ := exists_decodeFrom_encode 0 [] cs []
  rw [List.append_nil, List.append_nil] at hk
  rw [decode, hk, decodeFrom, List.reverse_reverse]

end Larder.Text.Utf8
