import Larder.Proofs.Literals

/-! A whole number below 2^64 in decimal reads back as itself where nothing follows that goes on
with it: it starts with a zero only if it is zero, and none of its digits takes the significand over
the bound. And it is the only numeral that is read as this number. -/

namespace Larder.Json

open Text.Utf8

theorem isDigit_iff {c : Char} : c.isDigit = true ↔ 48 ≤ c.toNat ∧ c.toNat ≤ 57 := by
  rw [Char.isDigit, Bool.and_eq_true, decide_eq_true_iff, decide_eq_true_iff]
  exact Iff.rfl

/-- A digit of a text as a byte. -/
theorem digit_byte {c : Char} (h : c.isDigit = true) :
    encodeChar c = [UInt8.ofNat c.toNat] ∧ isDigitByte (UInt8.ofNat c.toNat) = true ∧
      digitOf (UInt8.ofNat c.toNat) = c.toNat - 48 := by
  rw [isDigit_iff] at h
  have hb : (UInt8.ofNat c.toNat).toNat = c.toNat := toNat_ofNat_of_lt (by omega)
  refine ⟨encodeChar_of_lt (by omega), ?_, ?_⟩
  · rw [isDigitByte, Bool.and_eq_true, decide_eq_true_iff, decide_eq_true_iff,
      UInt8.le_iff_toNat_le, UInt8.le_iff_toNat_le, hb]
    exact h
  · rw [digitOf, hb]

theorem le_ofDigitChars (ds : List Char) (n : Nat) : n ≤ Nat.ofDigitChars 10 ds n := by
  rw [Nat.ofDigitChars_eq_ofDigitChars_zero]
  exact Nat.le_trans (Nat.le_mul_of_pos_left n (Nat.pow_pos (by decide))) (Nat.le_add_right _ _)

theorem ofDigitChars_step (c : Char) (ds : List Char) (s : Nat) :
    Nat.ofDigitChars 10 (c :: ds) s = Nat.ofDigitChars 10 ds (s * 10 + (c.toNat - 48)) := by
  rw [Nat.ofDigitChars_cons, Nat.mul_comm]
  rfl

theorem ends_of_endsValue {b : UInt8} (h : endsValue b = true) :
    isDigitByte b = false ∧ b ≠ 46 ∧ ¬(b = 101 ∨ b = 69) := by
  simp only [endsValue, isBlankByte, Bool.or_eq_true, beq_iff_eq] at h
  rcases h with (((((((((rfl | rfl) | rfl) | rfl) | rfl) | rfl) | rfl) | rfl) | rfl) | rfl) | rfl
  all_goals decide

section Ended

variable {rest : Bytes} (hrest : ∀ b ∈ rest.head?, endsValue b = true)

include hrest

theorem takeDigits_ended (p : Place) (s count : Nat) :
    takeDigits p s count rest = ⟨s, count, ⟨p, rest⟩⟩ := by
  cases rest with
  | nil => rfl
  | cons b rest => rw [takeDigits, (ends_of_endsValue (hrest b rfl)).1, if_neg (by simp)]

theorem dropDigits_ended (p : Place) (count : Nat) :
    dropDigits p count rest = (count, ⟨p, rest⟩) := by
  cases rest with
  | nil => rfl
  | cons b rest => rw [dropDigits, (ends_of_endsValue (hrest b rfl)).1, if_neg (by simp)]

theorem readAfterWhole_ended (p : Place) (s : Nat) :
    readAfterWhole false s 0 ⟨p, rest⟩ = .ok (.natural s, ⟨p, rest⟩) := by
  cases rest with
  | nil => rfl
  | cons b rest =>
    obtain ⟨-, hpoint, hexponent⟩ := ends_of_endsValue (hrest b rfl)
    simp only [readAfterWhole, hpoint, hexponent, if_false, if_true]
    rfl

theorem takeDigits_digits (ds : List Char) (hds : ∀ c ∈ ds, c.isDigit = true) (p : Place)
    (s count : Nat) (h : Nat.ofDigitChars 10 ds s < significandBound) :
    takeDigits p s count (encode ds ++ rest) =
      ⟨Nat.ofDigitChars 10 ds s, count + ds.length, ⟨p.afterAll (encode ds), rest⟩⟩ := by
  induction ds generalizing p s count with
  | nil => exact takeDigits_ended hrest p s count
  | cons c ds ih =>
    obtain ⟨hbyte, hdigit, hvalue⟩ := digit_byte (hds c (by simp))
    rw [ofDigitChars_step] at h
    have hfits : s * 10 + (c.toNat - 48) < significandBound :=
      Nat.lt_of_le_of_lt (le_ofDigitChars ds _) h
    rw [encode_cons, hbyte, List.singleton_append, List.cons_append, takeDigits, hdigit, hvalue,
      Bool.true_and, if_pos (decide_eq_true hfits),
      ih (fun x hx => hds x (List.mem_cons_of_mem c hx)) _ _ _ h, ofDigitChars_step,
      List.length_cons, show count + 1 + ds.length = count + (ds.length + 1) by omega]
    rfl

end Ended

theorem exists_toDigits_eq_cons {n : Nat} (h : 0 < n) :
    ∃ d ds, Nat.toDigits 10 n = Nat.digitChar d :: ds ∧ 0 < d ∧ d < 10 := by
  induction n using Nat.base_induction 10 (by decide) with
  | single m hm => exact ⟨m, [], Nat.toDigits_of_lt_base hm, h, hm⟩
  | digit m k hk hm ih =>
    obtain ⟨d, ds, hds, hd⟩ := ih hm
    refine ⟨d, ds ++ Nat.toDigits 10 k, ?_, hd⟩
    rw [← Nat.toDigits_append_toDigits (by decide) hm hk, hds, List.cons_append]

theorem isDigit_digitChar : ∀ d < 10, (Nat.digitChar d).isDigit = true := by decide

theorem toNat_digitChar : ∀ d < 10, (Nat.digitChar d).toNat = 48 + d := by decide

/-- A byte that is a digit, as a character. -/
theorem digit_char {b : UInt8} (h : isDigitByte b = true) :
    digitOf b < 10 ∧ b.toNat = 48 + digitOf b ∧
      Char.ofNat b.toNat = Nat.digitChar (digitOf b) := by
  rw [isDigitByte, Bool.and_eq_true, decide_eq_true_iff, decide_eq_true_iff,
    UInt8.le_iff_toNat_le, UInt8.le_iff_toNat_le] at h
  obtain ⟨hlow, hhigh⟩ : 48 ≤ b.toNat ∧ b.toNat ≤ 57 := h
  have hvalue : b.toNat = 48 + digitOf b := by
    rw [digitOf]
    omega
  refine ⟨by omega, hvalue, Char.toNat_inj.mp ?_⟩
  rw [toNat_char_ofNat (by omega), toNat_digitChar _ (by omega), hvalue]

theorem exists_digitChar {c : Char} (h : c.isDigit = true) : ∃ d < 10, c = Nat.digitChar d := by
  rw [isDigit_iff] at h
  refine ⟨c.toNat - 48, by omega, Char.toNat_inj.mp ?_⟩
  rw [toNat_digitChar _ (by omega)]
  omega

theorem readNumeral_toDigits {n : Nat} (h : n < significandBound) {rest : Bytes}
    (hrest : ∀ b ∈ rest.head?, endsValue b = true) (p : Place) :
    ∃ p', readNumeral false ⟨p, encode (Nat.toDigits 10 n) ++ rest⟩ =
      .ok (.natural n, ⟨p', rest⟩) := by
  rcases Nat.eq_zero_or_pos n with rfl | hpos
  · have hstart : startsWithDigit rest = false := by
      cases rest with
      | nil => rfl
      | cons b rest => exact (ends_of_endsValue (hrest b rfl)).1
    refine ⟨p.after 48, ?_⟩
    rw [show encode (Nat.toDigits 10 0) = [48] from rfl, List.singleton_append, readNumeral]
    simp only [if_true, hstart]
    exact readAfterWhole_ended hrest (p.after 48) 0
  · obtain ⟨d, ds, hn, hd, hd10⟩ := exists_toDigits_eq_cons hpos
    have hdigits : ∀ c ∈ Nat.digitChar d :: ds, c.isDigit = true := by
      intro c hc
      exact Nat.isDigit_of_mem_toDigits (by decide) (by decide) (hn ▸ hc)
    obtain ⟨hbyte, hdigit, hvalue⟩ := digit_byte (isDigit_digitChar d hd10)
    rw [toNat_digitChar d hd10] at hbyte hdigit hvalue
    have hval : Nat.ofDigitChars 10 ds (48 + d - 48) = n := by
      have := Nat.ofDigitChars_ten_toDigits (n := n)
      rw [hn, ofDigitChars_step, toNat_digitChar d hd10, Nat.zero_mul, Nat.zero_add] at this
      exact this
    have hne : UInt8.ofNat (48 + d) ≠ 48 := by
      intro he
      have := (ofNat_eq_iff (n := 48 + d) 48 (by omega)).mp he
      change 48 + d = 48 at this
      omega
    refine ⟨(p.after (UInt8.ofNat (48 + d))).afterAll (encode ds), ?_⟩
    rw [hn, encode_cons, hbyte, List.singleton_append, List.cons_append, readNumeral]
    simp only [hne, hdigit, hvalue, if_false, if_true]
    rw [takeDigits_digits hrest ds (fun c hc => hdigits c (List.mem_cons_of_mem _ hc)) _ _ _
      (hval ▸ h), hval, dropDigits_ended hrest]
    exact readAfterWhole_ended hrest _ n

theorem ne_of_isDigitByte {a b : UInt8} (hb : isDigitByte b = true)
    (ha : isDigitByte a = false) : b ≠ a := by
  rintro rfl
  rw [ha] at hb
  cases hb

theorem isBlankByte_of_isDigitByte {b : UInt8} (hb : isDigitByte b = true) :
    isBlankByte b = false := by
  simp only [isBlankByte, Bool.or_eq_false_iff, beq_eq_false_iff_ne]
  exact ⟨⟨⟨ne_of_isDigitByte hb (by decide), ne_of_isDigitByte hb (by decide)⟩,
    ne_of_isDigitByte hb (by decide)⟩, ne_of_isDigitByte hb (by decide)⟩

theorem readValue_digit {b : UInt8} (hb : isDigitByte b = true) (bound depth : Nat) (p : Place)
    (rest : Bytes) :
    readValue bound depth ⟨p, b :: rest⟩ =
      (readNumeral false ⟨p, b :: rest⟩).map fun (n, c) => (.number n, c) := by
  have hwith : ∀ inner, readValueWith inner bound ⟨p, b :: rest⟩ =
      (readNumeral false ⟨p, b :: rest⟩).map fun (n, c) => (.number n, c) := by
    intro inner
    rw [readValueWith.eq_def, skipBlank_of_not_blank (isBlankByte_of_isDigitByte hb)]
    simp only [hb, if_true, ne_of_isDigitByte hb (show isDigitByte 34 = false by decide),
      ne_of_isDigitByte hb (show isDigitByte 91 = false by decide),
      ne_of_isDigitByte hb (show isDigitByte 123 = false by decide),
      ne_of_isDigitByte hb (show isDigitByte 110 = false by decide),
      ne_of_isDigitByte hb (show isDigitByte 116 = false by decide),
      ne_of_isDigitByte hb (show isDigitByte 102 = false by decide),
      ne_of_isDigitByte hb (show isDigitByte 45 = false by decide), if_false]
  cases depth <;> exact hwith _

/-- A numeral is the next value of a stream where something that ends it follows. -/
theorem nextValue_toDigits {n : Nat} (h : n < significandBound) {rest : Bytes}
    (hrest : ∀ b ∈ rest.head?, endsValue b = true) (p : Place) :
    ∃ p', nextValue ⟨p, encode (Nat.toDigits 10 n) ++ rest⟩ =
      .ok (some (.number (.natural n)), ⟨p', rest⟩) := by
  obtain ⟨p', hread⟩ := readNumeral_toDigits h hrest p
  refine ⟨p', ?_⟩
  obtain ⟨c, ds, hds⟩ := List.exists_cons_of_ne_nil (Nat.toDigits_ne_nil (n := n) (b := 10))
  have hc : c.isDigit = true :=
    Nat.isDigit_of_mem_toDigits (b := 10) (n := n) (by decide) (by decide) (hds ▸ by simp)
  obtain ⟨hbyte, hdigit, -⟩ := digit_byte hc
  rw [hds, encode_cons, hbyte, List.singleton_append, List.cons_append] at hread ⊢
  rw [nextValue, skipBlank_of_not_blank (isBlankByte_of_isDigitByte hdigit)]
  simp only [readValue_digit hdigit, hread, Except.map]
  cases rest with
  | nil => rfl
  | cons b rest => simp [hrest b rfl]

/-! A number is read as a whole one only where it has neither a fraction nor an exponent, no minus,
and all its digits fit; and a numeral has one way to be written. -/

section Natural

variable {minus : Bool} {s n : Nat} {c c' : Cursor} {x : Number}

theorem exists_double_of_doubleAt {e : Int} (h : doubleAt minus s e c = .ok (x, c')) :
    ∃ size, x = .double minus size := by
  unfold doubleAt at h
  split at h
  · cases h
    exact ⟨_, rfl⟩
  · cases h

theorem exists_double_of_readExponent {shift : Int}
    (h : readExponent minus s shift c = .ok (x, c')) : ∃ size, x = .double minus size := by
  revert h
  fun_cases readExponent minus s shift c <;> intro h
  case case3 => exact exists_double_of_doubleAt h
  case case5 =>
    cases h
    exact ⟨_, rfl⟩
  all_goals cases h

theorem exists_double_of_readAfterFraction {shift : Int}
    (h : readAfterFraction minus s shift c = .ok (x, c')) : ∃ size, x = .double minus size := by
  unfold readAfterFraction at h
  split at h
  · exact exists_double_of_readExponent h
  · exact exists_double_of_doubleAt h

theorem exists_double_of_readFraction {shift : Int}
    (h : readFraction minus s shift c = .ok (x, c')) : ∃ size, x = .double minus size := by
  unfold readFraction at h
  dsimp only at h
  split at h
  · exact exists_double_of_readAfterFraction h
  split at h
  · cases h
  · exact exists_double_of_readAfterFraction h

theorem natural_of_wholeNumber (h : wholeNumber minus s = .natural n) : minus = false ∧ n = s := by
  unfold wholeNumber at h
  split at h
  · rename_i hminus
    cases h
    exact ⟨by simpa using hminus, rfl⟩
  · split at h <;> cases h

theorem natural_of_readAfterWhole {dropped : Nat}
    (h : readAfterWhole minus s dropped c = .ok (.natural n, c')) :
    minus = false ∧ n = s ∧ dropped = 0 ∧ c' = c := by
  have hwhole : ∀ {c : Cursor}, (Except.ok (wholeNumber minus s, c) : Except Fault _) =
      .ok (.natural n, c') → minus = false ∧ n = s ∧ c' = c := by
    intro c h
    obtain ⟨hn, hc⟩ := Prod.mk.inj (Except.ok.inj h)
    obtain ⟨hminus, hn⟩ := natural_of_wholeNumber hn
    exact ⟨hminus, hn, hc.symm⟩
  have hdouble : ∀ {P : Prop}, (∃ size, Number.natural n = .double minus size) → P := by
    rintro P ⟨size, h⟩
    cases h
  unfold readAfterWhole at h
  split at h
  · split at h
    · rename_i hdropped
      obtain ⟨hminus, hn, hc⟩ := hwhole h
      exact ⟨hminus, hn, hdropped, hc⟩
    · exact hdouble (exists_double_of_doubleAt h)
  · split at h
    · exact hdouble (exists_double_of_readFraction h)
    split at h
    · exact hdouble (exists_double_of_readExponent h)
    split at h
    · rename_i hdropped
      obtain ⟨hminus, hn, hc⟩ := hwhole h
      exact ⟨hminus, hn, hdropped, hc⟩
    · exact hdouble (exists_double_of_doubleAt h)

theorem minus_eq_false_of_readNumeral (h : readNumeral minus c = .ok (.natural n, c')) :
    minus = false := by
  unfold readNumeral at h
  split at h
  · cases h
  · split at h
    · split at h
      · cases h
      · exact (natural_of_readAfterWhole h).1
    · split at h
      · exact (natural_of_readAfterWhole h).1
      · cases h

end Natural

/-- The digits that have been taken, all of which fit. -/
theorem exists_digits (p : Place) {s : Nat} (count : Nat) (cs : List Char)
    (hs : s < significandBound) :
    ∃ ds rest, cs = ds ++ rest ∧ (∀ c ∈ ds, c.isDigit = true) ∧
      (takeDigits p s count (encode cs)).significand = Nat.ofDigitChars 10 ds s ∧
      Nat.ofDigitChars 10 ds s < significandBound ∧
      (takeDigits p s count (encode cs)).cursor.rest = encode rest := by
  generalize hbs : encode cs = bs
  fun_induction takeDigits p s count bs generalizing cs with
  | case1 p s count => exact ⟨[], cs, rfl, by simp, rfl, hs, hbs.symm⟩
  | case2 p s count b bs hfits ih =>
    obtain ⟨hdigit, hlt⟩ : isDigitByte b = true ∧ s * 10 + digitOf b < significandBound := by
      simpa using hfits
    obtain ⟨hd, hb, hchar⟩ := digit_char hdigit
    obtain ⟨cs, rfl, hbs'⟩ := exists_cons_of_encode hbs (by omega)
    obtain ⟨ds, rest, rfl, hds, hsignificand, hbound, hrest⟩ := ih cs hlt hbs'.symm
    have hstep : Nat.ofDigitChars 10 ds (s * 10 + digitOf b) =
        Nat.ofDigitChars 10 (Nat.digitChar (digitOf b) :: ds) s := by
      rw [ofDigitChars_step, toNat_digitChar _ hd, Nat.add_sub_cancel_left]
    rw [hchar]
    exact ⟨_ :: ds, rest, rfl, List.forall_mem_cons.mpr ⟨isDigit_digitChar _ hd, hds⟩,
      hsignificand.trans hstep, hstep ▸ hbound, hrest⟩
  | case3 p s count b bs hfits => exact ⟨[], cs, rfl, by simp, rfl, hs, hbs.symm⟩

theorem le_dropDigits (p : Place) (count : Nat) (bs : Bytes) :
    count ≤ (dropDigits p count bs).1 := by
  fun_induction dropDigits p count bs with
  | case1 => exact Nat.le_refl _
  | case2 p count b bs _ ih => exact Nat.le_of_succ_le ih
  | case3 => exact Nat.le_refl _

theorem dropDigits_of_fst_eq_zero {p : Place} {bs : Bytes} (h : (dropDigits p 0 bs).1 = 0) :
    dropDigits p 0 bs = (0, ⟨p, bs⟩) := by
  cases bs with
  | nil => rfl
  | cons b bs =>
    by_cases hb : isDigitByte b = true
    · rw [dropDigits, if_pos hb] at h
      have := le_dropDigits (p.after b) (0 + 1) bs
      omega
    · rw [dropDigits, if_neg hb]

/-- A numeral that does not begin with a zero is the canonical one of its value. -/
theorem toDigits_ofDigitChars {k : Nat} (hk : 0 < k) {ds : List Char}
    (hds : ∀ c ∈ ds, c.isDigit = true) :
    Nat.toDigits 10 (Nat.ofDigitChars 10 ds k) = Nat.toDigits 10 k ++ ds := by
  induction ds generalizing k with
  | nil => simp [Nat.ofDigitChars]
  | cons c ds ih =>
    obtain ⟨d, hd, rfl⟩ := exists_digitChar (hds c List.mem_cons_self)
    have hnext := Nat.toDigits_append_toDigits (b := 10) (by decide) hk hd
    rw [ofDigitChars_step, toNat_digitChar d hd, Nat.add_sub_cancel_left, Nat.mul_comm,
      ih (by omega) fun x hx => hds x (List.mem_cons_of_mem _ hx), ← hnext,
      Nat.toDigits_of_lt_base hd, List.append_assoc, List.singleton_append]

/-- A whole number in decimal, without a zero in front. -/
structure Numeral (ds : List Char) (n : Nat) : Prop where
  ne_nil : ds ≠ []
  digits : ∀ c ∈ ds, c.isDigit = true
  canonical : ∀ rest, ds = '0' :: rest → rest = []
  value : Nat.ofDigitChars 10 ds 0 = n

theorem numeral_iff {ds : List Char} {n : Nat} : Numeral ds n ↔ ds = Nat.toDigits 10 n := by
  constructor
  · rintro ⟨hne, hdigits, hcanonical, rfl⟩
    obtain ⟨c, rest, rfl⟩ := List.exists_cons_of_ne_nil hne
    obtain ⟨d, hd, rfl⟩ := exists_digitChar (hdigits c List.mem_cons_self)
    rw [ofDigitChars_step, toNat_digitChar d hd, Nat.add_sub_cancel_left, Nat.zero_mul,
      Nat.zero_add]
    rcases Nat.eq_zero_or_pos d with rfl | hpos
    · rw [hcanonical rest rfl]
      rfl
    · rw [toDigits_ofDigitChars hpos fun c hc => hdigits c (List.mem_cons_of_mem _ hc),
        Nat.toDigits_of_lt_base hd]
      rfl
  · rintro rfl
    refine ⟨Nat.toDigits_ne_nil, fun c => Nat.isDigit_of_mem_toDigits (by decide) (by decide), ?_,
      Nat.ofDigitChars_ten_toDigits⟩
    intro rest hrest
    rcases Nat.eq_zero_or_pos n with rfl | hpos
    · exact (List.cons.inj hrest).2.symm
    · obtain ⟨d, ds, hn, hd, hd10⟩ := exists_toDigits_eq_cons hpos
      have hzero := congrArg Char.toNat (List.cons.inj (hn.symm.trans hrest)).1
      rw [toNat_digitChar d hd10] at hzero
      change 48 + d = 48 at hzero
      omega

/-- A number that is read as a whole one stands there as the numeral of its value. -/
theorem exists_numeral {n : Nat} {cs : List Char} {p : Place} {c : Cursor}
    (h : readNumeral false ⟨p, encode cs⟩ = .ok (.natural n, c)) :
    n < significandBound ∧ ∃ rest, cs = Nat.toDigits 10 n ++ rest ∧ c.rest = encode rest := by
  generalize hbs : encode cs = bs at h
  unfold readNumeral at h
  dsimp only at h
  split at h
  · cases h
  · rename_i b bs
    split at h
    · rename_i hb
      subst hb
      obtain ⟨rest, rfl, rfl⟩ := exists_cons_of_encode hbs (by decide)
      split at h
      · cases h
      · obtain ⟨-, rfl, -, rfl⟩ := natural_of_readAfterWhole h
        exact ⟨by decide, rest, rfl, rfl⟩
    · rename_i hzero
      split at h
      · rename_i hdigit
        obtain ⟨hd, hb, hchar⟩ := digit_char hdigit
        have hpos : 0 < digitOf b := by
          have : b.toNat ≠ 48 := fun he => hzero (UInt8.toNat_inj.mp he)
          omega
        obtain ⟨cs, rfl, rfl⟩ := exists_cons_of_encode hbs (by omega)
        obtain ⟨ds, rest, rfl, hds, hsignificand, hbound, hrest⟩ :=
          exists_digits (p.after b) (s := digitOf b) 0 cs (Nat.lt_trans hd (by decide))
        generalize takeDigits (p.after b) (digitOf b) 0 (encode (ds ++ rest)) = taken
          at h hsignificand hrest
        obtain ⟨-, rfl, hdropped, rfl⟩ := natural_of_readAfterWhole h
        refine ⟨hsignificand ▸ hbound, rest, ?_, ?_⟩
        · rw [hchar, hsignificand, toDigits_ofDigitChars hpos hds, Nat.toDigits_of_lt_base hd]
          rfl
        · rw [dropDigits_of_fst_eq_zero hdropped]
          exact hrest
      · cases h

end Larder.Json
