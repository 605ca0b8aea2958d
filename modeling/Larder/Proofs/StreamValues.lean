import Larder.Proofs.Numerals

/-! The values of a stream, by the text they stand in. A string that is read was a literal, and a
number that is read as a whole one was a numeral; a stream ends where only blanks are left. Lists,
objects and words are never either, so nothing has to be known about their insides. -/

namespace Larder.Json

open Text.Utf8

/-- Blanks, as they may stand in front of a value. -/
def Blanks (cs : List Char) : Prop := ∀ c ∈ cs, c ∈ [' ', '\t', '\n', '\r']

theorem blanks_nil : Blanks [] := by simp [Blanks]

theorem blanks_space : Blanks [' '] := by simp [Blanks]

section Skipping

theorem isBlankByte_of_mem {c : Char} (h : c ∈ [' ', '\t', '\n', '\r']) :
    c.toNat < 0x80 ∧ isBlankByte (UInt8.ofNat c.toNat) = true := by
  simp only [List.mem_cons, List.not_mem_nil, or_false] at h
  rcases h with rfl | rfl | rfl | rfl
  all_goals decide

theorem mem_of_isBlankByte {b : UInt8} (h : isBlankByte b = true) :
    b.toNat < 0x80 ∧ Char.ofNat b.toNat ∈ [' ', '\t', '\n', '\r'] := by
  simp only [isBlankByte, Bool.or_eq_true, beq_iff_eq] at h
  rcases h with ((rfl | rfl) | rfl) | rfl
  all_goals decide

theorem skipBlankFrom_blanks {cs : List Char} (h : Blanks cs) (p : Place) (rest : Bytes) :
    skipBlankFrom p (encode cs ++ rest) = skipBlankFrom (p.afterAll (encode cs)) rest := by
  induction cs generalizing p with
  | nil => rfl
  | cons c cs ih =>
    obtain ⟨hascii, hblank⟩ := isBlankByte_of_mem (h c List.mem_cons_self)
    rw [encode_cons_of_lt hascii, List.cons_append, skipBlankFrom, if_pos hblank,
      ih fun d hd => h d (List.mem_cons_of_mem c hd)]
    rfl

theorem endsValue_of_blanks {cs : List Char} (h : Blanks cs) :
    ∀ b ∈ (encode cs).head?, endsValue b = true := by
  cases cs with
  | nil => exact nofun
  | cons c cs =>
    obtain ⟨hascii, hblank⟩ := isBlankByte_of_mem (h c List.mem_cons_self)
    rw [encode_cons_of_lt hascii]
    rintro b ⟨⟩
    rw [endsValue, hblank]
    rfl

theorem exists_blanks (p : Place) (cs : List Char) :
    ∃ blanks rest, cs = blanks ++ rest ∧ Blanks blanks ∧
      (skipBlankFrom p (encode cs)).rest = encode rest := by
  generalize hbs : encode cs = bs
  fun_induction skipBlankFrom p bs generalizing cs with
  | case1 p => exact ⟨[], cs, rfl, blanks_nil, hbs.symm⟩
  | case2 p b bs hb ih =>
    obtain ⟨hascii, hblank⟩ := mem_of_isBlankByte hb
    obtain ⟨cs, rfl, rfl⟩ := exists_cons_of_encode hbs hascii
    obtain ⟨blanks, rest, rfl, hblanks, hrest⟩ := ih cs rfl
    exact ⟨_ :: blanks, rest, rfl, List.forall_mem_cons.mpr ⟨hblank, hblanks⟩, hrest⟩
  | case3 p b bs hb => exact ⟨[], cs, rfl, blanks_nil, hbs.symm⟩

end Skipping

section One

variable {v : Value} {c c' : Cursor}

theorem exists_array_of_readItems {one : Cursor → Reading Value} {fuel : Nat} {first : Bool}
    {done : List Value} (h : readItems one fuel first done c = .ok (v, c')) :
    ∃ items, v = .array items := by
  revert h
  fun_induction readItems one fuel first done c <;> intro h
  case case3 =>
    cases h
    exact ⟨_, rfl⟩
  case case5 ih => exact ih h
  all_goals cases h

theorem exists_object_of_readMembers {one : Cursor → Reading Value} {fuel : Nat} {first : Bool}
    {done : List (String × Value)} (h : readMembers one fuel first done c = .ok (v, c')) :
    ∃ fields, v = .object fields := by
  revert h
  fun_induction readMembers one fuel first done c <;> intro h
  case case3 =>
    cases h
    exact ⟨_, rfl⟩
  case case7 ih => exact ih h
  all_goals cases h

theorem exists_of_map_eq_ok {ε α β : Type} {f : α → β} {x : Except ε α} {b : β}
    (h : x.map f = .ok b) : ∃ a, x = .ok a ∧ f a = b := by
  cases x with
  | error e => cases h
  | ok a => exact ⟨a, rfl, Except.ok.inj h⟩

/-- Where a value comes from that may be a field of a record. -/
theorem text_or_number_of_readValueWith {inner : Option (Cursor → Reading Value)} {bound : Nat}
    (h : readValueWith inner bound c = .ok (v, c')) :
    (∃ s p bs, v = .text s ∧ c.skipBlank.rest = 34 :: bs ∧ readText p [] bs = .ok (s, c')) ∨
      (∃ n minus c₁, v = .number n ∧ readNumeral minus c₁ = .ok (n, c') ∧
        (minus = false → c₁ = c.skipBlank)) ∨
      (∀ s, v ≠ .text s) ∧ ∀ n, v ≠ .number n := by
  revert h
  fun_cases readValueWith inner bound c <;> intro h
  case case2 hrest =>
    obtain ⟨⟨s, c₁⟩, hread, hv⟩ := exists_of_map_eq_ok h
    cases hv
    exact .inl ⟨s, _, _, rfl, hrest, hread⟩
  case case4 =>
    obtain ⟨items, rfl⟩ := exists_array_of_readItems h
    exact .inr (.inr ⟨nofun, nofun⟩)
  case case6 =>
    obtain ⟨fields, rfl⟩ := exists_object_of_readMembers h
    exact .inr (.inr ⟨nofun, nofun⟩)
  case case7 | case8 | case9 =>
    obtain ⟨c₁, -, hv⟩ := exists_of_map_eq_ok h
    cases hv
    exact .inr (.inr ⟨nofun, nofun⟩)
  case case10 =>
    obtain ⟨⟨n, c₁⟩, hread, hv⟩ := exists_of_map_eq_ok h
    cases hv
    exact .inr (.inl ⟨n, true, _, rfl, hread, nofun⟩)
  case case11 =>
    obtain ⟨⟨n, c₁⟩, hread, hv⟩ := exists_of_map_eq_ok h
    cases hv
    exact .inr (.inl ⟨n, false, _, rfl, hread, fun _ => rfl⟩)
  all_goals cases h

end One

section Next

variable {cs : List Char} {p : Place} {c : Cursor}

theorem skipBlank_skipBlankFrom (p : Place) (bs : Bytes) :
    (skipBlankFrom p bs).skipBlank = skipBlankFrom p bs := by
  fun_induction skipBlankFrom p bs with
  | case1 => rfl
  | case2 p b bs hb ih => exact ih
  | case3 p b bs hb => exact skipBlank_of_not_blank (by simpa using hb) p bs

/-- Blanks in front of a value are passed over. -/
theorem nextValue_blanks (h : Blanks cs) (p : Place) (rest : Bytes) :
    nextValue ⟨p, encode cs ++ rest⟩ = nextValue ⟨p.afterAll (encode cs), rest⟩ := by
  simp only [nextValue, Cursor.skipBlank, skipBlankFrom_blanks h]

theorem blanks_of_nextValue (h : nextValue ⟨p, encode cs⟩ = .ok (none, c)) : Blanks cs := by
  obtain ⟨blanks, rest, rfl, hblanks, hrest⟩ := exists_blanks p cs
  unfold nextValue at h
  dsimp only at h
  split at h
  · rename_i hnil
    have hencode : encode rest = [] := hrest.symm.trans hnil
    cases rest with
    | nil => rwa [List.append_nil]
    | cons d rest => exact (encode_ne_nil (List.cons_ne_nil d rest) hencode).elim
  · split at h
    · cases h
    · split at h
      · cases h
      · split at h <;> cases h

theorem exists_readValueWith {v : Value} (h : nextValue ⟨p, encode cs⟩ = .ok (some v, c)) :
    ∃ blanks rest inner bound c₁, cs = blanks ++ rest ∧ Blanks blanks ∧
      c₁.skipBlank.rest = encode rest ∧ readValueWith inner bound c₁ = .ok (v, c) := by
  obtain ⟨blanks, rest, hcs, hblanks, hrest⟩ := exists_blanks p cs
  have hread : ∃ inner bound, readValueWith inner bound (skipBlankFrom p (encode cs)) =
      .ok (v, c) := by
    unfold nextValue at h
    dsimp only at h
    split at h
    · cases h
    · split at h
      · cases h
      · rename_i hvalue
        refine ⟨_, _, hvalue.trans ?_⟩
        split at h
        · cases h
          rfl
        · split at h
          · cases h
            rfl
          · cases h
  obtain ⟨inner, bound, hread⟩ := hread
  refine ⟨blanks, rest, inner, bound, _, hcs, hblanks, ?_, hread⟩
  rw [skipBlank_skipBlankFrom, hrest]

theorem exists_literal_of_nextValue {s : String}
    (h : nextValue ⟨p, encode cs⟩ = .ok (some (.text s), c)) :
    ∃ blanks body rest, cs = blanks ++ '"' :: (body ++ '"' :: rest) ∧ Blanks blanks ∧
      Spelling body s.toList ∧ c.rest = encode rest := by
  obtain ⟨blanks, cs, inner, bound, c₁, rfl, hblanks, hcs, hread⟩ := exists_readValueWith h
  rcases text_or_number_of_readValueWith hread with ⟨s, p, bs, hs, hbs, hread⟩ |
    ⟨n, _, _, hn, -, -⟩ | ⟨htext, -⟩
  · cases hs
    obtain ⟨cs, rfl, rfl⟩ := exists_cons_of_encode (hcs.symm.trans hbs) (by decide)
    obtain ⟨body, rest, rfl, hbody, hrest⟩ := exists_spelling_of_readText hread
    exact ⟨blanks, body, rest, rfl, hblanks, hbody, hrest⟩
  · cases hn
  · exact (htext s rfl).elim

theorem exists_numeral_of_nextValue {n : Nat}
    (h : nextValue ⟨p, encode cs⟩ = .ok (some (.number (.natural n)), c)) :
    n < significandBound ∧
      ∃ blanks rest, cs = blanks ++ (Nat.toDigits 10 n ++ rest) ∧ Blanks blanks ∧
        c.rest = encode rest := by
  obtain ⟨blanks, cs, inner, bound, c₁, rfl, hblanks, hcs, hread⟩ := exists_readValueWith h
  rcases text_or_number_of_readValueWith hread with ⟨s, _, _, hs, -, -⟩ |
    ⟨x, minus, c₂, hx, hnumeral, hc⟩ | ⟨-, hnumber⟩
  · cases hs
  · cases hx
    obtain rfl := minus_eq_false_of_readNumeral hnumeral
    generalize c₁.skipBlank = c₃ at hcs hc
    obtain rfl : c₂ = ⟨c₃.place, encode cs⟩ := by rw [hc rfl, ← hcs]
    obtain ⟨hn, rest, rfl, hrest⟩ := exists_numeral hnumeral
    exact ⟨hn, blanks, rest, rfl, hblanks, hrest⟩
  · exact (hnumber _ rfl).elim

end Next

end Larder.Json
