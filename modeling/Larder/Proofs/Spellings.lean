import Larder.Json.Parser
import Larder.Proofs.Utf8

/-! The grammar of string literals: a character stands for itself, or behind a backslash is one of
eight letters or one or two units of UTF-16 in hexadecimal digits. The reader takes a literal
exactly where the grammar has one, up to the quote that ends it. -/

namespace Larder.Json

open Text.Utf8

/-- What a letter behind a backslash stands for. -/
def letterEscapes : List (Char × Char) :=
  [('"', '"'), ('\\', '\\'), ('/', '/'), ('b', '\x08'), ('f', '\x0c'), ('n', '\n'), ('r', '\r'),
    ('t', '\t')]

/-- A hexadecimal digit, small or capital. -/
def HexDigit (c : Char) (k : Nat) : Prop :=
  k < 16 ∧ (c = Nat.digitChar k ∨ c = (Nat.digitChar k).toUpper)

instance (c : Char) (k : Nat) : Decidable (HexDigit c k) := inferInstanceAs (Decidable (_ ∧ _))

inductive HexUnit : List Char → Nat → Prop
  | mk {a b c d : Char} {i j k l : Nat} (ha : HexDigit a i) (hb : HexDigit b j)
      (hc : HexDigit c k) (hd : HexDigit d l) :
      HexUnit [a, b, c, d] (i * 4096 + j * 256 + k * 16 + l)

/-- How a character can be escaped. Half of a surrogate pair is no character. -/
inductive Escape : List Char → Char → Prop
  | letter {letter c : Char} (h : (letter, c) ∈ letterEscapes) : Escape ['\\', letter] c
  | unit {ds : List Char} {n : Nat} (hds : HexUnit ds n) (hn : n < 0xD800 ∨ 0xDFFF < n) :
      Escape ('\\' :: 'u' :: ds) (Char.ofNat n)
  | pair {ds es : List Char} {lead trail : Nat} (hds : HexUnit ds lead) (hes : HexUnit es trail)
      (hlead : 0xD800 ≤ lead ∧ lead ≤ 0xDBFF) (htrail : 0xDC00 ≤ trail ∧ trail ≤ 0xDFFF) :
      Escape ('\\' :: 'u' :: ds ++ '\\' :: 'u' :: es)
        (Char.ofNat (0x10000 + (lead - 0xD800) * 0x400 + (trail - 0xDC00)))

/-- What stands between the quotes of a literal, and the text it stands for. -/
inductive Spelling : List Char → List Char → Prop
  | nil : Spelling [] []
  | plain {c : Char} {written text : List Char} (hquote : c ≠ '"') (hslash : c ≠ '\\')
      (hc : 0x20 ≤ c.toNat) (h : Spelling written text) : Spelling (c :: written) (c :: text)
  | escape {e written text : List Char} {c : Char} (he : Escape e c) (h : Spelling written text) :
      Spelling (e ++ written) (c :: text)

theorem isLeadingSurrogate_iff {n : Nat} :
    isLeadingSurrogate n = true ↔ 0xD800 ≤ n ∧ n ≤ 0xDBFF := by
  rw [isLeadingSurrogate, Bool.and_eq_true, decide_eq_true_iff, decide_eq_true_iff]

theorem isTrailingSurrogate_iff {n : Nat} :
    isTrailingSurrogate n = true ↔ 0xDC00 ≤ n ∧ n ≤ 0xDFFF := by
  rw [isTrailingSurrogate, Bool.and_eq_true, decide_eq_true_iff, decide_eq_true_iff]

theorem afterAll_append (p : Place) (as bs : Bytes) :
    p.afterAll (as ++ bs) = (p.afterAll as).afterAll bs := List.foldl_append

theorem pushChar_of_lt {c : Char} (h : c.toNat < 0x80) (done : Bytes) :
    pushChar c done = UInt8.ofNat c.toNat :: done := by
  rw [pushChar, encodeChar_of_lt h]
  rfl

theorem reverse_pushChar_append (c : Char) (done : Bytes) (text : List Char) :
    (pushChar c done).reverse ++ encode text = done.reverse ++ encode (c :: text) := by
  rw [pushChar, List.reverseAux_eq, List.reverse_append, List.reverse_reverse, encode_cons,
    List.append_assoc]

section Bytes

variable {b : UInt8} {bs : Bytes} {c : Char} {cs : List Char} {n : Nat}

theorem encode_cons_of_lt (h : c.toNat < 0x80) (cs : List Char) :
    encode (c :: cs) = UInt8.ofNat c.toNat :: encode cs := by
  rw [encode_cons, encodeChar_of_lt h]
  rfl

/-- A byte below 80 is a character of its own. -/
theorem exists_cons_of_encode (h : encode cs = b :: bs) (hb : b.toNat < 0x80) :
    ∃ rest, cs = Char.ofNat b.toNat :: rest ∧ bs = encode rest := by
  have hc : (Char.ofNat b.toNat).toNat = b.toNat := toNat_char_ofNat (by omega)
  have hbytes : encode [Char.ofNat b.toNat] = [b] := by
    rw [encode_cons_of_lt (by omega), hc, UInt8.ofNat_toNat]
    rfl
  have hcs : encode cs = encode [Char.ofNat b.toNat] ++ bs := by
    rw [h, hbytes]
    rfl
  exact exists_eq_append_of_encode hcs

theorem hexValue?_of_hexDigit {k : Nat} (h : HexDigit c k) :
    c.toNat < 0x80 ∧ hexValue? (UInt8.ofNat c.toNat) = some k := by
  have hall : ∀ k < 16,
      ((Nat.digitChar k).toNat < 0x80 ∧
          hexValue? (UInt8.ofNat (Nat.digitChar k).toNat) = some k) ∧
        (Nat.digitChar k).toUpper.toNat < 0x80 ∧
          hexValue? (UInt8.ofNat (Nat.digitChar k).toUpper.toNat) = some k := by decide
  rcases h with ⟨hk, rfl | rfl⟩
  · exact (hall k hk).1
  · exact (hall k hk).2

theorem hexDigit_of_hexValue? {k : Nat} (h : hexValue? b = some k) :
    b.toNat < 0x80 ∧ HexDigit (Char.ofNat b.toNat) k := by
  have hall : ∀ n < 256, ∀ k ∈ hexValue? (UInt8.ofNat n), n < 0x80 ∧ HexDigit (Char.ofNat n) k := by
    decide +kernel
  exact hall b.toNat b.toNat_lt k (by rwa [UInt8.ofNat_toNat])

theorem simpleEscape?_of_mem {letter : Char} (h : (letter, c) ∈ letterEscapes) :
    letter.toNat < 0x80 ∧ c.toNat < 0x80 ∧
      simpleEscape? (UInt8.ofNat letter.toNat) = some (UInt8.ofNat c.toNat) := by
  have hall : ∀ x ∈ letterEscapes, x.1.toNat < 0x80 ∧ x.2.toNat < 0x80 ∧
      simpleEscape? (UInt8.ofNat x.1.toNat) = some (UInt8.ofNat x.2.toNat) := by decide
  exact hall _ h

theorem mem_of_simpleEscape? {letter : UInt8} (h : simpleEscape? letter = some b) :
    letter.toNat < 0x80 ∧ b.toNat < 0x80 ∧
      (Char.ofNat letter.toNat, Char.ofNat b.toNat) ∈ letterEscapes := by
  have hall : ∀ n < 256, ∀ v ∈ simpleEscape? (UInt8.ofNat n),
      n < 0x80 ∧ v.toNat < 0x80 ∧ (Char.ofNat n, Char.ofNat v.toNat) ∈ letterEscapes := by
    decide +kernel
  exact hall letter.toNat letter.toNat_lt b (by rwa [UInt8.ofNat_toNat])

/-- Four digits as bytes, with anything behind them. -/
theorem HexUnit.bytes {ds : List Char} (h : HexUnit ds n) :
    ∃ b₁ b₂ b₃ b₄, encode ds = [b₁, b₂, b₃, b₄] ∧ hexUnit? b₁ b₂ b₃ b₄ = some n := by
  cases h with
  | @mk a b c d _ _ _ _ ha hb hc hd =>
    obtain ⟨ha, hav⟩ := hexValue?_of_hexDigit ha
    obtain ⟨hb, hbv⟩ := hexValue?_of_hexDigit hb
    obtain ⟨hc, hcv⟩ := hexValue?_of_hexDigit hc
    obtain ⟨hd, hdv⟩ := hexValue?_of_hexDigit hd
    refine ⟨UInt8.ofNat a.toNat, UInt8.ofNat b.toNat, UInt8.ofNat c.toNat, UInt8.ofNat d.toNat,
      ?_, ?_⟩
    · rw [encode_cons_of_lt ha, encode_cons_of_lt hb, encode_cons_of_lt hc, encode_cons_of_lt hd]
      rfl
    · rw [hexUnit?, hav, hbv, hcv, hdv]

theorem exists_hexUnit {b₁ b₂ b₃ b₄ : UInt8} (h : encode cs = b₁ :: b₂ :: b₃ :: b₄ :: bs)
    (hunit : hexUnit? b₁ b₂ b₃ b₄ = some n) :
    ∃ ds rest, cs = ds ++ rest ∧ HexUnit ds n ∧ bs = encode rest := by
  unfold hexUnit? at hunit
  split at hunit
  · rename_i h₁ h₂ h₃ h₄
    obtain ⟨hlt₁, hdigit₁⟩ := hexDigit_of_hexValue? h₁
    obtain ⟨hlt₂, hdigit₂⟩ := hexDigit_of_hexValue? h₂
    obtain ⟨hlt₃, hdigit₃⟩ := hexDigit_of_hexValue? h₃
    obtain ⟨hlt₄, hdigit₄⟩ := hexDigit_of_hexValue? h₄
    obtain ⟨cs₁, rfl, hcs₁⟩ := exists_cons_of_encode h hlt₁
    obtain ⟨cs₂, rfl, hcs₂⟩ := exists_cons_of_encode hcs₁.symm hlt₂
    obtain ⟨cs₃, rfl, hcs₃⟩ := exists_cons_of_encode hcs₂.symm hlt₃
    obtain ⟨cs₄, rfl, hcs₄⟩ := exists_cons_of_encode hcs₃.symm hlt₄
    cases hunit
    exact ⟨_, cs₄, rfl, .mk hdigit₁ hdigit₂ hdigit₃ hdigit₄, hcs₄⟩
  · cases hunit

end Bytes

/-- A byte that a literal holds as it is. -/
def IsPlain (b : UInt8) : Prop := b ≠ 34 ∧ ¬ b < 32 ∧ b ≠ 92

theorem readText_plain (bs : Bytes) (h : ∀ b ∈ bs, IsPlain b) (p : Place) (done rest : Bytes) :
    readText p done (bs ++ rest) = readText (p.afterAll bs) (bs.reverseAux done) rest := by
  induction bs generalizing p done with
  | nil => rfl
  | cons b bs ih =>
    obtain ⟨h34, h32, h92⟩ := h b (by simp)
    rw [List.cons_append, readText.eq_def]
    simp only [h34, h32, h92, if_false, ne_eq, not_false_eq_true, if_true]
    exact ih (fun x hx => h x (List.mem_cons_of_mem b hx)) _ _

theorem isPlain_of_mem_encodeChar {c : Char} (hq : c ≠ '"') (hs : c ≠ '\\') (h : 0x20 ≤ c.toNat)
    {b : UInt8} (hb : b ∈ encodeChar c) : IsPlain b := by
  have hne : ∀ d : Char, c ≠ d → d.toNat < 0x80 → b.toNat ≠ d.toNat := by
    intro d hcd hd hbd
    rcases toNat_of_mem_encodeChar hb with he | hge
    · exact hcd (Char.toNat_inj.mp (he ▸ hbd))
    · omega
  refine ⟨fun h34 => hne '"' hq (by decide) (h34 ▸ rfl), ?_,
    fun h92 => hne '\\' hs (by decide) (h92 ▸ rfl)⟩
  rw [UInt8.lt_iff_toNat_lt]
  change ¬ b.toNat < 32
  rcases toNat_of_mem_encodeChar hb with he | hge <;> omega

theorem readText_char {c : Char} (hq : c ≠ '"') (hs : c ≠ '\\') (hc : 0x20 ≤ c.toNat) (p : Place)
    (done rest : Bytes) : readText p done (encodeChar c ++ rest) =
      readText (p.afterAll (encodeChar c)) (pushChar c done) rest :=
  readText_plain _ (fun _ => isPlain_of_mem_encodeChar hq hs hc) p done rest

/-- An escape reads as the character it stands for. -/
theorem Escape.readText {e : List Char} {c : Char} (h : Escape e c) (p : Place)
    (done rest : Bytes) :
    Json.readText p done (encode e ++ rest) =
      Json.readText (p.afterAll (encode e)) (pushChar c done) rest := by
  cases h with
  | @letter letter c hmem =>
    obtain ⟨hletter, hc, hsimple⟩ := simpleEscape?_of_mem hmem
    rw [encode_cons_of_lt (show '\\'.toNat < 0x80 by decide), encode_cons_of_lt hletter,
      pushChar_of_lt hc]
    conv => lhs; rw [readText.eq_def]
    simp [hsimple, Place.afterAll, encode]
  | @unit ds n hds hn =>
    obtain ⟨b₁, b₂, b₃, b₄, hbytes, hunit⟩ := hds.bytes
    have htrail : isTrailingSurrogate n = false := by
      rw [← Bool.not_eq_true, isTrailingSurrogate_iff]
      omega
    have hlead : isLeadingSurrogate n = false := by
      rw [← Bool.not_eq_true, isLeadingSurrogate_iff]
      omega
    rw [encode_cons_of_lt (show '\\'.toNat < 0x80 by decide),
      encode_cons_of_lt (show 'u'.toNat < 0x80 by decide), hbytes]
    conv => lhs; rw [readText.eq_def]
    simp [simpleEscape?, hunit, htrail, hlead, Place.afterAll]
  | @pair ds es lead trail hds hes hlead htrail =>
    obtain ⟨b₁, b₂, b₃, b₄, hbytes, hunit⟩ := hds.bytes
    obtain ⟨d₁, d₂, d₃, d₄, hbytes', hunit'⟩ := hes.bytes
    have hapart : isTrailingSurrogate lead = false := by
      rw [← Bool.not_eq_true, isTrailingSurrogate_iff]
      omega
    rw [← isLeadingSurrogate_iff] at hlead
    rw [← isTrailingSurrogate_iff] at htrail
    rw [encode_append, encode_cons_of_lt (show '\\'.toNat < 0x80 by decide),
      encode_cons_of_lt (show 'u'.toNat < 0x80 by decide), hbytes,
      encode_cons_of_lt (show '\\'.toNat < 0x80 by decide),
      encode_cons_of_lt (show 'u'.toNat < 0x80 by decide), hbytes']
    conv => lhs; rw [readText.eq_def]
    simp [simpleEscape?, hunit, hunit', hapart, hlead, htrail, Place.afterAll, joinSurrogates]

/-- What is read behind a backslash is an escape and then the rest. -/
theorem exists_escape {cs : List Char} {p : Place} {done : Bytes} {o : String × Cursor}
    (h : readText p done (92 :: encode cs) = .ok o) :
    ∃ e c rest p', '\\' :: cs = e ++ rest ∧ Escape e c ∧
      readText p' (pushChar c done) (encode rest) = .ok o := by
  generalize hbs : (92 : UInt8) :: encode cs = bs at h
  revert h
  fun_cases readText p done bs <;> intro h
  case case2 => cases hbs
  case case5 hb =>
    cases hbs
    exact (hb rfl).elim
  case case7 letter behind p v hv =>
    obtain ⟨-, hbs⟩ := List.cons.inj hbs
    obtain ⟨hletter, hvlt, hmem⟩ := mem_of_simpleEscape? hv
    obtain ⟨rest, rfl, rfl⟩ := exists_cons_of_encode hbs hletter
    refine ⟨_, _, rest, p, rfl, .letter hmem, ?_⟩
    rw [pushChar_of_lt (by rwa [toNat_char_ofNat (by omega)]), toNat_char_ofNat (by omega),
      UInt8.ofNat_toNat]
    exact h
  case case11 letter p _ hletter h₁ h₂ h₃ h₄ behind p' n hunit htrail hlead =>
    obtain ⟨-, hbs⟩ := List.cons.inj hbs
    obtain rfl := Decidable.not_not.mp hletter
    obtain ⟨rest, rfl, hrest⟩ := exists_cons_of_encode hbs (by decide)
    obtain ⟨ds, rest, rfl, hds, rfl⟩ := exists_hexUnit hrest.symm hunit
    rw [isTrailingSurrogate_iff] at htrail
    rw [Bool.not_eq_true', ← Bool.not_eq_true, isLeadingSurrogate_iff] at hlead
    exact ⟨_, _, rest, p', rfl, .unit hds (by omega), h⟩
  case case17 letter p _ hletter h₁ h₂ h₃ h₄ p₁ n hunit htrail hlead slash p₂ hslash u p₃ hu t₁ t₂
      t₃ t₄ behind p' m hunit' htrail' =>
    obtain ⟨-, hbs⟩ := List.cons.inj hbs
    obtain rfl := Decidable.not_not.mp hletter
    obtain rfl := Decidable.not_not.mp hslash
    obtain rfl := Decidable.not_not.mp hu
    obtain ⟨cs₁, rfl, hcs₁⟩ := exists_cons_of_encode hbs (by decide)
    obtain ⟨ds, cs₂, rfl, hds, hcs₂⟩ := exists_hexUnit hcs₁.symm hunit
    obtain ⟨cs₃, rfl, hcs₃⟩ := exists_cons_of_encode hcs₂.symm (by decide)
    obtain ⟨cs₄, rfl, hcs₄⟩ := exists_cons_of_encode hcs₃.symm (by decide)
    obtain ⟨es, rest, rfl, hes, rfl⟩ := exists_hexUnit hcs₄.symm hunit'
    rw [Bool.not_eq_true', Bool.not_eq_false, isLeadingSurrogate_iff] at hlead
    rw [isTrailingSurrogate_iff] at htrail'
    exact ⟨_, _, rest, p', by simp, .pair hds hes hlead htrail', h⟩
  all_goals cases h

section Spelling

variable {written text : List Char}

theorem Spelling.readText (h : Spelling written text) (p : Place) (done rest : Bytes) :
    Json.readText p done (encode written ++ rest) =
      Json.readText (p.afterAll (encode written)) (done.reverse ++ encode text).reverse rest := by
  induction h generalizing p done with
  | nil => simp [encode, Place.afterAll]
  | plain hquote hslash hc _ ih =>
    rw [encode_cons, List.append_assoc, readText_char hquote hslash hc, ih, afterAll_append,
      reverse_pushChar_append]
  | escape he _ ih =>
    rw [encode_append, List.append_assoc, he.readText, ih, afterAll_append,
      reverse_pushChar_append]

theorem readText_quote (p : Place) (text : List Char) (rest : Bytes) :
    readText p (encode text).reverse (34 :: rest) =
      .ok (String.ofList text, ⟨p.after 34, rest⟩) := by
  rw [readText.eq_def]
  simp [decode_encode]

/-- The part of a literal after its opening quote gives the text. -/
theorem Spelling.readText_quoted (h : Spelling written text) (p : Place) (rest : Bytes) :
    ∃ p', Json.readText p [] (encode (written ++ ['"']) ++ rest) =
      .ok (String.ofList text, ⟨p', rest⟩) := by
  refine ⟨(p.afterAll (encode written)).after 34, ?_⟩
  rw [encode_append, List.append_assoc, h.readText]
  exact readText_quote _ text rest

theorem of_readText_quote {p : Place} {done rest : Bytes} {s : String} {c : Cursor}
    (h : readText p done (34 :: rest) = .ok (s, c)) :
    c.rest = rest ∧ decode done.reverse = .ok s.toList := by
  rw [readText.eq_def] at h
  dsimp only at h
  rw [if_pos rfl] at h
  split at h
  · rename_i hdecode
    cases h
    rw [hdecode, String.toList_ofList]
    exact ⟨rfl, rfl⟩
  · cases h

/-- A control character as a byte. -/
theorem control_byte {a : Char} (h : a.toNat < 0x20) :
    UInt8.ofNat a.toNat < 32 ∧ UInt8.ofNat a.toNat ≠ 34 := by
  have hb : UInt8.ofNat a.toNat < 32 := by
    rw [UInt8.lt_iff_toNat_lt, toNat_ofNat_of_lt (by omega)]
    exact h
  exact ⟨hb, fun he => absurd (he ▸ hb) (by decide)⟩

theorem le_toNat_of_readText {a : Char} {cs : List Char} {p : Place} {done : Bytes}
    {o : String × Cursor} (h : readText p done (encode (a :: cs)) = .ok o) : 0x20 ≤ a.toNat := by
  refine Nat.le_of_not_lt fun hlt => ?_
  obtain ⟨hb, hne⟩ := control_byte hlt
  rw [encode_cons_of_lt (by omega), readText.eq_def] at h
  dsimp only at h
  rw [if_neg hne, if_pos hb] at h
  cases h

/-- What has been read up to a quote was spelled. The induction takes a character or an escape at a
time: of the bytes of one character, only the first is known to start one. -/
theorem exists_spelling {cs : List Char} {p : Place} {done : Bytes} {s : String} {c : Cursor}
    (h : readText p done (encode cs) = .ok (s, c)) :
    ∃ written text rest, cs = written ++ '"' :: rest ∧ Spelling written text ∧
      c.rest = encode rest ∧ decode (done.reverse ++ encode text) = .ok s.toList := by
  induction hn : cs.length using Nat.strongRecOn generalizing cs p done with
  | ind n ih =>
    cases cs with
    | nil => cases h
    | cons a cs =>
      have hcontrol := le_toNat_of_readText h
      by_cases hquote : a = '"'
      · subst hquote
        rw [encode_cons_of_lt (by decide)] at h
        obtain ⟨hrest, hs⟩ := of_readText_quote h
        exact ⟨[], [], cs, rfl, .nil, hrest, by rwa [encode, List.flatMap_nil, List.append_nil]⟩
      by_cases hslash : a = '\\'
      · subst hslash
        rw [encode_cons_of_lt (by decide)] at h
        obtain ⟨e, a, rest, p', hcs, he, h⟩ := exists_escape h
        have hlength : rest.length < n := by
          have hpos : 0 < e.length := by cases he <;> simp
          have hall := congrArg List.length hcs
          rw [hn, List.length_append] at hall
          omega
        obtain ⟨written, text, rest, rfl, htext, hrest, hs⟩ := ih _ hlength h rfl
        exact ⟨e ++ written, a :: text, rest, by rw [hcs, List.append_assoc], .escape he htext,
          hrest, by rw [← reverse_pushChar_append, hs]⟩
      rw [encode_cons, readText_char hquote hslash hcontrol] at h
      obtain ⟨written, text, rest, rfl, htext, hrest, hs⟩ := ih _ (by simp at hn; omega) h rfl
      exact ⟨a :: written, a :: text, rest, rfl, .plain hquote hslash hcontrol htext, hrest,
        by rw [← reverse_pushChar_append, hs]⟩

/-- What is read behind a quote spells the text, up to the next quote. -/
theorem exists_spelling_of_readText {cs : List Char} {p : Place} {s : String} {c : Cursor}
    (h : readText p [] (encode cs) = .ok (s, c)) :
    ∃ written rest, cs = written ++ '"' :: rest ∧ Spelling written s.toList ∧
      c.rest = encode rest := by
  obtain ⟨written, text, rest, rfl, hwritten, hrest, htext⟩ := exists_spelling h
  rw [List.reverse_nil, List.nil_append, decode_encode] at htext
  rw [Except.ok.inj htext] at hwritten
  exact ⟨written, rest, rfl, hwritten, hrest⟩

end Spelling

end Larder.Json
