import Larder.Json.Skip
import Larder.Proofs.StreamValues

/-! The grammar of JSON values, whatever they mean: a literal may hold half of a surrogate pair, a
number may have any exponent, an object the same name twice, and nothing limits the depth. The
parts of it that hold no other values are passed over from the first character to the last, by the
reader that keeps nothing. -/

namespace Larder.Json

open Text.Utf8

/-- What stands between the quotes of a literal. Any unit of UTF-16 may be escaped. -/
inductive Quoted : List Char → Prop
  | nil : Quoted []
  | plain {c : Char} {cs : List Char} (hquote : c ≠ '"') (hslash : c ≠ '\\') (hc : 0x20 ≤ c.toNat)
      (h : Quoted cs) : Quoted (c :: cs)
  | letter {letter c : Char} {cs : List Char} (hletter : (letter, c) ∈ letterEscapes)
      (h : Quoted cs) : Quoted ('\\' :: letter :: cs)
  | unit {ds cs : List Char} {n : Nat} (hds : HexUnit ds n) (h : Quoted cs) :
      Quoted ('\\' :: 'u' :: (ds ++ cs))

/-- One or more decimal digits. -/
structure DigitRun (ds : List Char) : Prop where
  ne_nil : ds ≠ []
  digits : ∀ c ∈ ds, c.isDigit = true

inductive Fraction : List Char → Prop
  | absent : Fraction []
  | present {ds : List Char} (hds : DigitRun ds) : Fraction ('.' :: ds)

inductive Exponent : List Char → Prop
  | absent : Exponent []
  | present {e : Char} {sign ds : List Char} (he : e ∈ ['e', 'E'])
      (hsign : sign ∈ [[], ['+'], ['-']]) (hds : DigitRun ds) : Exponent (e :: (sign ++ ds))

/-- A number, whole or not. -/
inductive NumberForm : List Char → Prop
  | mk {sign whole fraction exponent : List Char} {n : Nat} (hsign : sign ∈ [[], ['-']])
      (hwhole : Numeral whole n) (hfraction : Fraction fraction) (hexponent : Exponent exponent) :
      NumberForm (sign ++ (whole ++ (fraction ++ exponent)))

/-- A value with the blanks around it. -/
inductive Element : List Char → List Char → Prop
  | mk {b₁ v b₂ : List Char} (h₁ : Blanks b₁) (h₂ : Blanks b₂) : Element (b₁ ++ (v ++ b₂)) v

/-- A name and a value with the blanks around them; `Name` says how a name is written. -/
inductive Member {α : Type} (Name : List Char → α → Prop) : List Char → α × List Char → Prop
  | mk {b₁ written b₂ cs v : List Char} {name : α} (h₁ : Blanks b₁) (hname : Name written name)
      (h₂ : Blanks b₂) (hvalue : Element cs v) :
      Member Name (b₁ ++ '"' :: (written ++ '"' :: (b₂ ++ ':' :: cs))) (name, v)

/-- One or more of a kind, with commas in between. -/
inductive Listed {α : Type} (Item : List Char → α → Prop) : List Char → List α → Prop
  | one {cs : List Char} {a : α} (h : Item cs a) : Listed Item cs [a]
  | more {cs ds : List Char} {a : α} {as : List α} (h : Item cs a) (hrest : Listed Item ds as) :
      Listed Item (cs ++ ',' :: ds) (a :: as)

/-- The texts of values. -/
inductive WellFormed : List Char → Prop
  | word {cs : List Char} (h : cs ∈ ["null".toList, "true".toList, "false".toList]) : WellFormed cs
  | number {cs : List Char} (h : NumberForm cs) : WellFormed cs
  | text {cs : List Char} (h : Quoted cs) : WellFormed ('"' :: (cs ++ ['"']))
  | emptyList {cs : List Char} (h : Blanks cs) : WellFormed ('[' :: (cs ++ [']']))
  | list {cs : List Char} {values : List (List Char)} (h : Listed Element cs values)
      (hvalues : ∀ v ∈ values, WellFormed v) : WellFormed ('[' :: (cs ++ [']']))
  | emptyObject {cs : List Char} (h : Blanks cs) : WellFormed ('\x7b' :: (cs ++ ['\x7d']))
  | object {cs : List Char} {members : List (Unit × List Char)}
      (h : Listed (Member fun written _ => Quoted written) cs members)
      (hvalues : ∀ m ∈ members, WellFormed m.2) : WellFormed ('\x7b' :: (cs ++ ['\x7d']))

section Text

/-- What can be read as a text can also be passed over. -/
theorem Spelling.quoted {written text : List Char} (h : Spelling written text) :
    Quoted written := by
  induction h with
  | nil => exact .nil
  | plain hquote hslash hc _ ih => exact .plain hquote hslash hc ih
  | escape he _ ih =>
    cases he with
    | letter hletter => exact .letter hletter ih
    | unit hds _ => exact .unit hds ih
    | pair hds hes _ _ =>
      rw [List.cons_append, List.cons_append, List.append_assoc]
      exact .unit hds (.unit hes ih)

theorem skipText_plain (bs : Bytes) (h : ∀ b ∈ bs, IsPlain b) (p : Place) (rest : Bytes) :
    skipText p (bs ++ rest) = skipText (p.afterAll bs) rest := by
  induction bs generalizing p with
  | nil => rfl
  | cons b bs ih =>
    obtain ⟨h34, h32, h92⟩ := h b (by simp)
    rw [List.cons_append, skipText.eq_def]
    simp only [h34, h32, h92, if_false, ne_eq, not_false_eq_true, if_true]
    exact ih (fun x hx => h x (List.mem_cons_of_mem b hx)) _

/-- The part of a literal after its opening quote is passed over. -/
theorem Quoted.skipText {cs : List Char} (h : Quoted cs) (p : Place) (rest : Bytes) :
    ∃ p', Json.skipText p (encode cs ++ 34 :: rest) = .ok ⟨p', rest⟩ := by
  induction h generalizing p with
  | nil =>
    refine ⟨p.after 34, ?_⟩
    rw [show encode [] ++ 34 :: rest = 34 :: rest from rfl, Json.skipText.eq_def]
    rfl
  | plain hquote hslash hc _ ih =>
    rw [encode_cons, List.append_assoc,
      skipText_plain _ fun _ => isPlain_of_mem_encodeChar hquote hslash hc]
    exact ih _
  | letter hletter _ ih =>
    obtain ⟨hascii, -, hsimple⟩ := simpleEscape?_of_mem hletter
    obtain ⟨p', hrest⟩ := ih ((p.after 92).after _)
    refine ⟨p', ?_⟩
    rw [encode_cons_of_lt (show '\\'.toNat < 0x80 by decide), encode_cons_of_lt hascii,
      Json.skipText.eq_def]
    simpa [hsimple] using hrest
  | unit hds _ ih =>
    obtain ⟨b₁, b₂, b₃, b₄, hbytes, hunit⟩ := hds.bytes
    obtain ⟨p', hrest⟩ := ih (((p.after 92).after 117).afterAll [b₁, b₂, b₃, b₄])
    refine ⟨p', ?_⟩
    rw [encode_cons_of_lt (show '\\'.toNat < 0x80 by decide),
      encode_cons_of_lt (show 'u'.toNat < 0x80 by decide), encode_append, hbytes,
      Json.skipText.eq_def]
    simpa [simpleEscape?, hunit] using hrest

end Text

section Number

variable {rest : Bytes}

theorem startsWithDigit_of_endsValue (hrest : ∀ b ∈ rest.head?, endsValue b = true) :
    startsWithDigit rest = false := by
  cases rest with
  | nil => rfl
  | cons b rest => exact (ends_of_endsValue (hrest b rfl)).1

theorem dropDigits_digits {ds : List Char} (hds : ∀ c ∈ ds, c.isDigit = true)
    (hrest : startsWithDigit rest = false) (p : Place) (count : Nat) :
    ∃ p', dropDigits p count (encode ds ++ rest) = (count + ds.length, ⟨p', rest⟩) := by
  induction ds generalizing p count with
  | nil =>
    refine ⟨p, ?_⟩
    cases rest with
    | nil => rfl
    | cons b rest => exact if_neg (ne_true_of_eq_false hrest)
  | cons c ds ih =>
    obtain ⟨hbyte, hdigit, -⟩ := digit_byte (hds c List.mem_cons_self)
    obtain ⟨p', hdrop⟩ := ih (fun d hd => hds d (List.mem_cons_of_mem c hd)) (p.after _) (count + 1)
    refine ⟨p', ?_⟩
    rw [encode_cons, hbyte, List.singleton_append, List.cons_append, dropDigits, if_pos hdigit,
      hdrop, List.length_cons, Nat.add_assoc, Nat.add_comm 1]

theorem skipDigits_digits {ds : List Char} (hds : ∀ c ∈ ds, c.isDigit = true)
    (hrest : startsWithDigit rest = false) (p : Place) :
    ∃ p', skipDigits ⟨p, encode ds ++ rest⟩ = ⟨p', rest⟩ := by
  obtain ⟨p', hdrop⟩ := dropDigits_digits hds hrest p 0
  exact ⟨p', by rw [skipDigits, hdrop]⟩

theorem DigitRun.exists_cons {ds : List Char} (h : DigitRun ds) :
    ∃ b bs, encode ds = b :: bs ∧ isDigitByte b = true := by
  obtain ⟨c, ds, rfl⟩ := List.exists_cons_of_ne_nil h.ne_nil
  obtain ⟨hbyte, hdigit, -⟩ := digit_byte (h.digits c List.mem_cons_self)
  exact ⟨_, encode ds, by rw [encode_cons, hbyte, List.singleton_append], hdigit⟩

theorem DigitRun.startsWithDigit {ds : List Char} (h : DigitRun ds) (rest : Bytes) :
    Json.startsWithDigit (encode ds ++ rest) = true := by
  obtain ⟨b, bs, hbs, hb⟩ := h.exists_cons
  rw [hbs]
  exact hb

/-- An exponent is passed over, from its letter on. -/
theorem skipExponent_present {sign ds : List Char} (hsign : sign ∈ [[], ['+'], ['-']])
    (hds : DigitRun ds) (hrest : startsWithDigit rest = false) (p : Place) (e : UInt8) :
    ∃ p', skipExponent ⟨p, e :: (encode (sign ++ ds) ++ rest)⟩ = .ok ⟨p', rest⟩ := by
  have hstarts := hds.startsWithDigit rest
  have hdigits : ∀ q, ∃ p', skipDigits ⟨q, encode ds ++ rest⟩ = ⟨p', rest⟩ :=
    skipDigits_digits hds.digits hrest
  simp only [List.mem_cons, List.not_mem_nil, or_false] at hsign
  rcases hsign with rfl | rfl | rfl
  · obtain ⟨p', hskip⟩ := hdigits (p.after e)
    obtain ⟨b, bs, hbs, hb⟩ := hds.exists_cons
    have hsigned : ¬(b = 43 ∨ b = 45) :=
      not_or.mpr ⟨ne_of_isDigitByte hb (by decide), ne_of_isDigitByte hb (by decide)⟩
    refine ⟨p', ?_⟩
    rw [List.nil_append, ← hskip]
    rw [hbs] at hstarts ⊢
    simp only [skipExponent, Cursor.skip, List.cons_append, hsigned, if_false]
    exact if_pos hb
  · obtain ⟨p', hskip⟩ := hdigits ((p.after e).after 43)
    exact ⟨p', (if_pos hstarts).trans (congrArg _ hskip)⟩
  · obtain ⟨p', hskip⟩ := hdigits ((p.after e).after 45)
    exact ⟨p', (if_pos hstarts).trans (congrArg _ hskip)⟩

theorem Exponent.skip {exponent : List Char} (h : Exponent exponent)
    (hrest : ∀ b ∈ rest.head?, endsValue b = true) (p : Place) :
    let c : Cursor := ⟨p, encode exponent ++ rest⟩
    startsWithDigit c.rest = false ∧ c.rest.head? ≠ some 46 ∧
      ∃ p', (if startsWithExponent c.rest then skipExponent c else .ok c) = .ok ⟨p', rest⟩ := by
  have hstop := startsWithDigit_of_endsValue hrest
  cases h with
  | absent =>
    have hends : rest.head? ≠ some 46 ∧ startsWithExponent rest = false := by
      cases rest with
      | nil => exact ⟨nofun, rfl⟩
      | cons b rest =>
        obtain ⟨-, hpoint, hexponent⟩ := ends_of_endsValue (hrest b rfl)
        exact ⟨fun h => hpoint (Option.some.inj h), by simpa [startsWithExponent] using hexponent⟩
    exact ⟨hstop, hends.1, p, if_neg (ne_true_of_eq_false hends.2)⟩
  | @present e sign ds he hsign hds =>
    have hascii : e.toNat < 0x80 ∧ isDigitByte (UInt8.ofNat e.toNat) = false ∧
        UInt8.ofNat e.toNat ≠ 46 ∧ startsWithExponent [UInt8.ofNat e.toNat] = true := by
      simp only [List.mem_cons, List.not_mem_nil, or_false] at he
      rcases he with rfl | rfl
      all_goals decide
    obtain ⟨hascii, hdigit, hpoint, hexponent⟩ := hascii
    obtain ⟨p', hskip⟩ := skipExponent_present hsign hds hstop p (UInt8.ofNat e.toNat)
    rw [encode_cons_of_lt hascii, List.cons_append]
    exact ⟨hdigit, fun h => hpoint (Option.some.inj h), p', (if_pos hexponent).trans hskip⟩

/-- What follows the whole part of a number is passed over. -/
theorem skipAfterWhole_form {fraction exponent : List Char} (hfraction : Fraction fraction)
    (hexponent : Exponent exponent) (hrest : ∀ b ∈ rest.head?, endsValue b = true) (p : Place) :
    startsWithDigit (encode (fraction ++ exponent) ++ rest) = false ∧
      ∃ p', skipAfterWhole ⟨p, encode (fraction ++ exponent) ++ rest⟩ = .ok ⟨p', rest⟩ := by
  cases hfraction with
  | absent =>
    obtain ⟨hstop, hpoint, p', hskip⟩ := hexponent.skip hrest p
    refine ⟨hstop, p', hskip ▸ ?_⟩
    rw [List.nil_append]
    generalize encode exponent ++ rest = bs at hpoint
    cases bs with
    | nil => rfl
    | cons b bs =>
      have hb : b ≠ 46 := fun h => hpoint (congrArg some h)
      simp [skipAfterWhole, startsWithExponent, hb]
  | @present ds hds =>
    obtain ⟨hstop, -, -⟩ := hexponent.skip hrest p
    obtain ⟨p₁, hdigits⟩ := skipDigits_digits hds.digits hstop (p.after 46)
    obtain ⟨-, -, p', hskip⟩ := hexponent.skip hrest p₁
    have hstarts := hds.startsWithDigit (encode exponent ++ rest)
    refine ⟨rfl, p', ?_⟩
    have hfraction : skipFraction ⟨p, 46 :: (encode ds ++ (encode exponent ++ rest))⟩ =
        .ok ⟨p', rest⟩ := by
      simp only [skipFraction, Cursor.skip, hstarts, hdigits]
      exact hskip
    rw [List.cons_append, encode_cons_of_lt (by decide), encode_append, List.cons_append,
      List.append_assoc]
    exact hfraction

/-- A number without its minus is passed over. -/
theorem skipNumeral_form {whole fraction exponent : List Char} {n : Nat} (hwhole : Numeral whole n)
    (hfraction : Fraction fraction) (hexponent : Exponent exponent)
    (hrest : ∀ b ∈ rest.head?, endsValue b = true) (p : Place) :
    ∃ b bs p', encode (whole ++ (fraction ++ exponent)) ++ rest = b :: bs ∧
      isDigitByte b = true ∧ skipNumeral ⟨p, b :: bs⟩ = .ok ⟨p', rest⟩ := by
  obtain ⟨c, ds, rfl⟩ := List.exists_cons_of_ne_nil hwhole.ne_nil
  obtain ⟨hbyte, hdigit, -⟩ := digit_byte (hwhole.digits c List.mem_cons_self)
  have hbytes : encode (c :: ds) = UInt8.ofNat c.toNat :: encode ds := by
    rw [encode_cons, hbyte, List.singleton_append]
  have hafter := skipAfterWhole_form hfraction hexponent hrest
  have hstop := (hafter p).1
  rw [encode_append, List.append_assoc]
  by_cases hc : c = '0'
  · subst hc
    obtain rfl := hwhole.canonical ds rfl
    obtain ⟨-, p', hskip⟩ := hafter (p.after 48)
    exact ⟨48, _, p', rfl, rfl, (if_neg (ne_true_of_eq_false hstop)).trans hskip⟩
  · obtain ⟨p₁, hdigits⟩ := skipDigits_digits hwhole.digits hstop p
    obtain ⟨-, p', hskip⟩ := hafter p₁
    rw [hbytes, List.cons_append] at hdigits ⊢
    have hle := isDigit_iff.mp (hwhole.digits c List.mem_cons_self)
    have hzero : UInt8.ofNat c.toNat ≠ 48 := fun he =>
      hc (Char.toNat_inj.mp ((ofNat_eq_iff 48 (by omega)).mp he))
    refine ⟨_, _, p', rfl, hdigit, ?_⟩
    simp only [skipNumeral, hzero, if_false, hdigit, if_true, hdigits, hskip]

/-- The first byte of a number says whether it has a minus. -/
theorem NumberForm.skip {cs : List Char} (h : NumberForm cs)
    (hrest : ∀ b ∈ rest.head?, endsValue b = true) (p : Place) :
    ∃ b bs p', encode cs ++ rest = b :: bs ∧
      (b = 45 ∧ skipNumeral ⟨p.after 45, bs⟩ = .ok ⟨p', rest⟩ ∨
        isDigitByte b = true ∧ skipNumeral ⟨p, b :: bs⟩ = .ok ⟨p', rest⟩) := by
  obtain ⟨hsign, hwhole, hfraction, hexponent⟩ := h
  simp only [List.mem_cons, List.not_mem_nil, or_false] at hsign
  rcases hsign with rfl | rfl
  · obtain ⟨b, bs, p', hbs, hb, hskip⟩ := skipNumeral_form hwhole hfraction hexponent hrest p
    exact ⟨b, bs, p', hbs, .inr ⟨hb, hskip⟩⟩
  · obtain ⟨b, bs, p', hbs, -, hskip⟩ :=
      skipNumeral_form hwhole hfraction hexponent hrest (p.after 45)
    refine ⟨45, b :: bs, p', ?_, .inl ⟨rfl, hskip⟩⟩
    rw [List.singleton_append, encode_cons_of_lt (by decide), List.cons_append, hbs]
    rfl

theorem Numeral.wellFormed {ds : List Char} {n : Nat} (h : Numeral ds n) : WellFormed ds := by
  have hsign : ([] : List Char) ∈ [[], ['-']] := by simp
  have hform := NumberForm.mk hsign h .absent .absent
  rw [List.append_nil, List.append_nil, List.nil_append] at hform
  exact .number hform

end Number

end Larder.Json
