import Larder.Proofs.PassedOver

/-! What has been passed over was a value. What the open brackets still ask of a text is said by
going through them from the innermost out, and every run that comes to its end has met it; so where
nothing is open, there was one value with blanks in front of it. -/

namespace Larder.Json

open Text.Utf8

section Texts

variable {cs : List Char} {p : Place} {c : Cursor}

theorem le_toNat_of_skipText {a : Char} (h : skipText p (encode (a :: cs)) = .ok c) :
    0x20 ≤ a.toNat := by
  refine Nat.le_of_not_lt fun hlt => ?_
  obtain ⟨hb, hne⟩ := control_byte hlt
  rw [encode_cons_of_lt (by omega), skipText.eq_def] at h
  dsimp only at h
  rw [if_neg hne, if_pos hb] at h
  cases h

/-- What is passed over behind a backslash is a letter or a unit of UTF-16. -/
theorem exists_escape_of_skipText (h : skipText p (92 :: encode cs) = .ok c) :
    ∃ e rest p', '\\' :: cs = e ++ rest ∧ e ≠ [] ∧ (∀ ds, Quoted ds → Quoted (e ++ ds)) ∧
      skipText p' (encode rest) = .ok c := by
  generalize hbs : (92 : UInt8) :: encode cs = bs at h
  revert h
  fun_cases skipText p bs <;> intro h
  case case2 => cases hbs
  case case4 hb =>
    cases hbs
    exact (hb rfl).elim
  case case6 letter behind p' v hv =>
    obtain ⟨-, hbs⟩ := List.cons.inj hbs
    obtain ⟨hletter, -, hmem⟩ := mem_of_simpleEscape? hv
    obtain ⟨rest, rfl, rfl⟩ := exists_cons_of_encode hbs hletter
    exact ⟨['\\', _], rest, p', rfl, List.cons_ne_nil _ _, fun ds hds => .letter hmem hds, h⟩
  case case9 letter p₁ _ hletter h₁ h₂ h₃ h₄ behind p' n hunit =>
    obtain ⟨-, hbs⟩ := List.cons.inj hbs
    obtain rfl := Decidable.not_not.mp hletter
    obtain ⟨rest, rfl, hrest⟩ := exists_cons_of_encode hbs (by decide)
    obtain ⟨es, rest, rfl, hes, rfl⟩ := exists_hexUnit hrest.symm hunit
    exact ⟨'\\' :: 'u' :: es, rest, p', rfl, List.cons_ne_nil _ _, fun ds hds => .unit hes hds, h⟩
  all_goals cases h

/-- What has been passed over up to a quote stands in a literal. -/
theorem exists_quoted (h : skipText p (encode cs) = .ok c) :
    ∃ written rest, cs = written ++ '"' :: rest ∧ Quoted written ∧ c.rest = encode rest := by
  induction hn : cs.length using Nat.strongRecOn generalizing cs p with
  | ind n ih =>
    cases cs with
    | nil => cases h
    | cons a cs =>
      have hcontrol := le_toNat_of_skipText h
      by_cases hquote : a = '"'
      · subst hquote
        rw [encode_cons_of_lt (by decide), skipText.eq_def] at h
        cases h
        exact ⟨[], cs, rfl, .nil, rfl⟩
      by_cases hslash : a = '\\'
      · subst hslash
        rw [encode_cons_of_lt (by decide)] at h
        obtain ⟨e, rest, p', hcs, hne, he, h⟩ := exists_escape_of_skipText h
        have hlength : rest.length < n := by
          have hpos : 0 < e.length := List.length_pos_iff.mpr hne
          have hall := congrArg List.length hcs
          rw [hn, List.length_append] at hall
          omega
        obtain ⟨written, rest, rfl, hwritten, hrest⟩ := ih _ hlength h rfl
        exact ⟨e ++ written, rest, by rw [hcs, List.append_assoc], he written hwritten, hrest⟩
      rw [encode_cons, skipText_plain _ fun _ => isPlain_of_mem_encodeChar hquote hslash hcontrol]
        at h
      obtain ⟨written, rest, rfl, hwritten, hrest⟩ := ih _ (by simp at hn; omega) h rfl
      exact ⟨a :: written, rest, rfl, .plain hquote hslash hcontrol hwritten, hrest⟩

end Texts

section Numbers

variable {cs : List Char} {p : Place} {c : Cursor}

theorem exists_digits_of_dropDigits (p : Place) (count : Nat) (cs : List Char) :
    ∃ ds rest p', cs = ds ++ rest ∧ (∀ d ∈ ds, d.isDigit = true) ∧
      (dropDigits p count (encode cs)).2 = ⟨p', encode rest⟩ := by
  generalize hbs : encode cs = bs
  fun_induction dropDigits p count bs generalizing cs with
  | case1 p => exact ⟨[], cs, p, rfl, List.forall_mem_nil _, by rw [hbs]⟩
  | case2 p count b bs hb ih =>
    obtain ⟨hd, hvalue, hchar⟩ := digit_char hb
    obtain ⟨cs, rfl, rfl⟩ := exists_cons_of_encode hbs (by omega)
    obtain ⟨ds, rest, p', rfl, hds, hrest⟩ := ih cs rfl
    rw [hchar]
    exact ⟨_ :: ds, rest, p', rfl, List.forall_mem_cons.mpr ⟨isDigit_digitChar _ hd, hds⟩, hrest⟩
  | case3 p count b bs hb => exact ⟨[], cs, p, rfl, List.forall_mem_nil _, by rw [hbs]⟩

theorem exists_digitRun (h : startsWithDigit (encode cs) = true) (p : Place) :
    ∃ ds rest p', cs = ds ++ rest ∧ DigitRun ds ∧
      skipDigits ⟨p, encode cs⟩ = ⟨p', encode rest⟩ := by
  cases hbs : encode cs with
  | nil =>
    rw [hbs] at h
    cases h
  | cons b bs =>
    rw [hbs] at h
    have hb : isDigitByte b = true := h
    obtain ⟨hd, hvalue, hchar⟩ := digit_char hb
    obtain ⟨cs, rfl, rfl⟩ := exists_cons_of_encode hbs (by omega)
    obtain ⟨ds, rest, p', rfl, hds, hrest⟩ := exists_digits_of_dropDigits (p.after b) 1 cs
    rw [hchar]
    refine ⟨_ :: ds, rest, p', rfl, ⟨List.cons_ne_nil _ _, ?_⟩, ?_⟩
    · exact List.forall_mem_cons.mpr ⟨isDigit_digitChar _ hd, hds⟩
    · rw [skipDigits, dropDigits, if_pos hb]
      exact hrest

/-- The sign of an exponent, with the digits behind it. -/
theorem exists_signed_of_skipExponent {e : UInt8} (h : skipExponent ⟨p, e :: encode cs⟩ = .ok c) :
    ∃ sign ds rest, cs = sign ++ (ds ++ rest) ∧ sign ∈ [[], ['+'], ['-']] ∧ DigitRun ds ∧
      c.rest = encode rest := by
  have hdigits : ∀ {ds : List Char} {q : Place} {f : Fault},
      (if startsWithDigit (encode ds) then Except.ok (skipDigits ⟨q, encode ds⟩) else .error f) =
        .ok c → ∃ run rest, ds = run ++ rest ∧ DigitRun run ∧ c.rest = encode rest := by
    intro ds q f h
    split at h
    · rename_i hstarts
      obtain ⟨run, rest, p', hds, hrun, hskip⟩ := exists_digitRun hstarts q
      rw [hskip] at h
      cases h
      exact ⟨run, rest, hds, hrun, rfl⟩
    · cases h
  cases hbs : encode cs with
  | nil =>
    rw [hbs] at h
    cases h
  | cons b bs =>
    rw [hbs] at h
    by_cases hplus : b = 43
    · subst hplus
      obtain ⟨ds, rfl, rfl⟩ := exists_cons_of_encode hbs (by decide)
      obtain ⟨run, rest, rfl, hrun, hrest⟩ := hdigits h
      exact ⟨['+'], run, rest, rfl, by simp, hrun, hrest⟩
    by_cases hminus : b = 45
    · subst hminus
      obtain ⟨ds, rfl, rfl⟩ := exists_cons_of_encode hbs (by decide)
      obtain ⟨run, rest, rfl, hrun, hrest⟩ := hdigits h
      exact ⟨['-'], run, rest, rfl, by simp, hrun, hrest⟩
    simp only [skipExponent, Cursor.skip, hplus, hminus, or_self, if_false] at h
    rw [← hbs] at h
    obtain ⟨run, rest, rfl, hrun, hrest⟩ := hdigits h
    exact ⟨[], run, rest, rfl, by simp, hrun, hrest⟩

/-- An exponent has been passed over if its letter was there. -/
theorem exists_exponent (h : (if startsWithExponent (encode cs) then skipExponent ⟨p, encode cs⟩
      else .ok ⟨p, encode cs⟩) = .ok c) :
    ∃ exponent rest, cs = exponent ++ rest ∧ Exponent exponent ∧ c.rest = encode rest := by
  split at h
  · rename_i hstarts
    cases hbs : encode cs with
    | nil =>
      rw [hbs] at hstarts
      cases hstarts
    | cons b bs =>
      rw [hbs] at h hstarts
      have hb : b = 101 ∨ b = 69 := by simpa [startsWithExponent] using hstarts
      have hletter : b.toNat < 0x80 ∧ Char.ofNat b.toNat ∈ ['e', 'E'] := by
        rcases hb with rfl | rfl
        all_goals decide
      obtain ⟨cs, rfl, rfl⟩ := exists_cons_of_encode hbs hletter.1
      obtain ⟨sign, ds, rest, rfl, hsign, hds, hrest⟩ := exists_signed_of_skipExponent h
      exact ⟨_ :: (sign ++ ds), rest, by simp, .present hletter.2 hsign hds, hrest⟩
  · cases h
    exact ⟨[], cs, rfl, .absent, rfl⟩

theorem exists_tail_of_skipAfterWhole (h : skipAfterWhole ⟨p, encode cs⟩ = .ok c) :
    ∃ fraction exponent rest, cs = fraction ++ (exponent ++ rest) ∧ Fraction fraction ∧
      Exponent exponent ∧ c.rest = encode rest := by
  cases hbs : encode cs with
  | nil =>
    rw [hbs] at h
    cases h
    exact ⟨[], [], cs, rfl, .absent, .absent, hbs.symm⟩
  | cons b bs =>
    by_cases hpoint : b = 46
    · subst hpoint
      obtain ⟨cs, rfl, rfl⟩ := exists_cons_of_encode hbs (by decide)
      rw [hbs] at h
      have hfraction : skipFraction ⟨p, 46 :: encode cs⟩ = .ok c := h
      by_cases hstarts : startsWithDigit (encode cs) = true
      · obtain ⟨ds, rest, p', rfl, hds, hskip⟩ := exists_digitRun hstarts (p.after 46)
        simp only [skipFraction, Cursor.skip, hstarts, hskip] at hfraction
        obtain ⟨exponent, rest, rfl, hexponent, hrest⟩ := exists_exponent hfraction
        exact ⟨'.' :: ds, exponent, rest, rfl, .present hds, hexponent, hrest⟩
      · rw [Bool.not_eq_true] at hstarts
        simp only [skipFraction, Cursor.skip, hstarts] at hfraction
        cases hfraction
    · have hexponent : (if startsWithExponent (encode cs) then skipExponent ⟨p, encode cs⟩
          else .ok ⟨p, encode cs⟩) = .ok c := by
        rw [hbs] at h ⊢
        simpa [skipAfterWhole, startsWithExponent, hpoint] using h
      obtain ⟨exponent, rest, rfl, hexponent, hrest⟩ := exists_exponent hexponent
      exact ⟨[], exponent, rest, rfl, .absent, hexponent, hrest⟩

/-- A number without its minus has been passed over. -/
theorem exists_whole_of_skipNumeral (h : skipNumeral ⟨p, encode cs⟩ = .ok c) :
    ∃ whole fraction exponent rest n, cs = whole ++ (fraction ++ (exponent ++ rest)) ∧
      Numeral whole n ∧ Fraction fraction ∧ Exponent exponent ∧ c.rest = encode rest := by
  cases hbs : encode cs with
  | nil =>
    rw [hbs] at h
    cases h
  | cons b bs =>
    rw [hbs] at h
    by_cases hzero : b = 48
    · subst hzero
      obtain ⟨cs, rfl, rfl⟩ := exists_cons_of_encode hbs (by decide)
      have hafter : skipAfterWhole ⟨p.after 48, encode cs⟩ = .ok c := by
        simp only [skipNumeral, if_true] at h
        split at h
        · cases h
        · exact h
      obtain ⟨fraction, exponent, rest, rfl, hfraction, hexponent, hrest⟩ :=
        exists_tail_of_skipAfterWhole hafter
      exact ⟨['0'], fraction, exponent, rest, 0, rfl, numeral_iff.mpr rfl, hfraction, hexponent,
        hrest⟩
    by_cases hdigit : isDigitByte b = true
    · have hstarts : startsWithDigit (encode cs) = true := by rwa [hbs]
      obtain ⟨ds, rest, p', rfl, hds, hskip⟩ := exists_digitRun hstarts p
      simp only [skipNumeral, hzero, if_false, hdigit, if_true] at h
      rw [← hbs, hskip] at h
      obtain ⟨fraction, exponent, rest, rfl, hfraction, hexponent, hrest⟩ :=
        exists_tail_of_skipAfterWhole h
      have hcanonical : ∀ tail, ds = '0' :: tail → tail = [] := by
        rintro tail rfl
        rw [List.cons_append, encode_cons_of_lt (by decide)] at hbs
        exact (hzero (List.cons.inj hbs).1.symm).elim
      exact ⟨ds, fraction, exponent, rest, _, rfl, ⟨hds.ne_nil, hds.digits, hcanonical, rfl⟩,
        hfraction, hexponent, hrest⟩
    · simp only [skipNumeral, hzero, if_false, hdigit] at h
      cases h

end Numbers

theorem Cursor.eq_of_rest {c : Cursor} {bs : Bytes} (h : c.rest = bs) : c = ⟨c.place, bs⟩ := by
  rw [← h]

theorem exists_skipBlank (p : Place) (cs : List Char) :
    ∃ blanks ds q, cs = blanks ++ ds ∧ Blanks blanks ∧
      Cursor.skipBlank ⟨p, encode cs⟩ = ⟨q, encode ds⟩ := by
  obtain ⟨blanks, ds, hcs, hblanks, hrest⟩ := exists_blanks p cs
  exact ⟨blanks, ds, _, hcs, hblanks, Cursor.eq_of_rest hrest⟩

section Scalars

variable {cs : List Char} {p : Place} {c : Cursor} {b : UInt8} {bs : Bytes}

theorem exists_word (word : List Char) (hword : ∀ a ∈ word, a.toNat < 0x80)
    (h : expectLetters (encode word) ⟨p, encode cs⟩ = .ok c) :
    ∃ rest, cs = word ++ rest ∧ c.rest = encode rest := by
  induction word generalizing cs p with
  | nil =>
    cases h
    exact ⟨cs, rfl, rfl⟩
  | cons a word ih =>
    have ha : a.toNat < 0x80 := hword a List.mem_cons_self
    rw [encode_cons_of_lt ha, expectLetters] at h
    cases hbs : encode cs with
    | nil =>
      rw [hbs] at h
      cases h
    | cons b bs =>
      rw [hbs] at h
      dsimp only at h
      split at h
      · rename_i hb
        subst hb
        have hbyte : (UInt8.ofNat a.toNat).toNat = a.toNat := toNat_ofNat_of_lt (by omega)
        obtain ⟨cs, rfl, rfl⟩ := exists_cons_of_encode hbs (by omega)
        obtain ⟨rest, rfl, hrest⟩ := ih (fun x hx => hword x (List.mem_cons_of_mem a hx)) h
        rw [hbyte, Char.ofNat_toNat]
        exact ⟨rest, rfl, hrest⟩
      · cases h

theorem exists_scalar (hbs : encode cs = b :: bs)
    (h : skipScalar? ⟨p, encode cs⟩ b = some (.ok c)) :
    ∃ v rest, cs = v ++ rest ∧ WellFormed v ∧ c.rest = encode rest := by
  have hword : ∀ (a : Char) (word : List Char), (∀ x ∈ a :: word, x.toNat < 0x80) →
      b = UInt8.ofNat a.toNat → a :: word ∈ ["null".toList, "true".toList, "false".toList] →
      expectLetters (encode word) (Cursor.skip ⟨p, encode cs⟩) = .ok c →
      ∃ v rest, cs = v ++ rest ∧ WellFormed v ∧ c.rest = encode rest := by
    intro a word hascii hb hmem h
    have ha : a.toNat < 0x80 := hascii a List.mem_cons_self
    have hbyte : b.toNat = a.toNat := by rw [hb, toNat_ofNat_of_lt (by omega)]
    rw [hbs] at h
    obtain ⟨cs, rfl, rfl⟩ := exists_cons_of_encode hbs (by omega)
    obtain ⟨rest, rfl, hrest⟩ := exists_word word
      (fun x hx => hascii x (List.mem_cons_of_mem a hx)) h
    rw [hbyte, Char.ofNat_toNat]
    exact ⟨a :: word, rest, rfl, .word hmem, hrest⟩
  unfold skipScalar? at h
  split at h
  · rename_i hb
    exact hword 'n' ['u', 'l', 'l'] (by simp) hb (by decide) (Option.some.inj h)
  split at h
  · rename_i hb
    exact hword 't' ['r', 'u', 'e'] (by simp) hb (by decide) (Option.some.inj h)
  split at h
  · rename_i hb
    exact hword 'f' ['a', 'l', 's', 'e'] (by simp) hb (by decide) (Option.some.inj h)
  split at h
  · rename_i hb
    subst hb
    obtain ⟨cs, rfl, rfl⟩ := exists_cons_of_encode hbs (by decide)
    rw [hbs] at h
    obtain ⟨whole, fraction, exponent, rest, n, rfl, hwhole, hfraction, hexponent, hrest⟩ :=
      exists_whole_of_skipNumeral (Option.some.inj h)
    refine ⟨['-'] ++ (whole ++ (fraction ++ exponent)), rest, by simp, ?_, hrest⟩
    exact .number (.mk (by simp) hwhole hfraction hexponent)
  split at h
  · obtain ⟨whole, fraction, exponent, rest, n, rfl, hwhole, hfraction, hexponent, hrest⟩ :=
      exists_whole_of_skipNumeral (Option.some.inj h)
    refine ⟨[] ++ (whole ++ (fraction ++ exponent)), rest, by simp, ?_, hrest⟩
    exact .number (.mk (by simp) hwhole hfraction hexponent)
  split at h
  · rename_i hb
    subst hb
    obtain ⟨cs, rfl, rfl⟩ := exists_cons_of_encode hbs (by decide)
    rw [hbs] at h
    obtain ⟨written, rest, rfl, hwritten, hrest⟩ := exists_quoted (Option.some.inj h)
    exact ⟨'"' :: (written ++ ['"']), rest, by simp, .text hwritten, hrest⟩
  split at h <;> cases h

end Scalars

section Machine

def Bracket.opener : Bracket → Char
  | .list => '['
  | .object => '\x7b'

def Bracket.closer : Bracket → Char
  | .list => ']'
  | .object => '\x7d'

/-- What stands in front of the value of an item. -/
inductive Lead : Bracket → List Char → Prop
  | element {blanks : List Char} (h : Blanks blanks) : Lead .list blanks
  | member {b₁ written b₂ : List Char} (h₁ : Blanks b₁) (hname : Quoted written) (h₂ : Blanks b₂) :
      Lead .object (b₁ ++ '"' :: (written ++ '"' :: (b₂ ++ [':'])))

/-- The items of a bracket. -/
inductive Items : Bracket → List Char → Prop
  | elements {cs : List Char} {values : List (List Char)} (h : Listed Element cs values)
      (hvalues : ∀ v ∈ values, WellFormed v) : Items .list cs
  | members {cs : List Char} {members : List (Unit × List Char)}
      (h : Listed (Member fun written _ => Quoted written) cs members)
      (hvalues : ∀ m ∈ members, WellFormed m.2) : Items .object cs

/-- What stands between a value and the end of the bracket it is in. -/
inductive Follows (k : Bracket) : List Char → Prop
  | nothing {blanks : List Char} (h : Blanks blanks) : Follows k blanks
  | items {blanks cs : List Char} (h : Blanks blanks) (hitems : Items k cs) :
      Follows k (blanks ++ ',' :: cs)

/-- What the open brackets ask of the text behind a value, up to what follows them all. -/
def Closes : List Bracket → List Char → List Char → Prop
  | [], cs, rest => cs = rest
  | k :: opened, cs, rest =>
    ∃ more ds, cs = more ++ k.closer :: ds ∧ Follows k more ∧ Closes opened ds rest

/-- What a reader has met in a text when it comes to its end. -/
def Meets : Expecting → List Bracket → List Char → List Char → Prop
  | .value, opened, cs, rest =>
    ∃ blanks v ds, cs = blanks ++ (v ++ ds) ∧ Blanks blanks ∧ WellFormed v ∧ Closes opened ds rest
  | .afterOpening, k :: opened, cs, rest =>
    ∃ inner ds, cs = inner ++ k.closer :: ds ∧ (Blanks inner ∨ Items k inner) ∧
      Closes opened ds rest
  | _, opened, cs, rest => Closes opened cs rest

variable {k : Bracket} {cs : List Char} {p : Place} {c : Cursor}

theorem blanks_append {cs ds : List Char} (h : Blanks cs) (h' : Blanks ds) : Blanks (cs ++ ds) :=
  List.forall_mem_append.mpr ⟨h, h'⟩

theorem Lead.blanks_append {blanks l : List Char} (h : Lead k l) (hblanks : Blanks blanks) :
    Lead k (blanks ++ l) := by
  cases h with
  | element h => exact .element (Json.blanks_append hblanks h)
  | member h₁ hname h₂ =>
    rw [← List.append_assoc]
    exact .member (Json.blanks_append hblanks h₁) hname h₂

/-- An item with those that follow it. -/
theorem Lead.items {l blanks v more : List Char} (h : Lead k l) (hblanks : Blanks blanks)
    (hv : WellFormed v) (hmore : Follows k more) : Items k (l ++ (blanks ++ (v ++ more))) := by
  cases h with
  | element h =>
    have helement : ∀ {after : List Char}, Blanks after →
        Element ((l ++ blanks) ++ (v ++ after)) v :=
      fun hafter => .mk (Json.blanks_append h hblanks) hafter
    cases hmore with
    | nothing hafter =>
      rw [← List.append_assoc]
      exact .elements (.one (helement hafter)) (by simpa using hv)
    | items hafter hitems =>
      cases hitems with
      | elements hrest hvalues =>
        have hlisted := Listed.more (helement hafter) hrest
        simp only [List.append_assoc] at hlisted ⊢
        exact .elements hlisted (List.forall_mem_cons.mpr ⟨hv, hvalues⟩)
  | @member b₁ written b₂ h₁ hname h₂ =>
    have hmember : ∀ {after : List Char}, Blanks after →
        Member (fun written (_ : Unit) => Quoted written)
          (b₁ ++ '"' :: (written ++ '"' :: (b₂ ++ ':' :: (blanks ++ (v ++ after))))) ((), v) :=
      fun hafter => .mk h₁ hname h₂ (.mk hblanks hafter)
    cases hmore with
    | nothing hafter =>
      have hlisted := Listed.one (hmember hafter)
      simp only [List.append_assoc, List.cons_append, List.nil_append]
      exact .members hlisted (by simpa using hv)
    | items hafter hitems =>
      cases hitems with
      | members hrest hvalues =>
        have hlisted := Listed.more (hmember hafter) hrest
        simp only [List.append_assoc, List.cons_append, List.nil_append] at hlisted ⊢
        exact .members hlisted (List.forall_mem_cons.mpr ⟨hv, hvalues⟩)

theorem exists_lead (h : skipLead k ⟨p, encode cs⟩ = .ok c) :
    ∃ l ds, cs = l ++ ds ∧ Lead k l ∧ c.rest = encode ds := by
  cases k with
  | list =>
    cases h
    exact ⟨[], cs, rfl, .element blanks_nil, rfl⟩
  | object =>
    obtain ⟨b₁, ds, q, rfl, h₁, hskip⟩ := exists_skipBlank p cs
    simp only [skipLead, skipName, hskip] at h
    split at h
    · cases h
    rename_i b bs hbs
    split at h
    · cases h
    rename_i hquote
    obtain rfl := Decidable.not_not.mp hquote
    obtain ⟨ds, rfl, rfl⟩ := exists_cons_of_encode hbs (by decide)
    split at h
    · cases h
    rename_i c₁ htext
    obtain ⟨written, ds, rfl, hname, hrest⟩ := exists_quoted htext
    obtain ⟨b₂, ds, q₁, rfl, h₂, hskip₁⟩ := exists_skipBlank c₁.place ds
    rw [Cursor.eq_of_rest hrest, hskip₁] at h
    dsimp only at h
    split at h
    · cases h
    rename_i b bs hbs₁
    split at h
    · rename_i hcolon
      subst hcolon
      obtain ⟨ds, rfl, rfl⟩ := exists_cons_of_encode hbs₁ (by decide)
      rw [hbs₁] at h
      cases h
      exact ⟨b₁ ++ '"' :: (written ++ '"' :: (b₂ ++ [':'])), ds, by simp, .member h₁ hname h₂, rfl⟩
    · cases h

theorem exists_closer {bs : Bytes} (hbs : encode cs = k.closing :: bs) :
    ∃ ds, cs = k.closer :: ds ∧ bs = encode ds := by
  obtain ⟨ds, rfl, rfl⟩ := exists_cons_of_encode hbs (by cases k <;> decide)
  exact ⟨ds, by cases k <;> rfl, rfl⟩

theorem wellFormed_of_items {inner : List Char} (h : Blanks inner ∨ Items k inner) :
    WellFormed (k.opener :: (inner ++ [k.closer])) := by
  rcases h with h | h
  · cases k with
    | list => exact .emptyList h
    | object => exact .emptyObject h
  · cases h with
    | elements h hvalues => exact .list h hvalues
    | members h hvalues => exact .object h hvalues

/-- A bracket in the place of a value. -/
theorem exists_opener {b : UInt8} {bs : Bytes} (hbs : encode cs = b :: bs)
    (h : skipScalar? c b = none) :
    ∃ k ds, cs = Bracket.opener k :: ds ∧ bs = encode ds ∧
      (if b = 91 then Bracket.list else .object) = k := by
  unfold skipScalar? at h
  iterate 6
    split at h
    · cases h
  split at h
  · rename_i hb
    rcases hb with rfl | rfl
    · obtain ⟨ds, rfl, rfl⟩ := exists_cons_of_encode hbs (by decide)
      exact ⟨.list, ds, rfl, rfl, rfl⟩
    · obtain ⟨ds, rfl, rfl⟩ := exists_cons_of_encode hbs (by decide)
      exact ⟨.object, ds, rfl, rfl, rfl⟩
  · cases h

/-- With this fuel, a reader that comes to its end has met what it was to meet. -/
def MeetsWithin (fuel : Nat) : Prop :=
  ∀ {e : Expecting} {opened : List Bracket} {p : Place} {cs : List Char} {c : Cursor},
    skipFrom fuel e opened ⟨p, encode cs⟩ = .ok c →
      ∃ rest, c.rest = encode rest ∧ Meets e opened cs rest

variable {fuel : Nat} {opened : List Bracket} {c' : Cursor}

/-- An item with those that follow it, up to the bracket that closes them; blanks in front of it
are a part of it. -/
theorem MeetsWithin.item (h : MeetsWithin fuel) (hlead : skipLead k ⟨p, encode cs⟩ = .ok c)
    (hskip : skipFrom fuel .value (k :: opened) c = .ok c') :
    ∃ rest, c'.rest = encode rest ∧ ∃ inner ds, cs = inner ++ k.closer :: ds ∧
      (∀ {blanks : List Char}, Blanks blanks → Items k (blanks ++ inner)) ∧
      Closes opened ds rest := by
  obtain ⟨l, ds, rfl, hl, hds⟩ := exists_lead hlead
  rw [Cursor.eq_of_rest hds] at hskip
  obtain ⟨rest, hrest, between, v, ds, rfl, hbetween, hv, more, ds', rfl, hmore, hcloses⟩ := h hskip
  have hinner : ∀ {blanks : List Char}, Blanks blanks →
      Items k (blanks ++ (l ++ (between ++ (v ++ more)))) := by
    intro blanks hblanks
    rw [← List.append_assoc]
    exact (hl.blanks_append hblanks).items hbetween hv hmore
  exact ⟨rest, hrest, _, ds', by simp, hinner, hcloses⟩

theorem MeetsWithin.value (h : MeetsWithin fuel)
    (hskip : skipFrom (fuel + 1) .value opened ⟨p, encode cs⟩ = .ok c') :
    ∃ rest, c'.rest = encode rest ∧ Meets .value opened cs rest := by
  obtain ⟨blanks, ds, q, rfl, hblanks, hds⟩ := exists_skipBlank p cs
  rw [skipFrom, hds] at hskip
  dsimp only at hskip
  split at hskip
  · cases hskip
  rename_i b bs hbs
  split at hskip
  · cases hskip
  · rename_i c₁ hscalar
    obtain ⟨v, ds, rfl, hv, hrest⟩ := exists_scalar hbs hscalar
    rw [Cursor.eq_of_rest hrest] at hskip
    obtain ⟨rest, hrest, hcloses⟩ := h hskip
    exact ⟨rest, hrest, blanks, v, ds, rfl, hblanks, hv, hcloses⟩
  · rename_i hnone
    obtain ⟨k, ds, rfl, rfl, hk⟩ := exists_opener hbs hnone
    rw [hk, hbs] at hskip
    obtain ⟨rest, hrest, inner, ds, rfl, hinner, hcloses⟩ := h hskip
    exact ⟨rest, hrest, blanks, k.opener :: (inner ++ [k.closer]), ds, by simp, hblanks,
      wellFormed_of_items hinner, hcloses⟩

theorem MeetsWithin.afterOpening (h : MeetsWithin fuel)
    (hskip : skipFrom (fuel + 1) .afterOpening (k :: opened) ⟨p, encode cs⟩ = .ok c') :
    ∃ rest, c'.rest = encode rest ∧ Meets .afterOpening (k :: opened) cs rest := by
  obtain ⟨blanks, ds, q, rfl, hblanks, hds⟩ := exists_skipBlank p cs
  rw [skipFrom, hds] at hskip
  dsimp only at hskip
  split at hskip
  · cases hskip
  rename_i b bs hbs
  split at hskip
  · rename_i hb
    subst hb
    obtain ⟨ds, rfl, rfl⟩ := exists_closer hbs
    rw [hbs] at hskip
    obtain ⟨rest, hrest, hcloses⟩ := h hskip
    exact ⟨rest, hrest, blanks, ds, rfl, .inl hblanks, hcloses⟩
  split at hskip
  · cases hskip
  rename_i c₁ hlead
  obtain ⟨rest, hrest, inner, ds, rfl, hinner, hcloses⟩ := h.item hlead hskip
  exact ⟨rest, hrest, blanks ++ inner, ds, by simp, .inr (hinner hblanks), hcloses⟩

theorem MeetsWithin.afterValue (h : MeetsWithin fuel)
    (hskip : skipFrom (fuel + 1) .afterValue (k :: opened) ⟨p, encode cs⟩ = .ok c') :
    ∃ rest, c'.rest = encode rest ∧ Closes (k :: opened) cs rest := by
  obtain ⟨blanks, ds, q, rfl, hblanks, hds⟩ := exists_skipBlank p cs
  rw [skipFrom, hds] at hskip
  dsimp only at hskip
  split at hskip
  · cases hskip
  rename_i b bs hbs
  split at hskip
  · rename_i hb
    subst hb
    obtain ⟨ds, rfl, rfl⟩ := exists_closer hbs
    rw [hbs] at hskip
    obtain ⟨rest, hrest, hcloses⟩ := h hskip
    exact ⟨rest, hrest, blanks, ds, rfl, .nothing hblanks, hcloses⟩
  split at hskip
  · cases hskip
  rename_i hcomma
  obtain rfl := Decidable.not_not.mp hcomma
  obtain ⟨ds, rfl, rfl⟩ := exists_cons_of_encode hbs (by decide)
  rw [hbs] at hskip
  split at hskip
  · cases hskip
  rename_i c₁ hlead
  obtain ⟨rest, hrest, inner, ds, rfl, hinner, hcloses⟩ := h.item hlead hskip
  exact ⟨rest, hrest, blanks ++ ',' :: inner, ds, by simp, .items hblanks (hinner blanks_nil),
    hcloses⟩

theorem meetsWithin (fuel : Nat) : MeetsWithin fuel := by
  induction fuel with
  | zero =>
    intro e opened p cs c h
    cases h
  | succ fuel ih =>
    intro e opened p cs c h
    cases e with
    | value => exact ih.value h
    | afterOpening =>
      cases opened with
      | nil =>
        cases h
        exact ⟨cs, rfl, rfl⟩
      | cons k opened => exact ih.afterOpening h
    | afterValue =>
      cases opened with
      | nil =>
        cases h
        exact ⟨cs, rfl, rfl⟩
      | cons k opened => exact ih.afterValue h

/-- What has been passed over is a value with the blanks in front of it. -/
theorem exists_value_of_skipValue {bound : Nat} {c' : Cursor}
    (h : skipValue bound ⟨p, encode cs⟩ = .ok c') :
    ∃ blanks v rest, cs = blanks ++ (v ++ rest) ∧ Blanks blanks ∧ WellFormed v ∧
      c'.rest = encode rest := by
  obtain ⟨rest, hrest, blanks, v, ds, hcs, hblanks, hv, rfl⟩ := meetsWithin _ h
  exact ⟨blanks, v, ds, hcs, hblanks, hv, hrest⟩

end Machine

end Larder.Json
