import Larder.Proofs.ValueGrammar

/-! A value nobody asked for is passed over from its first character to its last. The induction is
on the grammar, and says of each value where the reader stands behind it, whatever is open around
it, and in how many steps it comes there. A bracket that opens costs a second step without a byte,
the one that closes it pays for that, so the steps are at most twice the bytes. -/

namespace Larder.Json

open Text.Utf8

/-- Where a reader that passes over values stands. -/
structure Stand where
  expecting : Expecting
  opened : List Bracket
  cursor : Cursor

def Stand.skip (s : Stand) (fuel : Nat) : Except Fault Cursor :=
  skipFrom fuel s.expecting s.opened s.cursor

/-- From one stand the reader comes to another in so many steps at most. -/
def Leads (most : Nat) (s t : Stand) : Prop :=
  ∃ steps ≤ most, ∀ fuel, s.skip (fuel + steps) = t.skip fuel

def Bracket.opening : Bracket → UInt8
  | .list => 91
  | .object => 123

section Steps

variable {most more : Nat} {s t u : Stand}

theorem Leads.trans (h : Leads most s t) (h' : Leads more t u) : Leads (most + more) s u := by
  obtain ⟨steps, hsteps, hskip⟩ := h
  obtain ⟨steps', hsteps', hskip'⟩ := h'
  refine ⟨steps' + steps, by omega, fun fuel => ?_⟩
  rw [← Nat.add_assoc, hskip, hskip']

theorem Leads.mono (h : Leads most s t) (hle : most ≤ more) : Leads more s t := by
  obtain ⟨steps, hsteps, hskip⟩ := h
  exact ⟨steps, Nat.le_trans hsteps hle, hskip⟩

theorem leads_one (h : ∀ fuel, s.skip (fuel + 1) = t.skip fuel) : Leads 1 s t :=
  ⟨1, Nat.le_refl _, h⟩

variable {k : Bracket} {opened : List Bracket} {c c₁ : Cursor} {p : Place} {b : UInt8}
  {rest : Bytes}

theorem leads_scalar (hc : c.skipBlank = ⟨p, b :: rest⟩)
    (hscalar : skipScalar? ⟨p, b :: rest⟩ b = some (.ok c₁)) :
    Leads 1 ⟨.value, opened, c⟩ ⟨.afterValue, opened, c₁⟩ := by
  refine leads_one fun fuel => ?_
  simp only [Stand.skip, skipFrom, hc, hscalar]

theorem skipScalar?_of_isDigitByte (hb : isDigitByte b = true) (c : Cursor) :
    skipScalar? c b = some (skipNumeral c) := by
  simp only [skipScalar?, hb, if_true,
    ne_of_isDigitByte hb (show isDigitByte 110 = false by decide),
    ne_of_isDigitByte hb (show isDigitByte 116 = false by decide),
    ne_of_isDigitByte hb (show isDigitByte 102 = false by decide),
    ne_of_isDigitByte hb (show isDigitByte 45 = false by decide), if_false]

theorem leads_open (opened : List Bracket) (hc : c.skipBlank = ⟨p, k.opening :: rest⟩) :
    Leads 1 ⟨.value, opened, c⟩ ⟨.afterOpening, k :: opened, ⟨p.after k.opening, rest⟩⟩ := by
  refine leads_one fun fuel => ?_
  cases k <;> simp only [Bracket.opening] at hc ⊢ <;> simp only [Stand.skip, skipFrom, hc] <;> rfl

theorem leads_close {e : Expecting} (he : e ≠ .value) (hc : c.skipBlank = ⟨p, k.closing :: rest⟩) :
    Leads 1 ⟨e, k :: opened, c⟩ ⟨.afterValue, opened, ⟨p.after k.closing, rest⟩⟩ := by
  refine leads_one fun fuel => ?_
  cases e with
  | value => exact (he rfl).elim
  | afterOpening | afterValue => simp only [Stand.skip, skipFrom, hc, if_true, Cursor.skip]

theorem leads_first (hc : c.skipBlank = ⟨p, b :: rest⟩) (hb : b ≠ k.closing)
    (hlead : skipLead k c.skipBlank = .ok c₁) :
    Leads 1 ⟨.afterOpening, k :: opened, c⟩ ⟨.value, k :: opened, c₁⟩ := by
  refine leads_one fun fuel => ?_
  rw [hc] at hlead
  simp only [Stand.skip, skipFrom, hc, hb, if_false, hlead]

theorem leads_comma (hc : c.skipBlank = ⟨p, 44 :: rest⟩)
    (hlead : skipLead k ⟨p.after 44, rest⟩ = .ok c₁) :
    Leads 1 ⟨.afterValue, k :: opened, c⟩ ⟨.value, k :: opened, c₁⟩ := by
  refine leads_one fun fuel => ?_
  have hb : (44 : UInt8) ≠ k.closing := by cases k <;> decide
  simp only [Stand.skip, skipFrom, hc, hb, if_false, ne_eq, not_true_eq_false, Cursor.skip, hlead]

end Steps

section Values

variable {cs v : List Char} {b : UInt8} {rest : Bytes}

theorem skipBlank_blanks {blanks : List Char} (h : Blanks blanks) (hb : isBlankByte b = false)
    (p : Place) (rest : Bytes) :
    Cursor.skipBlank ⟨p, encode blanks ++ b :: rest⟩ =
      ⟨p.afterAll (encode blanks), b :: rest⟩ :=
  (skipBlankFrom_blanks h p (b :: rest)).trans (skipBlank_of_not_blank hb _ rest)

theorem skipBlank_skipBlank (c : Cursor) : c.skipBlank.skipBlank = c.skipBlank :=
  skipBlank_skipBlankFrom c.place c.rest

theorem encode_bracketed {a z : Char} (ha : a.toNat < 0x80) (hz : z.toNat < 0x80)
    (cs : List Char) (rest : Bytes) :
    encode (a :: (cs ++ [z])) ++ rest =
      UInt8.ofNat a.toNat :: (encode cs ++ UInt8.ofNat z.toNat :: rest) := by
  rw [encode_cons_of_lt ha, encode_append, encode_cons_of_lt hz, List.cons_append,
    List.append_assoc]
  rfl

theorem encode_comma (cs ds : List Char) :
    encode (cs ++ ',' :: ds) = encode cs ++ 44 :: encode ds := by
  rw [encode_append, encode_cons_of_lt (by decide)]
  rfl

/-- The first byte of a value. -/
theorem WellFormed.exists_cons (h : WellFormed cs) :
    ∃ b bs, encode cs = b :: bs ∧ isBlankByte b = false ∧ b ≠ 93 := by
  have hfirst : ∀ {a : Char} (ds : List Char), a.toNat < 0x80 →
      isBlankByte (UInt8.ofNat a.toNat) = false → UInt8.ofNat a.toNat ≠ 93 →
      ∃ b bs, encode (a :: ds) = b :: bs ∧ isBlankByte b = false ∧ b ≠ 93 :=
    fun ds ha hblank hne => ⟨_, encode ds, encode_cons_of_lt ha ds, hblank, hne⟩
  cases h with
  | word h =>
    simp only [List.mem_cons, List.not_mem_nil, or_false] at h
    rcases h with rfl | rfl | rfl
    all_goals exact hfirst _ (by decide) (by decide) (by decide)
  | number h =>
    have hnothing : ∀ b ∈ ([] : Bytes).head?, endsValue b = true := nofun
    obtain ⟨b, bs, -, hbs, ⟨rfl, -⟩ | ⟨hdigit, -⟩⟩ := h.skip hnothing ⟨1, 0⟩
    · exact ⟨45, bs, by rwa [List.append_nil] at hbs, by decide, by decide⟩
    · exact ⟨b, bs, by rwa [List.append_nil] at hbs, isBlankByte_of_isDigitByte hdigit,
        ne_of_isDigitByte hdigit (by decide)⟩
  | text | emptyList | list | emptyObject | object =>
    exact hfirst _ (by decide) (by decide) (by decide)

end Values

/-- A value is passed over wherever one is expected. -/
def Passes (v : List Char) : Prop :=
  ∀ opened c p rest, c.skipBlank = ⟨p, encode v ++ rest⟩ →
    (∀ b ∈ rest.head?, endsValue b = true) →
    ∃ p', Leads (2 * (encode v).length) ⟨.value, opened, c⟩ ⟨.afterValue, opened, ⟨p', rest⟩⟩

/-- The first byte of a text that is not blank is of a kind. -/
def Starts (Kind : UInt8 → Prop) (cs : List Char) : Prop :=
  ∀ p tail, ∃ q b bs, Cursor.skipBlank ⟨p, encode cs ++ tail⟩ = ⟨q, b :: bs⟩ ∧ Kind b

/-- An item of an open bracket is passed over, up to the comma or the bracket behind it. -/
structure PassesIn (k : Bracket) (cs : List Char) : Prop where
  starts : Starts (· ≠ k.closing) cs
  leads : ∀ opened c p b rest, b = 44 ∨ b = k.closing →
    c.skipBlank = Cursor.skipBlank ⟨p, encode cs ++ b :: rest⟩ →
    ∃ c₁ c₂ q, skipLead k c = .ok c₁ ∧
      Leads (2 * (encode cs).length) ⟨.value, k :: opened, c₁⟩ ⟨.afterValue, k :: opened, c₂⟩ ∧
      c₂.skipBlank = ⟨q, b :: rest⟩

section Items

variable {cs v : List Char} {k : Bracket} {b : UInt8}

theorem separator_byte (h : b = 44 ∨ b = k.closing) :
    isBlankByte b = false ∧ endsValue b = true := by
  rcases h with rfl | rfl
  · decide
  · cases k <;> decide

/-- A value ends at the blanks behind it, or where there are none, at what follows them. -/
theorem endsValue_of_blanks_cons {blanks : List Char} (h : Blanks blanks) (hb : endsValue b = true)
    (rest : Bytes) : ∀ x ∈ (encode blanks ++ b :: rest).head?, endsValue x = true := by
  cases hblanks : encode blanks with
  | nil =>
    rintro x ⟨⟩
    exact hb
  | cons a as =>
    have hends := endsValue_of_blanks h
    rw [hblanks] at hends
    exact hends

/-- Where the value of an element starts, and what is behind it. -/
theorem Element.skipBlank (h : Element cs v) (hv : WellFormed v) :
    ∃ b₂, Blanks b₂ ∧ (encode v).length ≤ (encode cs).length ∧ ∀ p tail, ∃ q,
      Cursor.skipBlank ⟨p, encode cs ++ tail⟩ = ⟨q, encode v ++ (encode b₂ ++ tail)⟩ := by
  obtain ⟨h₁, h₂⟩ := h
  refine ⟨_, h₂, ?_, fun p tail => ?_⟩
  · rw [encode_append, encode_append, List.length_append, List.length_append]
    omega
  · obtain ⟨b, bs, hbs, hb, -⟩ := hv.exists_cons
    rw [encode_append, encode_append, List.append_assoc, List.append_assoc, hbs, List.cons_append,
      skipBlank_blanks h₁ hb]
    exact ⟨_, rfl⟩

/-- Where the name of a member starts, and what is behind it. -/
theorem Member.skipBlank {α : Type} {Name : List Char → α → Prop} {name : α}
    (h : Member Name cs (name, v)) :
    ∃ written b₂ ds, Name written name ∧ Blanks b₂ ∧ Element ds v ∧
      (encode ds).length < (encode cs).length ∧ ∀ p tail, ∃ q,
        Cursor.skipBlank ⟨p, encode cs ++ tail⟩ =
          ⟨q, 34 :: (encode written ++ 34 :: (encode b₂ ++ 58 :: (encode ds ++ tail)))⟩ := by
  cases h with
  | @mk b₁ written b₂ ds _ _ h₁ hname h₂ hvalue =>
    have hbytes : encode (b₁ ++ '"' :: (written ++ '"' :: (b₂ ++ ':' :: ds))) =
        encode b₁ ++ 34 :: (encode written ++ 34 :: (encode b₂ ++ 58 :: encode ds)) := by
      simp only [encode_append, encode_cons_of_lt (show '"'.toNat < 0x80 by decide),
        encode_cons_of_lt (show ':'.toNat < 0x80 by decide)]
      rfl
    refine ⟨written, b₂, ds, hname, h₂, hvalue, ?_, fun p tail => ?_⟩
    · rw [hbytes]
      simp only [List.length_append, List.length_cons]
      omega
    · refine ⟨p.afterAll (encode b₁), ?_⟩
      rw [hbytes]
      simp only [List.append_assoc, List.cons_append]
      exact skipBlank_blanks h₁ (by decide) p _

theorem Element.leads (h : Element cs v) (hv : WellFormed v) (hpass : Passes v)
    (hb : b = 44 ∨ b = k.closing) (opened : List Bracket) {c : Cursor} {p : Place} {rest : Bytes}
    (hc : c.skipBlank = Cursor.skipBlank ⟨p, encode cs ++ b :: rest⟩) :
    ∃ c₂ q, Leads (2 * (encode cs).length) ⟨.value, opened, c⟩ ⟨.afterValue, opened, c₂⟩ ∧
      c₂.skipBlank = ⟨q, b :: rest⟩ := by
  obtain ⟨hblank, hends⟩ := separator_byte hb
  obtain ⟨b₂, h₂, hlength, hvalue⟩ := h.skipBlank hv
  obtain ⟨q, hq⟩ := hvalue p (b :: rest)
  have htail := endsValue_of_blanks_cons h₂ hends rest
  obtain ⟨p', hleads⟩ := hpass opened c q _ (hc.trans hq) htail
  exact ⟨_, _, hleads.mono (by omega), skipBlank_blanks h₂ hblank p' rest⟩

theorem Element.starts (h : Element cs v) (hv : WellFormed v) : Starts (· ≠ 93) cs := by
  intro p tail
  obtain ⟨b₂, -, -, hvalue⟩ := h.skipBlank hv
  obtain ⟨q, hq⟩ := hvalue p tail
  obtain ⟨b, bs, hbs, -, hne⟩ := hv.exists_cons
  rw [hbs] at hq
  exact ⟨q, b, _, hq, hne⟩

theorem Member.starts {α : Type} {Name : List Char → α → Prop} {m : α × List Char}
    (h : Member Name cs m) : Starts (· = 34) cs := by
  intro p tail
  obtain ⟨_, _, _, -, -, -, -, hname⟩ := h.skipBlank
  obtain ⟨q, hq⟩ := hname p tail
  exact ⟨q, 34, _, hq, rfl⟩

theorem Listed.starts {α : Type} {Item : List Char → α → Prop} {as : List α}
    {Kind : UInt8 → Prop} (h : Listed Item cs as)
    (hitems : ∀ ds, ∀ a ∈ as, Item ds a → Starts Kind ds) : Starts Kind cs := by
  intro p tail
  cases h with
  | one h => exact hitems _ _ List.mem_cons_self h p tail
  | more h _ =>
    rw [encode_append, List.append_assoc]
    exact hitems _ _ List.mem_cons_self h p _

theorem Element.passesIn (h : Element cs v) (hv : WellFormed v) (hpass : Passes v) :
    PassesIn .list cs where
  starts := h.starts hv
  leads opened c p b rest hb hc := by
    obtain ⟨c₂, q, hleads, hc₂⟩ := h.leads hv hpass hb (.list :: opened) hc
    exact ⟨c, c₂, q, rfl, hleads, hc₂⟩

theorem Member.passesIn {u : Unit} (h : Member (fun written _ => Quoted written) cs (u, v))
    (hv : WellFormed v) (hpass : Passes v) : PassesIn .object cs where
  starts p tail := by
    obtain ⟨q, b, bs, hq, rfl⟩ := h.starts p tail
    exact ⟨q, 34, bs, hq, by decide⟩
  leads opened c p b rest hb hc := by
    obtain ⟨written, b₂, ds, hquoted, h₂, hvalue, hlength, hname⟩ := h.skipBlank
    obtain ⟨q, hq⟩ := hname p (b :: rest)
    obtain ⟨q₁, hskip⟩ :=
      hquoted.skipText (q.after 34) (encode b₂ ++ 58 :: (encode ds ++ b :: rest))
    have hlead : skipLead .object c =
        .ok ⟨(q₁.afterAll (encode b₂)).after 58, encode ds ++ b :: rest⟩ := by
      simp only [skipLead, skipName, hc.trans hq, Cursor.skip, hskip,
        skipBlank_blanks h₂ (show isBlankByte 58 = false by decide)]
      rfl
    obtain ⟨c₂, q₂, hleads, hc₂⟩ := hvalue.leads hv hpass hb (.object :: opened) rfl
    exact ⟨_, c₂, q₂, hlead, hleads.mono (by omega), hc₂⟩

/-- The items of an open bracket are passed over with the bracket that closes it. -/
theorem Listed.leads {α : Type} {Item : List Char → α → Prop} {as : List α} (h : Listed Item cs as)
    (hitems : ∀ ds, ∀ a ∈ as, Item ds a → PassesIn k ds) (opened : List Bracket) {c : Cursor}
    {p : Place} {rest : Bytes}
    (hc : c.skipBlank = Cursor.skipBlank ⟨p, encode cs ++ k.closing :: rest⟩) :
    ∃ c₁ p', skipLead k c = .ok c₁ ∧
      Leads (2 * (encode cs).length + 1) ⟨.value, k :: opened, c₁⟩
        ⟨.afterValue, opened, ⟨p', rest⟩⟩ := by
  induction h generalizing c p with
  | @one ds a h =>
    obtain ⟨c₁, c₂, q, hlead, hvalue, hc₂⟩ :=
      (hitems ds a List.mem_cons_self h).leads opened c p _ rest (.inr rfl) hc
    exact ⟨c₁, _, hlead, hvalue.trans (leads_close (by decide) hc₂)⟩
  | @more ds es a as h _ ih =>
    have hbytes : encode (ds ++ ',' :: es) = encode ds ++ 44 :: encode es := encode_comma ds es
    rw [hbytes, List.append_assoc, List.cons_append] at hc
    obtain ⟨c₁, c₂, q, hlead, hvalue, hc₂⟩ :=
      (hitems ds a List.mem_cons_self h).leads opened c p 44 _ (.inl rfl) hc
    obtain ⟨c₃, p', hlead', hrest⟩ :=
      ih (fun fs x hx => hitems fs x (List.mem_cons_of_mem a hx)) rfl
    refine ⟨c₁, p', hlead, (hvalue.trans ((leads_comma hc₂ hlead').trans hrest)).mono ?_⟩
    rw [hbytes, List.length_append, List.length_cons]
    omega

section Brackets

/-- A text is what stands between two brackets of a kind, with the brackets. -/
def Encloses (k : Bracket) (cs v : List Char) : Prop :=
  ∀ rest, encode v ++ rest = k.opening :: (encode cs ++ k.closing :: rest)

variable {opened : List Bracket} {c : Cursor} {p : Place} {rest : Bytes}

theorem Encloses.length_eq (h : Encloses k cs v) : (encode v).length = (encode cs).length + 2 := by
  have hbytes := congrArg List.length (h [])
  rw [List.append_nil, List.length_cons, List.length_append, List.length_singleton] at hbytes
  omega

theorem encloses_list (cs : List Char) : Encloses .list cs ('[' :: (cs ++ [']'])) :=
  encode_bracketed (by decide) (by decide) cs

theorem encloses_object (cs : List Char) : Encloses .object cs ('\x7b' :: (cs ++ ['\x7d'])) :=
  encode_bracketed (by decide) (by decide) cs

theorem Encloses.passes_empty (hv : Encloses k cs v) (hcs : Blanks cs) : Passes v := by
  intro opened c p rest hc _
  rw [hv rest] at hc
  have hblank : isBlankByte k.closing = false := (separator_byte (.inr rfl)).1
  have hclose := skipBlank_blanks hcs hblank (p.after k.opening) rest
  have hlength := hv.length_eq
  exact ⟨_, ((leads_open opened hc).trans (leads_close (by decide) hclose)).mono (by omega)⟩

/-- Brackets are passed over with the items between them. -/
theorem Encloses.passes {α : Type} {Item : List Char → α → Prop} {as : List α}
    (hv : Encloses k cs v) (h : Listed Item cs as)
    (hitems : ∀ ds, ∀ a ∈ as, Item ds a → PassesIn k ds) : Passes v := by
  intro opened c p rest hc _
  rw [hv rest] at hc
  generalize hinside : (⟨p.after k.opening, encode cs ++ k.closing :: rest⟩ : Cursor) = inside
  have hblank : inside.skipBlank.skipBlank =
      Cursor.skipBlank ⟨p.after k.opening, encode cs ++ k.closing :: rest⟩ := by
    rw [skipBlank_skipBlank, hinside]
  obtain ⟨c₁, p', hlead, hrest⟩ := h.leads hitems opened hblank
  obtain ⟨q, b, bs, hq, hb⟩ := h.starts (fun ds a ha hitem => (hitems ds a ha hitem).starts)
    (p.after k.opening) (k.closing :: rest)
  rw [hinside] at hq
  have hopen := leads_open opened hc
  rw [hinside] at hopen
  have hlength := hv.length_eq
  exact ⟨p', ((hopen.trans (leads_first hq hb hlead)).trans hrest).mono (by omega)⟩

end Brackets

end Items

/-- Every value is passed over. -/
theorem WellFormed.passes {v : List Char} (h : WellFormed v) : Passes v := by
  induction h with
  | word h =>
    intro opened c p rest hc hrest
    simp only [List.mem_cons, List.not_mem_nil, or_false] at h
    rcases h with rfl | rfl | rfl
    all_goals exact ⟨_, (leads_scalar hc rfl).mono (by decide)⟩
  | @number cs h =>
    intro opened c p rest hc hrest
    obtain ⟨b, bs, p', hbs, hskip⟩ := h.skip hrest p
    have hpos : 0 < (encode cs).length := by
      obtain ⟨a, as, has, -, -⟩ := (WellFormed.number h).exists_cons
      rw [has]
      exact Nat.succ_pos _
    rw [hbs] at hc
    rcases hskip with ⟨rfl, hskip⟩ | ⟨hdigit, hskip⟩
    · exact ⟨p', (leads_scalar hc (congrArg some hskip)).mono (by omega)⟩
    · have hscalar := (skipScalar?_of_isDigitByte hdigit ⟨p, b :: bs⟩).trans (congrArg some hskip)
      exact ⟨p', (leads_scalar hc hscalar).mono (by omega)⟩
  | text h =>
    intro opened c p rest hc hrest
    obtain ⟨p', hskip⟩ := h.skipText (p.after 34) rest
    rw [encode_bracketed (by decide) (by decide)] at hc
    refine ⟨p', (leads_scalar hc (congrArg some hskip)).mono ?_⟩
    rw [encode_cons_of_lt (by decide), List.length_cons]
    omega
  | emptyList h => exact (encloses_list _).passes_empty h
  | list h hvalues ih =>
    exact (encloses_list _).passes h fun ds v hv hitem => hitem.passesIn (hvalues v hv) (ih v hv)
  | emptyObject h => exact (encloses_object _).passes_empty h
  | object h hvalues ih =>
    exact (encloses_object _).passes h fun ds m hm hitem => hitem.passesIn (hvalues m hm) (ih m hm)

/-- A value is passed over with the blanks in front of it, and nothing of what follows. -/
theorem WellFormed.skipValue {v : List Char} (h : WellFormed v) {bound : Nat}
    (hbound : (encode v).length ≤ bound) {c : Cursor} {p : Place} {rest : Bytes}
    (hc : c.skipBlank = ⟨p, encode v ++ rest⟩) (hrest : ∀ b ∈ rest.head?, endsValue b = true) :
    ∃ p', Json.skipValue bound c = .ok ⟨p', rest⟩ := by
  obtain ⟨p', steps, hsteps, hleads⟩ := h.passes [] c p rest hc hrest
  obtain ⟨fuel, hfuel⟩ : ∃ fuel, 2 * bound + 2 = (fuel + 1) + steps :=
    ⟨2 * bound + 1 - steps, by omega⟩
  refine ⟨p', ?_⟩
  rw [Json.skipValue, hfuel]
  exact hleads (fuel + 1)

end Larder.Json
