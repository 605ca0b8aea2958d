import Larder.Api.SetRequest
import Larder.Proofs.Members
import Larder.Proofs.PassedOver
import Larder.Proofs.RecordFields

/-! The texts that carry a request to store an entry. An object carries it by the names of its
members, in any order and any spelling, with members of other names between them; a list carries it
by the order of its elements. The reader takes each member that it finds, so what is left of the
members and what has been read of the request stand for the same request all the way. -/

namespace Larder.Api.SetRequest

open Json (Blanks Cursor Element Listed Member Numeral Place Spelling WellFormed)
open Record (Literal)
open Text.Utf8

/-- How a time to live is written; `null` is none. -/
inductive Seconds : List Char → Option Nat → Prop
  | null : Seconds "null".toList none
  | whole {ds : List Char} {n : Nat} (h : Numeral ds n) (hn : n < UInt64.size) : Seconds ds (some n)

/-- The values of all members of this name. -/
def valuesOf (name : String) (members : List (String × List Char)) : List (List Char) :=
  (members.filter fun m => m.1 = name).map Prod.snd

/-- The request that the members of an object make up. Other members do not matter. -/
structure Says (members : List (String × List Char)) (r : SetRequest) : Prop where
  key : ∃ k, valuesOf "key" members = [k] ∧ Literal k r.key
  value : ∃ v, valuesOf "value" members = [v] ∧ Literal v r.value
  ttl : valuesOf "ttl" members = [] ∧ r.ttl = none ∨
    ∃ t, valuesOf "ttl" members = [t] ∧ Seconds t r.ttl

/-- The request that the elements of a list make up. -/
inductive Lists : List (List Char) → SetRequest → Prop
  | brief {k v : List Char} {key value : String} (hkey : Literal k key) (hvalue : Literal v value) :
      Lists [k, v] ⟨key, value, none⟩
  | full {k v t : List Char} {key value : String} {ttl : Option Nat} (hkey : Literal k key)
      (hvalue : Literal v value) (httl : Seconds t ttl) : Lists [k, v, t] ⟨key, value, ttl⟩

/-- The texts that carry a request; what follows the object or the list does not matter. -/
inductive Carries : List Char → SetRequest → Prop
  | object {blanks cs rest : List Char} {members : List (String × List Char)} {r : SetRequest}
      (hblanks : Blanks blanks)
      (hmembers : Listed (Member fun written name => Spelling written name.toList) cs members)
      (hvalues : ∀ m ∈ members, WellFormed m.2) (hgiven : Says members r) :
      Carries (blanks ++ '\x7b' :: (cs ++ '\x7d' :: rest)) r
  | list {blanks cs rest : List Char} {values : List (List Char)} {r : SetRequest}
      (hblanks : Blanks blanks) (helements : Listed Element cs values) (hlists : Lists values r) :
      Carries (blanks ++ '[' :: (cs ++ ']' :: rest)) r

section Fields

variable {c : Cursor} {p : Place} {tail : Bytes}

theorem readText_of_literal {cs : List Char} {s : String} (h : Literal cs s)
    (hc : c.skipBlank = ⟨p, encode cs ++ tail⟩) : ∃ p', readText c = .ok (s, ⟨p', tail⟩) := by
  obtain ⟨h⟩ := h
  obtain ⟨p', hread⟩ := h.readText_quoted (p.after 34) tail
  rw [String.ofList_toList] at hread
  rw [Json.encode_cons_of_lt (by decide), List.cons_append] at hc
  refine ⟨p', ?_⟩
  simp only [readText, hc]
  exact congrArg (Except.mapError malformed) hread

theorem readSeconds_of_form {cs : List Char} {ttl : Option Nat} (h : Seconds cs ttl)
    (hc : c.skipBlank = ⟨p, encode cs ++ tail⟩)
    (htail : ∀ b ∈ tail.head?, Json.endsValue b = true) :
    ∃ p', readSeconds c = .ok (ttl, ⟨p', tail⟩) := by
  cases h with
  | null =>
    refine ⟨p.afterAll [110, 117, 108, 108], ?_⟩
    simp only [readSeconds, hc]
    rfl
  | @whole ds n h hn =>
    obtain ⟨p', hread⟩ := Json.readNumeral_toDigits hn htail p
    obtain ⟨a, as, rfl⟩ := List.exists_cons_of_ne_nil h.ne_nil
    obtain ⟨hbyte, hdigit, -⟩ := Json.digit_byte (h.digits a List.mem_cons_self)
    rw [← Json.numeral_iff.mp h, encode_cons, hbyte, List.singleton_append,
      List.cons_append] at hread
    rw [encode_cons, hbyte, List.singleton_append, List.cons_append] at hc
    have hnull := Json.ne_of_isDigitByte hdigit (show Json.isDigitByte 110 = false by decide)
    have hminus := Json.ne_of_isDigitByte hdigit (show Json.isDigitByte 45 = false by decide)
    refine ⟨p', ?_⟩
    simp only [readSeconds, hc, hnull, hminus, hdigit, if_false, or_true, if_true,
      beq_eq_false_iff_ne.mpr hminus, hread]

/-- A field of the draft is filled with what a value says. -/
inductive Fills (d : Draft) : Field → List Char → Draft → Prop
  | key {cs : List Char} {s : String} (h : Literal cs s) : Fills d .key cs { d with key := some s }
  | value {cs : List Char} {s : String} (h : Literal cs s) :
      Fills d .value cs { d with value := some s }
  | ttl {cs : List Char} {ttl : Option Nat} (h : Seconds cs ttl) :
      Fills d .ttl cs { d with ttl := some ttl }

theorem Fills.readField {d d' : Draft} {field : Field} {cs : List Char} (h : Fills d field cs d')
    (hc : c.skipBlank = ⟨p, encode cs ++ tail⟩)
    (htail : ∀ b ∈ tail.head?, Json.endsValue b = true) :
    ∃ p', SetRequest.readField d field c = .ok (d', ⟨p', tail⟩) := by
  cases h with
  | key h | value h =>
    obtain ⟨p', hread⟩ := readText_of_literal h hc
    exact ⟨p', by rw [SetRequest.readField, hread]; rfl⟩
  | ttl h =>
    obtain ⟨p', hread⟩ := readSeconds_of_form h hc htail
    exact ⟨p', by rw [SetRequest.readField, hread]; rfl⟩

end Fields

/-- What a field is to hold has been read and does not come again, or comes once. -/
def Due {α : Type} (done : Option α) (left : List (List Char)) (Writes : List Char → α → Prop)
    (a : α) : Prop :=
  done = some a ∧ left = [] ∨ done = none ∧ ∃ v, left = [v] ∧ Writes v a

/-- A draft and the members that are left make up the request. -/
structure Pending (d : Draft) (members : List (String × List Char)) (r : SetRequest) : Prop where
  key : Due d.key (valuesOf "key" members) Literal r.key
  value : Due d.value (valuesOf "value" members) Literal r.value
  ttl : d.ttl = none ∧ valuesOf "ttl" members = [] ∧ r.ttl = none ∨
    Due d.ttl (valuesOf "ttl" members) Seconds r.ttl

section Drafts

variable {d : Draft} {members : List (String × List Char)} {r : SetRequest} {name : String}
  {v : List Char}

theorem Says.pending (h : Says members r) : Pending .empty members r where
  key := .inr ⟨rfl, h.key⟩
  value := .inr ⟨rfl, h.value⟩
  ttl := h.ttl.imp (fun ⟨hnone, hr⟩ => ⟨rfl, hnone, hr⟩) fun hone => .inr ⟨rfl, hone⟩

theorem Due.eq_some {α : Type} {done : Option α} {Writes : List Char → α → Prop} {a : α}
    (h : Due done [] Writes a) : done = some a := by
  rcases h with ⟨hdone, -⟩ | ⟨-, v, hleft, -⟩
  · exact hdone
  · cases hleft

theorem Due.of_cons {α : Type} {done : Option α} {left : List (List Char)}
    {Writes : List Char → α → Prop} {a : α} (h : Due done (v :: left) Writes a) :
    done = none ∧ left = [] ∧ Writes v a := by
  rcases h with ⟨-, hleft⟩ | ⟨hdone, w, hleft, hwrites⟩
  · cases hleft
  · cases hleft
    exact ⟨hdone, rfl, hwrites⟩

/-- A draft that nothing is missing from is the request. -/
theorem Pending.finish (h : Pending d [] r) : d.finish = .ok r := by
  obtain ⟨hkey, hvalue, httl⟩ := h
  have hseconds : d.ttl.getD none = r.ttl := by
    rcases httl with ⟨hnone, -, hr⟩ | hdue
    · rw [hnone, hr]
      rfl
    · rw [Due.eq_some hdue]
      rfl
  rw [Draft.finish, Due.eq_some hkey, Due.eq_some hvalue, hseconds]

theorem valuesOf_cons_self (name : String) (v : List Char) (members : List (String × List Char)) :
    valuesOf name ((name, v) :: members) = v :: valuesOf name members := by
  simp [valuesOf]

theorem valuesOf_cons_of_ne {other : String} (h : name ≠ other) (v : List Char)
    (members : List (String × List Char)) :
    valuesOf other ((name, v) :: members) = valuesOf other members := by
  simp [valuesOf, h]

theorem Field.ofName?_name (field : Field) : Field.ofName? field.name = some field := by
  cases field <;> decide

theorem Field.name_of_ofName? {field : Field} (h : Field.ofName? name = some field) :
    name = field.name := by
  have hfound := List.find?_some (p := fun f : Field => f.name == name) h
  exact (beq_iff_eq.mp hfound).symm

/-- A member of another name does not matter. -/
theorem pending_other (hname : Field.ofName? name = none) (v : List Char) :
    Pending d ((name, v) :: members) r ↔ Pending d members r := by
  have hother : ∀ field : Field,
      valuesOf field.name ((name, v) :: members) = valuesOf field.name members := by
    intro field
    refine valuesOf_cons_of_ne ?_ v members
    rintro rfl
    rw [Field.ofName?_name] at hname
    cases hname
  have hkey : valuesOf "key" ((name, v) :: members) = _ := hother .key
  have hvalue : valuesOf "value" ((name, v) :: members) = _ := hother .value
  have httl : valuesOf "ttl" ((name, v) :: members) = _ := hother .ttl
  constructor
  · rintro ⟨hk, hv, ht⟩
    exact ⟨hkey ▸ hk, hvalue ▸ hv, httl ▸ ht⟩
  · rintro ⟨hk, hv, ht⟩
    exact ⟨hkey ▸ hk, hvalue ▸ hv, httl ▸ ht⟩

/-- A value is read into the draft, and nothing of what follows it. -/
def Takes (bound : Nat) (d : Draft) (name : String) (v : List Char) (d' : Draft) : Prop :=
  ∀ c p tail, c.skipBlank = ⟨p, encode v ++ tail⟩ → (∀ b ∈ tail.head?, Json.endsValue b = true) →
    ∃ p', readMember bound d name c = .ok (d', ⟨p', tail⟩)

theorem takes_other (hname : Field.ofName? name = none) (hv : WellFormed v) {bound : Nat}
    (hbound : (encode v).length ≤ bound) : Takes bound d name v d := by
  intro c p tail hc htail
  obtain ⟨p', hskip⟩ := hv.skipValue hbound hc htail
  refine ⟨p', ?_⟩
  simp only [readMember, hname, hskip]
  rfl

theorem takes_field {field : Field} {d' : Draft} (h : Fills d field v d') (bound : Nat) :
    Takes bound d field.name v d' := by
  intro c p tail hc htail
  obtain ⟨p', hread⟩ := h.readField hc htail
  refine ⟨p', ?_⟩
  simp only [readMember, Field.ofName?_name, hread]
  rfl

/-- The member that comes next is one that is due or of no matter, and then the rest is due. -/
theorem Pending.takes (h : Pending d ((name, v) :: members) r) (hv : WellFormed v) (bound : Nat)
    (hbound : (encode v).length ≤ bound) :
    isDuplicate? d name = none ∧ ∃ d', Takes bound d name v d' ∧ Pending d' members r := by
  cases hfield : Field.ofName? name with
  | none =>
    refine ⟨?_, d, takes_other hfield hv hbound, (pending_other hfield v).mp h⟩
    rw [isDuplicate?, hfield]
    rfl
  | some field =>
    obtain ⟨hkey, hvalue, httl⟩ := h
    obtain rfl := Field.name_of_ofName? hfield
    have hfresh : d.has field = false → isDuplicate? d field.name = none := by
      intro hhas
      rw [isDuplicate?, hfield, Option.filter_some, hhas]
      rfl
    cases field with
    | key =>
      simp only [Field.name, valuesOf_cons_self] at hkey
      obtain ⟨hnone, hleft, hwrites⟩ := hkey.of_cons
      refine ⟨hfresh (by rw [Draft.has, hnone]; rfl), _, takes_field (.key hwrites) bound,
        ⟨.inl ⟨rfl, hleft⟩, ?_, ?_⟩⟩
      · rwa [valuesOf_cons_of_ne (by decide)] at hvalue
      · rwa [valuesOf_cons_of_ne (by decide)] at httl
    | value =>
      simp only [Field.name, valuesOf_cons_self] at hvalue
      obtain ⟨hnone, hleft, hwrites⟩ := hvalue.of_cons
      refine ⟨hfresh (by rw [Draft.has, hnone]; rfl), _, takes_field (.value hwrites) bound,
        ⟨?_, .inl ⟨rfl, hleft⟩, ?_⟩⟩
      · rwa [valuesOf_cons_of_ne (by decide)] at hkey
      · rwa [valuesOf_cons_of_ne (by decide)] at httl
    | ttl =>
      simp only [Field.name, valuesOf_cons_self] at httl
      obtain ⟨-, hleft, -⟩ | hdue := httl
      · cases hleft
      obtain ⟨hnone, hleft, hwrites⟩ := hdue.of_cons
      refine ⟨hfresh (by rw [Draft.has, hnone]; rfl), _, takes_field (.ttl hwrites) bound,
        ⟨?_, ?_, .inr (.inl ⟨rfl, hleft⟩)⟩⟩
      · rwa [valuesOf_cons_of_ne (by decide)] at hkey
      · rwa [valuesOf_cons_of_ne (by decide)] at hvalue

end Drafts

/-- How the name of a member is written. -/
abbrev Names (written : List Char) (name : String) : Prop := Spelling written name.toList

section Reading

variable {d d' : Draft} {cs v : List Char} {name : String} {c : Cursor} {p : Place} {b : UInt8}
  {rest : Bytes}

/-- The reader takes the member it is at, up to the comma or the brace behind it. -/
theorem readMembers_member (h : Member Names cs (name, v)) (hv : WellFormed v) {fuel : Nat}
    (hfresh : isDuplicate? d name = none) (htakes : Takes fuel d name v d')
    (hb : b = 44 ∨ b = 125) {first : Bool}
    (hnext : Json.nextMember first c =
      .ok (true, Cursor.skipBlank ⟨p, encode cs ++ b :: rest⟩)) :
    ∃ c₂ q, readMembers (fuel + 1) first d c = readMembers fuel false d' c₂ ∧
      c₂.skipBlank = ⟨q, b :: rest⟩ := by
  obtain ⟨written, b₂, ds, hname, h₂, hvalue, -, hstart⟩ := h.skipBlank
  obtain ⟨b₃, h₃, -, hvalue⟩ := hvalue.skipBlank hv
  obtain ⟨q, hq⟩ := hstart p (b :: rest)
  rw [hq] at hnext
  obtain ⟨hblank, hends⟩ := Json.separator_byte (k := .object) hb
  obtain ⟨q₁, hread⟩ := hname.readText_quoted (q.after 34)
    (encode b₂ ++ 58 :: (encode ds ++ b :: rest))
  rw [encode_append, List.append_assoc, String.ofList_toList] at hread
  have hcolon := Json.readColon_of_skipBlank
    (Json.skipBlank_blanks h₂ (show Json.isBlankByte 58 = false by decide) q₁
      (encode ds ++ b :: rest))
  obtain ⟨q₂, hq₂⟩ := hvalue ((q₁.afterAll (encode b₂)).after 58) (b :: rest)
  have htail := Json.endsValue_of_blanks_cons h₃ hends rest
  obtain ⟨p', hmember⟩ := htakes _ q₂ _ hq₂ htail
  refine ⟨⟨p', encode b₃ ++ b :: rest⟩, _, ?_, Json.skipBlank_blanks h₃ hblank p' rest⟩
  have hquote : Json.readText (q.after 34) []
      (encode written ++ 34 :: (encode b₂ ++ 58 :: (encode ds ++ b :: rest))) = _ := hread
  rw [readMembers, hnext]
  simp only [Cursor.skip, hquote, hfresh, hcolon, hmember]

theorem length_lt_of_member (h : Member Names cs (name, v)) (hv : WellFormed v) :
    (encode v).length < (encode cs).length := by
  obtain ⟨written, b₂, ds, -, -, hvalue, hlt, -⟩ := h.skipBlank
  obtain ⟨b₃, -, hle, -⟩ := hvalue.skipBlank hv
  exact Nat.lt_of_le_of_lt hle hlt

/-- The members up to the closing brace are read as the request that they make up with what has
been read before. -/
theorem readMembers_of_pending {members : List (String × List Char)}
    (h : Listed (Member Names) cs members) (hvalues : ∀ m ∈ members, WellFormed m.2)
    {r : SetRequest} (hr : Pending d members r) {fuel : Nat}
    (hfuel : (encode cs).length < fuel) {first : Bool}
    (hnext : Json.nextMember first c =
      .ok (true, Cursor.skipBlank ⟨p, encode cs ++ 125 :: rest⟩)) :
    ∃ p', readMembers fuel first d c = .ok (r, ⟨p', rest⟩) := by
  induction h generalizing d c p fuel first with
  | @one ds m h =>
    obtain ⟨fuel, rfl⟩ := Nat.exists_eq_add_one_of_ne_zero (Nat.ne_zero_of_lt hfuel)
    have hv : WellFormed m.2 := hvalues m List.mem_cons_self
    have hlength := length_lt_of_member h hv
    obtain ⟨hfresh, d', htakes, hrest⟩ := hr.takes hv fuel (by omega)
    obtain ⟨c₂, q, hmember, hc₂⟩ := readMembers_member h hv hfresh htakes (.inr rfl) hnext
    obtain ⟨fuel, rfl⟩ := Nat.exists_eq_add_one_of_ne_zero (show fuel ≠ 0 by omega)
    refine ⟨q.after 125, ?_⟩
    rw [hmember, readMembers, Json.nextMember_brace hc₂, hrest.finish]
    rfl
  | @more ds es m members h hlisted ih =>
    obtain ⟨fuel, rfl⟩ := Nat.exists_eq_add_one_of_ne_zero (Nat.ne_zero_of_lt hfuel)
    have hbytes : encode (ds ++ ',' :: es) = encode ds ++ 44 :: encode es :=
      Json.encode_comma ds es
    rw [hbytes, List.length_append, List.length_cons] at hfuel
    rw [hbytes, List.append_assoc, List.cons_append] at hnext
    have hv : WellFormed m.2 := hvalues m List.mem_cons_self
    have hlength := length_lt_of_member h hv
    obtain ⟨hfresh, d', htakes, hrest⟩ := hr.takes hv fuel (by omega)
    obtain ⟨c₂, q, hmember, hc₂⟩ := readMembers_member h hv hfresh htakes (.inl rfl) hnext
    rw [hmember]
    obtain ⟨q', _, bs, hq', rfl⟩ :=
      hlisted.starts (fun _ _ _ hmember => hmember.starts) (q.after 44) (125 :: rest)
    have hcomma := Json.nextMember_comma hc₂ hq'
    rw [← hq'] at hcomma
    exact ih (fun x hx => hvalues x (List.mem_cons_of_mem m hx)) hrest (by omega) hcomma

/-- An object that carries a request is read as this request. -/
theorem read_object {members : List (String × List Char)}
    (h : Listed (Member Names) cs members) (hvalues : ∀ m ∈ members, WellFormed m.2)
    {r : SetRequest} (hr : Says members r)
    (hc : c.skipBlank = ⟨p, 123 :: (encode cs ++ 125 :: rest)⟩) :
    ∃ p', read c = .ok (r, ⟨p', rest⟩) := by
  obtain ⟨q, _, bs, hq, rfl⟩ :=
    h.starts (fun _ _ _ hmember => hmember.starts) (p.after 123) (125 :: rest)
  have hnext := Json.nextMember_first hq
  rw [← hq] at hnext
  have hfuel : (encode cs).length < (encode cs ++ 125 :: rest).length + 1 := by
    rw [List.length_append]
    omega
  obtain ⟨p', hread⟩ := readMembers_of_pending h hvalues hr.pending hfuel hnext
  refine ⟨p', ?_⟩
  simp only [read, hc, if_true, Cursor.skip, hread]

end Reading

section Lists

variable {d d' : Draft} {cs v : List Char} {c : Cursor} {p : Place} {b : UInt8} {rest : Bytes}

theorem nextItem_first (hc : c.skipBlank = ⟨p, b :: rest⟩) (hb : b ≠ 93) :
    Json.nextItem true c = .ok (true, ⟨p, b :: rest⟩) := by
  simp only [Json.nextItem, hc, hb, if_false, if_true]

theorem nextItem_comma (hc : c.skipBlank = ⟨p, 44 :: rest⟩) {p' : Place} {rest' : Bytes}
    (hitem : Cursor.skipBlank ⟨p.after 44, rest⟩ = ⟨p', b :: rest'⟩) (hb : b ≠ 93) :
    Json.nextItem false c = .ok (true, ⟨p', b :: rest'⟩) := by
  simp only [Json.nextItem, hc, Cursor.skip, hitem, hb, if_false]
  rfl

theorem nextItem_bracket (hc : c.skipBlank = ⟨p, 93 :: rest⟩) (first : Bool) :
    Json.nextItem first c = .ok (false, ⟨p, 93 :: rest⟩) := by
  rw [Json.nextItem, hc]
  rfl

theorem Fills.wellFormed {field : Field} (h : Fills d field v d') : WellFormed v := by
  cases h with
  | key h | value h =>
    obtain ⟨h⟩ := h
    exact .text h.quoted
  | ttl h =>
    cases h with
    | null => exact .word (by decide)
    | whole h _ => exact h.wellFormed

/-- The fields are filled with the values in their order, as far as these go, and nothing is missing
then. -/
inductive FillsAll : Draft → List Field → List (List Char) → SetRequest → Prop
  | done {d : Draft} {fields : List Field} {r : SetRequest} (h : d.finish = .ok r) :
      FillsAll d fields [] r
  | next {d d' : Draft} {field : Field} {fields : List Field} {v : List Char}
      {values : List (List Char)} {r : SetRequest} (h : Fills d field v d')
      (hrest : FillsAll d' fields values r) : FillsAll d (field :: fields) (v :: values) r

theorem FillsAll.wellFormed {fields : List Field} {values : List (List Char)} {r : SetRequest}
    (h : FillsAll d fields values r) : ∀ v ∈ values, WellFormed v := by
  induction h with
  | done => exact nofun
  | next h _ ih => exact List.forall_mem_cons.mpr ⟨h.wellFormed, ih⟩

theorem Lists.fillsAll {values : List (List Char)} {r : SetRequest} (h : Lists values r) :
    FillsAll .empty Field.all values r := by
  cases h with
  | brief hkey hvalue => exact .next (.key hkey) (.next (.value hvalue) (.done rfl))
  | full hkey hvalue httl =>
    exact .next (.key hkey) (.next (.value hvalue) (.next (.ttl httl) (.done rfl)))

/-- The reader takes the element it is at, up to the comma or the bracket behind it. -/
theorem readElements_element {field : Field} (h : Element cs v) (hfills : Fills d field v d')
    (hb : b = 44 ∨ b = 93) {i : Nat} (fields : List Field)
    (hnext : Json.nextItem (i == 0) c =
      .ok (true, Cursor.skipBlank ⟨p, encode cs ++ b :: rest⟩)) :
    ∃ c₂ q, readElements i d (field :: fields) c = readElements (i + 1) d' fields c₂ ∧
      c₂.skipBlank = ⟨q, b :: rest⟩ := by
  obtain ⟨b₂, h₂, -, hvalue⟩ := h.skipBlank hfills.wellFormed
  obtain ⟨q, hq⟩ := hvalue p (b :: rest)
  obtain ⟨hblank, hends⟩ := Json.separator_byte (k := .list) hb
  have htail := Json.endsValue_of_blanks_cons h₂ hends rest
  obtain ⟨p', hread⟩ := hfills.readField ((Json.skipBlank_skipBlank _).trans hq) htail
  refine ⟨⟨p', encode b₂ ++ b :: rest⟩, _, ?_, Json.skipBlank_blanks h₂ hblank p' rest⟩
  rw [readElements, hnext]
  simp only [hread]
  rfl

/-- The elements up to the closing bracket are read as the request that they make up with what has
been read before. -/
theorem readElements_of_fillsAll {values : List (List Char)} (h : Listed Element cs values)
    {fields : List Field} {r : SetRequest} (hr : FillsAll d fields values r) {i : Nat}
    (hnext : Json.nextItem (i == 0) c =
      .ok (true, Cursor.skipBlank ⟨p, encode cs ++ 93 :: rest⟩)) :
    ∃ p', readElements i d fields c = .ok (r, ⟨p', rest⟩) := by
  induction h generalizing d c p fields i with
  | @one ds v h =>
    cases hr with
    | @next _ d' field fields _ _ _ hfills hrest =>
      obtain ⟨c₂, q, helement, hc₂⟩ := readElements_element h hfills (.inr rfl) fields hnext
      cases hrest with
      | done hfinish =>
        refine ⟨q.after 93, ?_⟩
        rw [helement]
        cases fields with
        | nil =>
          simp only [readElements, hfinish, closeList, hc₂]
          rfl
        | cons field fields =>
          rw [readElements, nextItem_bracket hc₂]
          simp only [hfinish, Cursor.skip]
  | @more ds es v values h hlisted ih =>
    have hbytes : encode (ds ++ ',' :: es) = encode ds ++ 44 :: encode es :=
      Json.encode_comma ds es
    rw [hbytes, List.append_assoc, List.cons_append] at hnext
    cases hr with
    | @next _ d' field fields _ _ _ hfills hrest =>
      obtain ⟨c₂, q, helement, hc₂⟩ := readElements_element h hfills (.inl rfl) fields hnext
      rw [helement]
      obtain ⟨q', a, bs, hq', ha⟩ := hlisted.starts
        (fun _ v hv helement => helement.starts (hrest.wellFormed v hv)) (q.after 44) (93 :: rest)
      have hcomma := nextItem_comma hc₂ hq' ha
      rw [← hq'] at hcomma
      exact ih hrest hcomma

/-- A list that carries a request is read as this request. -/
theorem read_list {values : List (List Char)} (h : Listed Element cs values) {r : SetRequest}
    (hr : Lists values r) (hc : c.skipBlank = ⟨p, 91 :: (encode cs ++ 93 :: rest)⟩) :
    ∃ p', read c = .ok (r, ⟨p', rest⟩) := by
  have hfills := hr.fillsAll
  obtain ⟨q, b, bs, hq, hb⟩ := h.starts
    (fun _ v hv helement => helement.starts (hfills.wellFormed v hv)) (p.after 91) (93 :: rest)
  have hnext := nextItem_first hq hb
  rw [← hq] at hnext
  obtain ⟨p', hread⟩ := readElements_of_fillsAll h hfills (i := 0) hnext
  refine ⟨p', ?_⟩
  simp only [read, hc, Cursor.skip]
  exact hread

end Lists

/-- A text that carries a request is read as this request. -/
theorem ofBody_of_carries {text : List Char} {r : SetRequest} (h : Carries text r) :
    ofBody (encode text) = .ok r := by
  cases h with
  | @object blanks cs rest members _ hblanks hmembers hvalues hgiven =>
    have hc : (Cursor.start (encode (blanks ++ '\x7b' :: (cs ++ '\x7d' :: rest)))).skipBlank =
        ⟨Place.afterAll ⟨1, 0⟩ (encode blanks), 123 :: (encode cs ++ 125 :: encode rest)⟩ := by
      simp only [encode_append, Json.encode_cons_of_lt (show '\x7b'.toNat < 0x80 by decide),
        Json.encode_cons_of_lt (show '\x7d'.toNat < 0x80 by decide)]
      exact Json.skipBlank_blanks hblanks (by decide) ⟨1, 0⟩ _
    obtain ⟨p', hread⟩ := read_object hmembers hvalues hgiven hc
    rw [ofBody, hread]
    rfl
  | @list blanks cs rest values _ hblanks helements hlists =>
    have hc : (Cursor.start (encode (blanks ++ '[' :: (cs ++ ']' :: rest)))).skipBlank =
        ⟨Place.afterAll ⟨1, 0⟩ (encode blanks), 91 :: (encode cs ++ 93 :: encode rest)⟩ := by
      simp only [encode_append, Json.encode_cons_of_lt (show '['.toNat < 0x80 by decide),
        Json.encode_cons_of_lt (show ']'.toNat < 0x80 by decide)]
      exact Json.skipBlank_blanks hblanks (by decide) ⟨1, 0⟩ _
    obtain ⟨p', hread⟩ := read_list helements hlists hc
    rw [ofBody, hread]
    rfl

end Larder.Api.SetRequest
