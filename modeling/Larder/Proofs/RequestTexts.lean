import Larder.Proofs.RequestBodies
import Larder.Proofs.SkippedTexts

/-! A text is read as a request exactly where it carries this request. The reader's steps are taken
back one at a time: from what has been read and what a step has filled in, what was still to come
before it. -/

namespace Larder.Api.SetRequest

open Json (Blanks Cursor Element Listed Member Place Spelling WellFormed)
open Record (Literal)
open Text.Utf8

section Fields

variable {cs : List Char} {p : Place} {c : Cursor}

theorem ok_of_mapError {ε ε' α : Type} {f : ε → ε'} {x : Except ε α} {a : α}
    (h : x.mapError f = .ok a) : x = .ok a := by
  cases x with
  | error e => cases h
  | ok b => exact congrArg _ (Except.ok.inj h)

theorem exists_literal_of_readText {s : String} (h : readText ⟨p, encode cs⟩ = .ok (s, c)) :
    ∃ blanks v rest, cs = blanks ++ (v ++ rest) ∧ Blanks blanks ∧ Literal v s ∧
      c.rest = encode rest := by
  obtain ⟨blanks, ds, q, rfl, hblanks, hskip⟩ := Json.exists_skipBlank p cs
  simp only [readText, hskip] at h
  split at h
  · rename_i hquote
    cases hbs : encode ds with
    | nil =>
      rw [hbs] at hquote
      cases hquote
    | cons b bs =>
      rw [hbs] at h hquote
      obtain rfl : b = 34 := Option.some.inj hquote
      obtain ⟨ds, rfl, rfl⟩ := Json.exists_cons_of_encode hbs (by decide)
      obtain ⟨written, rest, rfl, hwritten, hrest⟩ :=
        Json.exists_spelling_of_readText (ok_of_mapError h)
      exact ⟨blanks, '"' :: (written ++ ['"']), rest, by simp, hblanks, ⟨hwritten⟩, hrest⟩
  · cases h

theorem exists_seconds_of_readSeconds {ttl : Option Nat}
    (h : readSeconds ⟨p, encode cs⟩ = .ok (ttl, c)) :
    ∃ blanks v rest, cs = blanks ++ (v ++ rest) ∧ Blanks blanks ∧ Seconds v ttl ∧
      c.rest = encode rest := by
  obtain ⟨blanks, ds, q, rfl, hblanks, hskip⟩ := Json.exists_skipBlank p cs
  simp only [readSeconds, hskip] at h
  split at h
  · cases h
  rename_i b bs hbs
  split at h
  · rename_i hb
    subst hb
    obtain ⟨ds, rfl, rfl⟩ := Json.exists_cons_of_encode hbs (by decide)
    rw [hbs] at h
    split at h
    · cases h
    rename_i c₁ hnull
    cases h
    obtain ⟨rest, rfl, hrest⟩ := Json.exists_word ['u', 'l', 'l'] (by simp) hnull
    exact ⟨blanks, "null".toList, rest, rfl, hblanks, .null, hrest⟩
  split at h
  · split at h
    · cases h
    · rename_i n c₁ hread
      cases h
      have hminus := Json.minus_eq_false_of_readNumeral hread
      rw [hminus, if_neg (beq_eq_false_iff_ne.mp hminus)] at hread
      obtain ⟨hn, rest, rfl, hrest⟩ := Json.exists_numeral hread
      exact ⟨blanks, Nat.toDigits 10 n, rest, rfl, hblanks,
        .whole (Json.numeral_iff.mpr rfl) hn, hrest⟩
    · cases h
    · cases h
  · cases h

theorem exists_fills_of_readField {d d' : Draft} {field : Field}
    (h : SetRequest.readField d field ⟨p, encode cs⟩ = .ok (d', c)) :
    ∃ blanks v rest, cs = blanks ++ (v ++ rest) ∧ Blanks blanks ∧ Fills d field v d' ∧
      c.rest = encode rest := by
  cases field with
  | key =>
    obtain ⟨⟨s, c₁⟩, hread, hd⟩ := Json.exists_of_map_eq_ok h
    cases hd
    obtain ⟨blanks, v, rest, hcs, hblanks, hv, hrest⟩ := exists_literal_of_readText hread
    exact ⟨blanks, v, rest, hcs, hblanks, .key hv, hrest⟩
  | value =>
    obtain ⟨⟨s, c₁⟩, hread, hd⟩ := Json.exists_of_map_eq_ok h
    cases hd
    obtain ⟨blanks, v, rest, hcs, hblanks, hv, hrest⟩ := exists_literal_of_readText hread
    exact ⟨blanks, v, rest, hcs, hblanks, .value hv, hrest⟩
  | ttl =>
    obtain ⟨⟨ttl, c₁⟩, hread, hd⟩ := Json.exists_of_map_eq_ok h
    cases hd
    obtain ⟨blanks, v, rest, hcs, hblanks, hv, hrest⟩ := exists_seconds_of_readSeconds hread
    exact ⟨blanks, v, rest, hcs, hblanks, .ttl hv, hrest⟩

end Fields

section Members

variable {cs : List Char} {p : Place} {c : Cursor} {d d' : Draft} {name : String} {v : List Char}
  {members : List (String × List Char)} {r : SetRequest}

/-- What a member makes of a draft. -/
inductive Enters (d : Draft) : String → List Char → Draft → Prop
  | field {field : Field} {v : List Char} {d' : Draft} (h : Fills d field v d') :
      Enters d field.name v d'
  | other {name : String} {v : List Char} (hname : Field.ofName? name = none)
      (hv : WellFormed v) : Enters d name v d

theorem exists_enters_of_readMember {bound : Nat}
    (h : readMember bound d name ⟨p, encode cs⟩ = .ok (d', c)) :
    ∃ blanks v rest, cs = blanks ++ (v ++ rest) ∧ Blanks blanks ∧ Enters d name v d' ∧
      c.rest = encode rest := by
  have hread := ok_of_mapError h
  split at hread
  · rename_i field hfield
    obtain rfl := Field.name_of_ofName? hfield
    obtain ⟨blanks, v, rest, hcs, hblanks, hv, hrest⟩ := exists_fills_of_readField hread
    exact ⟨blanks, v, rest, hcs, hblanks, .field hv, hrest⟩
  · rename_i hname
    obtain ⟨c₁, hskip, hd⟩ := Json.exists_of_map_eq_ok hread
    cases hd
    obtain ⟨blanks, v, rest, hcs, hblanks, hv, hrest⟩ :=
      Json.exists_value_of_skipValue (ok_of_mapError hskip)
    exact ⟨blanks, v, rest, hcs, hblanks, .other hname hv, hrest⟩

theorem Enters.wellFormed (h : Enters d name v d') : WellFormed v := by
  cases h with
  | field h => exact h.wellFormed
  | other _ hv => exact hv

theorem Due.cons {α : Type} {a b : α} {left : List (List Char)} {Writes : List Char → α → Prop}
    (h : Due (some b) left Writes a) (hv : Writes v b) : Due none (v :: left) Writes a := by
  rcases h with ⟨hdone, rfl⟩ | ⟨hnone, -⟩
  · cases hdone
    exact .inr ⟨rfl, v, rfl, hv⟩
  · cases hnone

/-- What is to come after a member was to come before it, with the member. -/
theorem Enters.pending (h : Enters d name v d') (hfresh : isDuplicate? d name = none)
    (hr : Pending d' members r) : Pending d ((name, v) :: members) r := by
  cases h with
  | @field field _ _ h =>
    obtain ⟨hkey, hvalue, httl⟩ := hr
    have hhas : d.has field = false := by
      rw [isDuplicate?, Field.ofName?_name, Option.filter_some] at hfresh
      simpa using hfresh
    have hnone : ∀ {α : Type} {x : Option α}, x.isSome = false → x = none := fun hx =>
      Option.isNone_iff_eq_none.mp (Option.isSome_eq_false_iff.mp hx)
    cases h with
    | key h =>
      refine ⟨?_, ?_, ?_⟩
      · rw [Field.name, valuesOf_cons_self, hnone hhas]
        exact hkey.cons h
      · rwa [valuesOf_cons_of_ne (by decide)]
      · rwa [valuesOf_cons_of_ne (by decide)]
    | value h =>
      refine ⟨?_, ?_, ?_⟩
      · rwa [valuesOf_cons_of_ne (by decide)]
      · rw [Field.name, valuesOf_cons_self, hnone hhas]
        exact hvalue.cons h
      · rwa [valuesOf_cons_of_ne (by decide)]
    | ttl h =>
      refine ⟨?_, ?_, .inr ?_⟩
      · rwa [valuesOf_cons_of_ne (by decide)]
      · rwa [valuesOf_cons_of_ne (by decide)]
      · rw [Field.name, valuesOf_cons_self, hnone hhas]
        rcases httl with ⟨hmissing, -⟩ | httl
        · cases hmissing
        · exact httl.cons h
  | other hname _ => exact (pending_other hname v).mpr hr

/-- A draft that is the request when no member is left. -/
theorem pending_of_finish (h : d.finish = .ok r) : Pending d [] r := by
  obtain ⟨key, value, ttl⟩ := d
  unfold Draft.finish at h
  split at h
  · cases h
  · cases h
  · rename_i hkey hvalue
    cases h
    refine ⟨.inl ⟨hkey, rfl⟩, .inl ⟨hvalue, rfl⟩, ?_⟩
    cases ttl with
    | none => exact .inl ⟨rfl, rfl, rfl⟩
    | some ttl => exact .inr (.inl ⟨rfl, rfl⟩)

theorem says_of_pending (h : Pending .empty members r) : Says members r := by
  obtain ⟨hkey, hvalue, httl⟩ := h
  have hone : ∀ {α : Type} {left : List (List Char)} {Writes : List Char → α → Prop} {a : α},
      Due none left Writes a → ∃ v, left = [v] ∧ Writes v a := by
    rintro α left Writes a (⟨hnone, -⟩ | ⟨-, hleft⟩)
    · cases hnone
    · exact hleft
  exact ⟨hone hkey, hone hvalue, httl.imp (fun ⟨_, hleft, hr⟩ => ⟨hleft, hr⟩) hone⟩

/-- What is in front of the name of a member: nothing but blanks, or the comma too. -/
inductive Front : Bool → List Char → List Char → Prop
  | first {blanks : List Char} (h : Blanks blanks) : Front true [] blanks
  | more {b₁ b₂ : List Char} (h₁ : Blanks b₁) (h₂ : Blanks b₂) : Front false (b₁ ++ [',']) b₂

theorem exists_name_of_nextMember {first : Bool} {c' : Cursor}
    (h : Json.nextMember first ⟨p, encode cs⟩ = .ok (true, c')) :
    ∃ comma blanks ds q, cs = comma ++ (blanks ++ '"' :: ds) ∧ Front first comma blanks ∧
      c' = ⟨q, 34 :: encode ds⟩ := by
  obtain ⟨b₁, ds, q, rfl, h₁, hskip⟩ := Json.exists_skipBlank p cs
  simp only [Json.nextMember, hskip] at h
  split at h
  · cases h
  rename_i b bs hbs
  split at h
  · cases h
  split at h
  · rename_i hfirst
    subst hfirst
    split at h
    · rename_i hb
      subst hb
      obtain ⟨ds, rfl, rfl⟩ := Json.exists_cons_of_encode hbs (by decide)
      cases h
      exact ⟨[], b₁, ds, q, rfl, .first h₁, by rw [hbs]⟩
    · cases h
  split at h
  · rename_i hfirst hb
    subst hb
    obtain rfl : first = false := by simpa using hfirst
    obtain ⟨ds, rfl, rfl⟩ := Json.exists_cons_of_encode hbs (by decide)
    obtain ⟨b₂, ds, q₁, rfl, h₂, hskip₁⟩ := Json.exists_skipBlank (q.after 44) ds
    rw [hbs] at h
    simp only [Cursor.skip, hskip₁] at h
    split at h
    · cases h
    rename_i b bs hbs₁
    split at h
    · rename_i hb
      subst hb
      obtain ⟨ds, rfl, rfl⟩ := Json.exists_cons_of_encode hbs₁ (by decide)
      cases h
      exact ⟨b₁ ++ [','], b₂, ds, q₁, by simp, .more h₁ h₂, by rw [hbs₁]⟩
    split at h <;> cases h
  · cases h

theorem exists_brace_of_nextMember {first : Bool} {c' : Cursor}
    (h : Json.nextMember first ⟨p, encode cs⟩ = .ok (false, c')) :
    ∃ blanks rest q, cs = blanks ++ '\x7d' :: rest ∧ Blanks blanks ∧
      c' = ⟨q, 125 :: encode rest⟩ := by
  obtain ⟨blanks, ds, q, rfl, hblanks, hskip⟩ := Json.exists_skipBlank p cs
  simp only [Json.nextMember, hskip] at h
  split at h
  · cases h
  rename_i b bs hbs
  split at h
  · rename_i hb
    subst hb
    obtain ⟨ds, rfl, rfl⟩ := Json.exists_cons_of_encode hbs (by decide)
    cases h
    exact ⟨blanks, ds, q, rfl, hblanks, by rw [hbs]⟩
  split at h
  · split at h <;> cases h
  split at h
  · split at h
    · cases h
    split at h
    · cases h
    split at h <;> cases h
  · cases h

/-- What stands between a member and the closing brace, or between the braces, where the draft is on
the way to the request. -/
inductive Ends (d : Draft) (r : SetRequest) (first : Bool) : List Char → Prop
  | finish {blanks : List Char} (h : Blanks blanks) (hr : d.finish = .ok r) :
      Ends d r first blanks
  | members {comma blanks cs : List Char} {members : List (String × List Char)}
      (hfront : Front first comma blanks) (h : Listed (Member Names) (blanks ++ cs) members)
      (hvalues : ∀ m ∈ members, WellFormed m.2) (hr : Pending d members r) :
      Ends d r first (comma ++ (blanks ++ cs))

theorem Front.blanks {first : Bool} {comma blanks : List Char} (h : Front first comma blanks) :
    Blanks blanks := by
  cases h with
  | first h => exact h
  | more _ h => exact h

/-- A member with those that follow it. -/
theorem Ends.member {first : Bool} {comma b₁ written b₂ b₃ more : List Char}
    (hfront : Front first comma b₁) (hname : Names written name) (h₂ : Blanks b₂) (h₃ : Blanks b₃)
    (henters : Enters d name v d') (hfresh : isDuplicate? d name = none)
    (hmore : Ends d' r false more) :
    Ends d r first
      (comma ++ (b₁ ++ '"' :: (written ++ '"' :: (b₂ ++ ':' :: (b₃ ++ (v ++ more)))))) := by
  have hmember : ∀ {after : List Char}, Blanks after → Member Names
      (b₁ ++ '"' :: (written ++ '"' :: (b₂ ++ ':' :: (b₃ ++ (v ++ after))))) (name, v) :=
    fun hafter => .mk hfront.blanks hname h₂ (.mk h₃ hafter)
  cases hmore with
  | finish hafter hr =>
    have hpending := henters.pending hfresh (pending_of_finish hr)
    refine .members hfront (.one (hmember hafter)) ?_ hpending
    simpa using henters.wellFormed
  | members hfront' hlisted hvalues hr =>
    cases hfront' with
    | more h₁' h₂' =>
      have hall := Listed.more (hmember h₁') hlisted
      simp only [List.append_assoc, List.cons_append, List.nil_append] at hall ⊢
      exact .members hfront hall (List.forall_mem_cons.mpr ⟨henters.wellFormed, hvalues⟩)
        (henters.pending hfresh hr)

theorem exists_colon_of_readColon (h : Json.readColon ⟨p, encode cs⟩ = .ok c) :
    ∃ blanks rest, cs = blanks ++ ':' :: rest ∧ Blanks blanks ∧ c.rest = encode rest := by
  obtain ⟨blanks, ds, q, rfl, hblanks, hskip⟩ := Json.exists_skipBlank p cs
  simp only [Json.readColon, hskip] at h
  split at h
  · cases h
  rename_i b bs hbs
  split at h
  · rename_i hb
    subst hb
    obtain ⟨ds, rfl, rfl⟩ := Json.exists_cons_of_encode hbs (by decide)
    rw [hbs] at h
    cases h
    exact ⟨blanks, ds, rfl, hblanks, rfl⟩
  · cases h

/-- What has been read up to the closing brace is the request. The induction takes a member at a
time, and what is to come after it, the draft filled in, was to come before it. -/
theorem exists_ends_of_readMembers {fuel : Nat} {first : Bool}
    (h : readMembers fuel first d ⟨p, encode cs⟩ = .ok (r, c)) :
    ∃ more rest, cs = more ++ '\x7d' :: rest ∧ Ends d r first more ∧ c.rest = encode rest := by
  induction fuel generalizing first d p cs with
  | zero => cases h
  | succ fuel ih =>
    rw [readMembers] at h
    split at h
    · cases h
    · rename_i c₁ hnext
      obtain ⟨blanks, rest, q, rfl, hblanks, rfl⟩ := exists_brace_of_nextMember hnext
      split at h
      · cases h
      · rename_i r' hfinish
        cases h
        exact ⟨blanks, rest, rfl, .finish hblanks hfinish, rfl⟩
    · rename_i c₁ hnext
      obtain ⟨comma, b₁, ds, q, rfl, hfront, rfl⟩ := exists_name_of_nextMember hnext
      split at h
      · cases h
      rename_i name c₂ hname
      obtain ⟨written, ds, rfl, hwritten, hds⟩ := Json.exists_spelling_of_readText hname
      rw [Cursor.eq_of_rest hds] at h
      split at h
      · cases h
      rename_i hfresh
      split at h
      · cases h
      rename_i c₃ hcolon
      obtain ⟨b₂, ds, rfl, h₂, hds⟩ := exists_colon_of_readColon hcolon
      rw [Cursor.eq_of_rest hds] at h
      split at h
      · cases h
      rename_i d' c₄ hmember
      obtain ⟨b₃, v, ds, rfl, h₃, henters, hds⟩ := exists_enters_of_readMember hmember
      rw [Cursor.eq_of_rest hds] at h
      obtain ⟨more, rest, rfl, hmore, hrest⟩ := ih h
      have hends := Ends.member hfront hwritten h₂ h₃ henters hfresh hmore
      exact ⟨_, rest, by simp, hends, hrest⟩

end Members

section Elements

variable {cs : List Char} {p : Place} {c : Cursor} {d d' : Draft} {v : List Char} {r : SetRequest}

theorem exists_value_of_nextItem {first : Bool} {c' : Cursor}
    (h : Json.nextItem first ⟨p, encode cs⟩ = .ok (true, c')) :
    ∃ comma blanks ds q, cs = comma ++ (blanks ++ ds) ∧ Front first comma blanks ∧
      c' = ⟨q, encode ds⟩ := by
  obtain ⟨b₁, ds, q, rfl, h₁, hskip⟩ := Json.exists_skipBlank p cs
  simp only [Json.nextItem, hskip] at h
  split at h
  · cases h
  rename_i b bs hbs
  split at h
  · cases h
  split at h
  · rename_i hfirst
    subst hfirst
    cases h
    exact ⟨[], b₁, ds, q, rfl, .first h₁, rfl⟩
  split at h
  · rename_i hfirst hb
    subst hb
    obtain rfl : first = false := by simpa using hfirst
    obtain ⟨ds, rfl, rfl⟩ := Json.exists_cons_of_encode hbs (by decide)
    obtain ⟨b₂, ds, q₁, rfl, h₂, hskip₁⟩ := Json.exists_skipBlank (q.after 44) ds
    rw [hbs] at h
    simp only [Cursor.skip, hskip₁] at h
    split at h
    · cases h
    split at h
    · cases h
    cases h
    exact ⟨b₁ ++ [','], b₂, ds, q₁, by simp, .more h₁ h₂, rfl⟩
  · cases h

theorem exists_bracket_of_nextItem {first : Bool} {c' : Cursor}
    (h : Json.nextItem first ⟨p, encode cs⟩ = .ok (false, c')) :
    ∃ blanks rest q, cs = blanks ++ ']' :: rest ∧ Blanks blanks ∧ c' = ⟨q, 93 :: encode rest⟩ := by
  obtain ⟨blanks, ds, q, rfl, hblanks, hskip⟩ := Json.exists_skipBlank p cs
  simp only [Json.nextItem, hskip] at h
  split at h
  · cases h
  rename_i b bs hbs
  split at h
  · rename_i hb
    subst hb
    obtain ⟨ds, rfl, rfl⟩ := Json.exists_cons_of_encode hbs (by decide)
    cases h
    exact ⟨blanks, ds, q, rfl, hblanks, by rw [hbs]⟩
  split at h
  · cases h
  split at h
  · split at h
    · cases h
    split at h <;> cases h
  · cases h

theorem exists_bracket_of_closeList (h : closeList ⟨p, encode cs⟩ = .ok c) :
    ∃ blanks rest, cs = blanks ++ ']' :: rest ∧ Blanks blanks ∧ c.rest = encode rest := by
  obtain ⟨blanks, ds, q, rfl, hblanks, hskip⟩ := Json.exists_skipBlank p cs
  simp only [closeList, hskip] at h
  split at h
  · cases h
  rename_i b bs hbs
  split at h
  · rename_i hb
    subst hb
    obtain ⟨ds, rfl, rfl⟩ := Json.exists_cons_of_encode hbs (by decide)
    rw [hbs] at h
    cases h
    exact ⟨blanks, ds, rfl, hblanks, rfl⟩
  split at h <;> cases h

/-- What stands between an element and the closing bracket, or between the brackets, where the draft
is on the way to the request. -/
inductive Remains (d : Draft) (r : SetRequest) (fields : List Field) (first : Bool) :
    List Char → Prop
  | finish {blanks : List Char} (h : Blanks blanks) (hr : d.finish = .ok r) :
      Remains d r fields first blanks
  | elements {comma blanks cs : List Char} {values : List (List Char)}
      (hfront : Front first comma blanks) (h : Listed Element (blanks ++ cs) values)
      (hr : FillsAll d fields values r) : Remains d r fields first (comma ++ (blanks ++ cs))

/-- An element with those that follow it. -/
theorem Remains.element {first : Bool} {comma b₁ b₂ more : List Char} {field : Field}
    {fields : List Field} (hfront : Front first comma b₁) (h₂ : Blanks b₂)
    (hfills : Fills d field v d') (hmore : Remains d' r fields false more) :
    Remains d r (field :: fields) first (comma ++ (b₁ ++ (b₂ ++ (v ++ more)))) := by
  have helement : ∀ {after : List Char}, Blanks after → Element ((b₁ ++ b₂) ++ (v ++ after)) v :=
    fun hafter => .mk (Json.blanks_append hfront.blanks h₂) hafter
  cases hmore with
  | finish hafter hr =>
    have hlisted := Listed.one (helement hafter)
    rw [List.append_assoc] at hlisted
    exact .elements hfront hlisted (.next hfills (.done hr))
  | elements hfront' hlisted hr =>
    cases hfront' with
    | more h₁' h₂' =>
      have hall := Listed.more (helement h₁') hlisted
      simp only [List.append_assoc, List.cons_append, List.nil_append] at hall ⊢
      exact .elements hfront hall (.next hfills hr)

/-- What has been read up to the closing bracket is the request. -/
theorem exists_remains_of_readElements {i : Nat} {fields : List Field}
    (h : readElements i d fields ⟨p, encode cs⟩ = .ok (r, c)) :
    ∃ more rest, cs = more ++ ']' :: rest ∧ Remains d r fields (i == 0) more ∧
      c.rest = encode rest := by
  induction fields generalizing i d p cs with
  | nil =>
    rw [readElements] at h
    split at h
    · cases h
    rename_i r' hfinish
    obtain ⟨c₁, hclose, hr⟩ := Json.exists_of_map_eq_ok h
    cases hr
    obtain ⟨blanks, rest, rfl, hblanks, hrest⟩ := exists_bracket_of_closeList hclose
    exact ⟨blanks, rest, rfl, .finish hblanks hfinish, hrest⟩
  | cons field fields ih =>
    rw [readElements] at h
    split at h
    · cases h
    · rename_i c₁ hnext
      obtain ⟨blanks, rest, q, rfl, hblanks, rfl⟩ := exists_bracket_of_nextItem hnext
      split at h
      · cases h
      · rename_i r' hfinish
        cases h
        exact ⟨blanks, rest, rfl, .finish hblanks hfinish, rfl⟩
    · rename_i c₁ hnext
      obtain ⟨comma, b₁, ds, q, rfl, hfront, rfl⟩ := exists_value_of_nextItem hnext
      split at h
      · cases h
      rename_i d' c₂ hread
      obtain ⟨b₂, v, ds, rfl, h₂, hfills, hds⟩ := exists_fills_of_readField (ok_of_mapError hread)
      rw [Cursor.eq_of_rest hds] at h
      obtain ⟨more, rest, rfl, hmore, hrest⟩ := ih h
      exact ⟨_, rest, by simp, .element hfront h₂ hfills hmore, hrest⟩

theorem FillsAll.lists {values : List (List Char)} (h : FillsAll .empty Field.all values r) :
    Lists values r := by
  change FillsAll .empty [.key, .value, .ttl] values r at h
  cases h with
  | done hr => cases hr
  | next hkey hrest =>
    cases hkey with
    | key hkey =>
      cases hrest with
      | done hr => cases hr
      | next hvalue hrest =>
        cases hvalue with
        | value hvalue =>
          cases hrest with
          | done hr =>
            cases hr
            exact .brief hkey hvalue
          | next httl hrest =>
            cases httl with
            | ttl httl =>
              cases hrest with
              | done hr =>
                cases hr
                exact .full hkey hvalue httl

end Elements

/-- What is read as a request is a text that carries it. -/
theorem carries_of_ofBody {text : List Char} {r : SetRequest}
    (h : ofBody (encode text) = .ok r) : Carries text r := by
  obtain ⟨⟨r', c⟩, hread, rfl⟩ := Json.exists_of_map_eq_ok h
  obtain ⟨blanks, ds, q, rfl, hblanks, hskip⟩ := Json.exists_skipBlank ⟨1, 0⟩ text
  simp only [read, Cursor.start, hskip] at hread
  split at hread
  · cases hread
  rename_i b bs hbs
  split at hread
  · rename_i hb
    subst hb
    obtain ⟨ds, rfl, rfl⟩ := Json.exists_cons_of_encode hbs (by decide)
    rw [hbs] at hread
    obtain ⟨more, rest, rfl, hends, -⟩ := exists_ends_of_readMembers hread
    cases hends with
    | finish _ hr => cases hr
    | members hfront hlisted hvalues hr =>
      cases hfront with
      | first _ => exact .object hblanks hlisted hvalues (says_of_pending hr)
  split at hread
  · rename_i hb
    subst hb
    obtain ⟨ds, rfl, rfl⟩ := Json.exists_cons_of_encode hbs (by decide)
    rw [hbs] at hread
    obtain ⟨more, rest, rfl, hremains, -⟩ := exists_remains_of_readElements hread
    cases hremains with
    | finish _ hr => cases hr
    | elements hfront hlisted hr =>
      cases hfront with
      | first _ => exact .list hblanks hlisted hr.lists
  · cases hread

/-- A text is read as a request exactly where it carries this request. -/
theorem ofBody_eq_ok_iff {text : List Char} {r : SetRequest} :
    ofBody (encode text) = .ok r ↔ Carries text r :=
  ⟨carries_of_ofBody, ofBody_of_carries⟩

end Larder.Api.SetRequest
