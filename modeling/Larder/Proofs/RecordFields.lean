import Larder.Proofs.StreamValues
import Larder.Record.Decode

/-! The fields of a record, one at a time, by the text that the reader takes for each. Blanks may
stand in front of any of them; a string is a literal in any of its spellings, and a deadline a
numeral. Each field comes with both directions: the text is read as the field, and what was read
as the field was such a text. -/

namespace Larder.Record

open Text.Utf8
open Json (Blanks Numeral)

/-- A string between quotes, in any of its spellings. -/
inductive Literal : List Char → String → Prop
  | mk {body : List Char} {s : String} (h : Json.Spelling body s.toList) :
      Literal ('"' :: (body ++ ['"'])) s

theorem nextField_nil (p : Json.Place) : nextField ⟨p, []⟩ = .ok (none, ⟨p, []⟩) := rfl

section Fields

variable {cs blanks : List Char} {p : Json.Place} {c : Json.Cursor}

theorem nextField_blanks (h : Blanks blanks) (p : Json.Place) (rest : Bytes) :
    nextField ⟨p, encode blanks ++ rest⟩ = nextField ⟨p.afterAll (encode blanks), rest⟩ := by
  rw [nextField, nextField, Json.nextValue_blanks h]

theorem nextField_of_blanks (h : Blanks blanks) (p : Json.Place) :
    ∃ p', nextField ⟨p, encode blanks⟩ = .ok (none, ⟨p', []⟩) := by
  have hnext := nextField_blanks h p []
  rw [List.append_nil, nextField_nil] at hnext
  exact ⟨_, hnext⟩

theorem nextValue_of_nextField {v : Option Json.Value} (h : nextField ⟨p, encode cs⟩ = .ok (v, c)) :
    Json.nextValue ⟨p, encode cs⟩ = .ok (v, c) := by
  unfold nextField at h
  cases hvalue : Json.nextValue ⟨p, encode cs⟩ with
  | error fault =>
    rw [hvalue] at h
    cases h
  | ok o =>
    rw [hvalue] at h
    have hok : (Except.ok o : Except DecodeError _) = .ok (v, c) := h
    rw [Except.ok.inj hok]

theorem textField_of_literal (field : Field) {k : List Char} {s : String} (hb : Blanks blanks)
    (hk : Literal k s) (p : Json.Place) (rest : Bytes) :
    ∃ p', textField field ⟨p, encode blanks ++ (encode k ++ rest)⟩ = .ok (s, ⟨p', rest⟩) := by
  cases hk with
  | @mk body _ hbody =>
    obtain ⟨p', h⟩ := hbody.nextValue (p.afterAll (encode blanks)) rest
    rw [String.ofList_toList] at h
    refine ⟨p', ?_⟩
    rw [textField, nextField_blanks hb, nextField, h]
    rfl

theorem exists_literal_of_textField {field : Field} {s : String}
    (h : textField field ⟨p, encode cs⟩ = .ok (s, c)) :
    ∃ blanks k rest p', cs = blanks ++ (k ++ rest) ∧ Blanks blanks ∧ Literal k s ∧
      c = ⟨p', encode rest⟩ := by
  unfold textField at h
  split at h
  · cases h
  · cases h
  · rename_i hfield
    cases h
    obtain ⟨blanks, body, rest, hcs, hblanks, hbody, hrest⟩ :=
      Json.exists_literal_of_nextValue (nextValue_of_nextField hfield)
    exact ⟨blanks, _, rest, c.place, by simpa using hcs, hblanks, .mk hbody, by rw [← hrest]⟩
  · cases h

theorem deadlineField?_of_blanks (h : Blanks blanks) (p : Json.Place) :
    ∃ p', deadlineField? ⟨p, encode blanks⟩ = .ok (none, ⟨p', []⟩) := by
  obtain ⟨p', h⟩ := nextField_of_blanks h p
  exact ⟨p', by rw [deadlineField?, h]⟩

theorem deadlineField?_of_numeral {ds behind : List Char} {stop : UInt64} (hb : Blanks blanks)
    (hds : Numeral ds stop.toNat) (hbehind : Blanks behind) (p : Json.Place) :
    ∃ p', deadlineField? ⟨p, encode blanks ++ (encode ds ++ encode behind)⟩ =
      .ok (some stop, ⟨p', encode behind⟩) := by
  obtain rfl := Json.numeral_iff.mp hds
  obtain ⟨p', h⟩ := Json.nextValue_toDigits stop.toNat_lt (Json.endsValue_of_blanks hbehind)
    (p.afterAll (encode blanks))
  refine ⟨p', ?_⟩
  rw [deadlineField?, nextField_blanks hb, nextField, h]
  change (Except.ok (some (UInt64.ofNat stop.toNat), _) : Decoding Deadline) = _
  rw [UInt64.ofNat_toNat]

theorem exists_numeral_of_deadlineField? {stop : UInt64}
    (h : deadlineField? ⟨p, encode cs⟩ = .ok (some stop, c)) :
    ∃ blanks ds rest p', cs = blanks ++ (ds ++ rest) ∧ Blanks blanks ∧
        Numeral ds stop.toNat ∧ c = ⟨p', encode rest⟩ := by
  unfold deadlineField? at h
  split at h
  · cases h
  · cases h
  · rename_i n c' hfield
    cases h
    obtain ⟨hn, blanks, rest, hcs, hblanks, hrest⟩ :=
      Json.exists_numeral_of_nextValue (nextValue_of_nextField hfield)
    have hstop : (UInt64.ofNat n).toNat = n := UInt64.toNat_ofNat_of_lt hn
    exact ⟨blanks, _, rest, c.place, hcs, hblanks, Json.numeral_iff.mpr (by rw [hstop]),
      by rw [← hrest]⟩
  · cases h
  · cases h

theorem blanks_of_deadlineField? (h : deadlineField? ⟨p, encode cs⟩ = .ok (none, c)) :
    Blanks cs := by
  unfold deadlineField? at h
  split at h
  · cases h
  · rename_i hfield
    exact Json.blanks_of_nextValue (nextValue_of_nextField hfield)
  · cases h
  · cases h
  · cases h

end Fields

/-- What comes of a record whose fields have all been read. -/
def checked (r : Record) : Except DecodeError Record :=
  if r.key = "" then .error .emptyKey else .ok r

section Records

variable {cs b₁ k b₂ v tail : List Char} {key value : String} {deadline : Deadline}
  {p : Json.Place} {c : Json.Cursor} {r r' : Record}

theorem readSet_of_fields (h₁ : Blanks b₁) (hk : Literal k key) (h₂ : Blanks b₂)
    (hv : Literal v value) {rest : Bytes}
    (htail : ∀ p, ∃ p', deadlineField? ⟨p, encode tail⟩ = .ok (deadline, ⟨p', rest⟩))
    (p : Json.Place) :
    ∃ p', readSet ⟨p, encode (b₁ ++ (k ++ (b₂ ++ (v ++ tail))))⟩ =
      .ok (.set key value deadline, ⟨p', rest⟩) := by
  obtain ⟨p₁, hkey⟩ := textField_of_literal .key h₁ hk p (encode b₂ ++ (encode v ++ encode tail))
  obtain ⟨p₂, hvalue⟩ := textField_of_literal .value h₂ hv p₁ (encode tail)
  obtain ⟨p₃, hdeadline⟩ := htail p₂
  refine ⟨p₃, ?_⟩
  simp only [encode_append, readSet, hkey, hvalue, hdeadline]

theorem fields_of_readSet (h : readSet ⟨p, encode cs⟩ = .ok (r, c)) :
    ∃ b₁ k b₂ v tail key value deadline p', cs = b₁ ++ (k ++ (b₂ ++ (v ++ tail))) ∧ Blanks b₁ ∧
      Literal k key ∧ Blanks b₂ ∧ Literal v value ∧ r = .set key value deadline ∧
      deadlineField? ⟨p', encode tail⟩ = .ok (deadline, c) := by
  unfold readSet at h
  split at h
  · cases h
  rename_i key c₁ hkey
  obtain ⟨b₁, k, cs, p₁, rfl, h₁, hk, rfl⟩ := exists_literal_of_textField hkey
  split at h
  · cases h
  rename_i value c₂ hvalue
  obtain ⟨b₂, v, tail, p₂, rfl, h₂, hv, rfl⟩ := exists_literal_of_textField hvalue
  split at h
  · cases h
  rename_i deadline c₃ hdeadline
  cases h
  exact ⟨b₁, k, b₂, v, tail, key, value, deadline, p₂, rfl, h₁, hk, h₂, hv, rfl, hdeadline⟩

theorem readDelete_of_fields (h₁ : Blanks b₁) (hk : Literal k key) (tail : List Char)
    (p : Json.Place) :
    ∃ p', readDelete ⟨p, encode (b₁ ++ (k ++ tail))⟩ =
      .ok (.delete key, ⟨p', encode tail⟩) := by
  obtain ⟨p₁, hkey⟩ := textField_of_literal .key h₁ hk p (encode tail)
  refine ⟨p₁, ?_⟩
  simp only [encode_append, readDelete, hkey]

theorem fields_of_readDelete (h : readDelete ⟨p, encode cs⟩ = .ok (r, c)) :
    ∃ b₁ k tail key p', cs = b₁ ++ (k ++ tail) ∧ Blanks b₁ ∧ Literal k key ∧ r = .delete key ∧
      c = ⟨p', encode tail⟩ := by
  unfold readDelete at h
  split at h
  · cases h
  rename_i key c₁ hkey
  obtain ⟨b₁, k, tail, p₁, rfl, h₁, hk, rfl⟩ := exists_literal_of_textField hkey
  cases h
  exact ⟨b₁, k, tail, key, p₁, rfl, h₁, hk, rfl, rfl⟩

theorem finish_of_blanks (h : Blanks tail) (r : Record) (p : Json.Place) :
    finish r ⟨p, encode tail⟩ = r.checked := by
  obtain ⟨p', h⟩ := nextField_of_blanks h p
  rw [finish, h]
  rfl

theorem blanks_of_finish (h : finish r ⟨p, encode cs⟩ = .ok r') : Blanks cs := by
  unfold finish at h
  split at h
  · cases h
  · cases h
  · rename_i hfield
    exact Json.blanks_of_nextValue (nextValue_of_nextField hfield)

/-- No record is read that has an empty key. -/
theorem of_finish (h : finish r c = .ok r') : r' = r ∧ r.key ≠ "" := by
  unfold finish at h
  split at h
  · cases h
  · cases h
  · split at h
    · cases h
    · rename_i hkey
      cases h
      exact ⟨rfl, hkey⟩

theorem ofOperands_of_set (h₁ : Blanks b₁) (hk : Literal k key) (h₂ : Blanks b₂)
    (hv : Literal v value) {b₃ : List Char} (h₃ : Blanks b₃)
    (htail : ∀ p, ∃ p', deadlineField? ⟨p, encode tail⟩ = .ok (deadline, ⟨p', encode b₃⟩))
    (p : Json.Place) :
    ofOperands setWord ⟨p, encode (b₁ ++ (k ++ (b₂ ++ (v ++ tail))))⟩ =
      (set key value deadline).checked := by
  obtain ⟨p', hread⟩ := readSet_of_fields h₁ hk h₂ hv htail p
  simp only [ofOperands, if_true, hread]
  exact finish_of_blanks h₃ _ p'

theorem ofOperands_of_delete (h₁ : Blanks b₁) (hk : Literal k key) (h₂ : Blanks b₂)
    (p : Json.Place) :
    ofOperands deleteWord ⟨p, encode (b₁ ++ (k ++ b₂))⟩ = (delete key).checked := by
  obtain ⟨p', hread⟩ := readDelete_of_fields h₁ hk b₂ p
  have hword : deleteWord ≠ setWord := by decide
  simp only [ofOperands, hword, if_false, if_true, hread]
  exact finish_of_blanks h₂ _ p'

end Records

end Larder.Record
