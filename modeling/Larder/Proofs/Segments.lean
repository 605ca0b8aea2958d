import Mathlib.Data.List.TakeWhile
import Larder.Api.Router
import Larder.Proofs.Utf8

/-! A key in a path. Its bytes stand there each for itself or as a percent sign and two
hexadecimal digits, mixed as one likes; those that would end the segment, the path or begin an
escape can stand only escaped. Whatever way it is spelled, the segment leads to the key. -/

namespace Larder

namespace Http

/-- A byte that can stand for itself in a segment: no slash, question mark, hash or percent
sign. -/
def IsPlain (b : UInt8) : Prop := b ≠ 47 ∧ b ≠ 63 ∧ b ≠ 35 ∧ b ≠ 37

instance : DecidablePred IsPlain := fun b =>
  inferInstanceAs (Decidable (b ≠ 47 ∧ b ≠ 63 ∧ b ≠ 35 ∧ b ≠ 37))

/-- The segment spells these bytes. -/
inductive Spells : Bytes → Bytes → Prop
  | nil : Spells [] []
  | plain {b : UInt8} {segment bs : Bytes} (hplain : IsPlain b) (h : Spells segment bs) :
      Spells (b :: segment) (b :: bs)
  | escape {high low : UInt8} {h l : Nat} {segment bs : Bytes}
      (hhigh : Json.hexValue? high = some h) (hlow : Json.hexValue? low = some l)
      (hrest : Spells segment bs) :
      Spells (37 :: high :: low :: segment) (UInt8.ofNat (h * 16 + l) :: bs)

theorem isPlain_of_hexValue? {b : UInt8} {n : Nat} (h : Json.hexValue? b = some n) :
    IsPlain b := by
  refine ⟨?_, ?_, ?_, ?_⟩ <;> rintro rfl <;> cases h

theorem Spells.percentDecode {segment bs : Bytes} (h : Spells segment bs) :
    percentDecode segment = bs := by
  induction h with
  | nil => rw [Http.percentDecode]
  | plain hplain h ih => rw [Http.percentDecode.eq_4 _ _ hplain.2.2.2, ih]
  | escape hhigh hlow hrest ih =>
    rw [Http.percentDecode]
    simp only [hhigh, hlow, ih]

/-- A segment ends neither itself nor the path. -/
theorem Spells.isBare {segment bs : Bytes} (h : Spells segment bs) :
    ∀ b ∈ segment, b ≠ 47 ∧ b ≠ 63 ∧ b ≠ 35 := by
  induction h with
  | nil => exact fun b hb => (List.not_mem_nil hb).elim
  | plain hplain h ih =>
    intro b hb
    rcases List.mem_cons.mp hb with rfl | hb
    · exact ⟨hplain.1, hplain.2.1, hplain.2.2.1⟩
    · exact ih b hb
  | escape hhigh hlow h ih =>
    intro b hb
    have hhigh := isPlain_of_hexValue? hhigh
    have hlow := isPlain_of_hexValue? hlow
    rcases List.mem_cons.mp hb with rfl | hb
    · decide
    rcases List.mem_cons.mp hb with rfl | hb
    · exact ⟨hhigh.1, hhigh.2.1, hhigh.2.2.1⟩
    rcases List.mem_cons.mp hb with rfl | hb
    · exact ⟨hlow.1, hlow.2.1, hlow.2.2.1⟩
    · exact ih b hb

/-- A key that is not empty has no empty spelling. -/
theorem Spells.ne_nil {segment : Bytes} {key : String} (h : Spells segment (utf8 key))
    (hkey : key ≠ "") : segment ≠ [] := by
  have hne : utf8 key ≠ [] :=
    Text.Utf8.encode_ne_nil fun hnil => hkey (String.toList_eq_nil_iff.mp hnil)
  rintro rfl
  generalize utf8 key = bs at *
  cases h
  exact hne rfl

theorem segmentsOf_slash (bs : Bytes) : segmentsOf (47 :: bs) = [] :: segmentsOf bs := rfl

theorem segmentsOf_of_not_mem {bs : Bytes} (h : (47 : UInt8) ∉ bs) : segmentsOf bs = [bs] := by
  induction bs with
  | nil => rfl
  | cons b bs ih =>
    rw [List.mem_cons, not_or] at h
    have hrest := ih h.2
    unfold segmentsOf at hrest ⊢
    rw [List.foldr_cons, hrest, if_neg (fun heq => h.1 heq.symm)]

/-- The bytes in front of a slash are the first segment, or stand in front of it. -/
theorem segmentsOf_append_slash {as : Bytes} (h : (47 : UInt8) ∉ as) (bs : Bytes) :
    segmentsOf (as ++ 47 :: bs) = as :: segmentsOf bs := by
  induction as with
  | nil => rfl
  | cons a as ih =>
    rw [List.mem_cons, not_or] at h
    have hrest := ih h.2
    unfold segmentsOf at hrest ⊢
    rw [List.cons_append, List.foldr_cons, hrest, if_neg (fun heq => h.1 heq.symm)]

theorem pathOf_of_bare {target : Bytes} (hslash : target.head? = some 47)
    (h : ∀ b ∈ target, b ≠ 63 ∧ b ≠ 35) : pathOf target = target := by
  have hbare : beforeQuery target = target := by
    refine List.takeWhile_eq_self_iff.mpr fun b hb => ?_
    obtain ⟨h63, h35⟩ := h b hb
    simp [h63, h35]
  rw [pathOf, hbare]
  exact if_pos hslash

end Http

namespace Api

open Http

variable {segment : Bytes} {key : String}

theorem keyOf_of_spells (h : Spells segment (utf8 key)) : keyOf segment = .ok key := by
  have hdecode : Text.Utf8.decodeString? (utf8 key) = some key := by
    rw [Text.Utf8.decodeString?, utf8, Text.Utf8.decode_encode]
    simp
  rw [keyOf, h.percentDecode, hdecode]

/-- A path of a name and a segment. -/
theorem pathOf_segment {name bs : Bytes} (hname : ∀ b ∈ name, b ≠ 47 ∧ b ≠ 63 ∧ b ≠ 35)
    (h : Spells segment bs) :
    segmentsOf (pathOf (47 :: (name ++ 47 :: segment))) = [[], name, segment] := by
  have hbare := h.isBare
  rw [pathOf_of_bare rfl, segmentsOf_slash,
    segmentsOf_append_slash fun hmem => (hname 47 hmem).1 rfl,
    segmentsOf_of_not_mem fun hmem => (hbare 47 hmem).1 rfl]
  intro b hb
  rcases List.mem_cons.mp hb with rfl | hb
  · decide
  rcases List.mem_append.mp hb with hb | hb
  · exact (hname b hb).2
  rcases List.mem_cons.mp hb with rfl | hb
  · decide
  · exact (hbare b hb).2

theorem ofPath?_get (h : Spells segment (utf8 key)) (hkey : key ≠ "") :
    Resource.ofPath? (pathOf (utf8 "/get/" ++ segment)) = some (.get segment) := by
  have hne := h.ne_nil hkey
  have hname : ∀ b ∈ utf8 "get", b ≠ 47 ∧ b ≠ 63 ∧ b ≠ 35 := by decide +kernel
  have hpath := pathOf_segment hname h
  rw [Resource.ofPath?, show utf8 "/get/" ++ segment = 47 :: (utf8 "get" ++ 47 :: segment) from rfl,
    hpath]
  simp [hne]

theorem ofPath?_delete (h : Spells segment (utf8 key)) (hkey : key ≠ "") :
    Resource.ofPath? (pathOf (utf8 "/del/" ++ segment)) = some (.delete segment) := by
  have hne := h.ne_nil hkey
  have hname : ∀ b ∈ utf8 "del", b ≠ 47 ∧ b ≠ 63 ∧ b ≠ 35 := by decide +kernel
  have hpath := pathOf_segment hname h
  have hother : utf8 "del" ≠ utf8 "get" := by decide
  rw [Resource.ofPath?, show utf8 "/del/" ++ segment = 47 :: (utf8 "del" ++ 47 :: segment) from rfl,
    hpath]
  simp [hne, hother]

end Api

end Larder
