import Larder.Proofs.Lines

/-! A reader asked again and again gives the items of its lines, in order, and then says that it
is at the end. Lines of blanks are passed over inside one call, so a call takes at least one
line and the lines that are left bound the calls. -/

namespace Larder.Journal.Reader

/-- What a reader gives, call after call, until it is at the end. -/
inductive Yields : Reader → List Item → Prop
  | done {r r' : Reader} (h : r.next = (none, r')) : Yields r []
  | more {r r' : Reader} {i : Item} {is : List Item} (h : r.next = (some i, r'))
      (rest : Yields r' is) : Yields r (i :: is)

theorem Yields.unique {r : Reader} {is js : List Item} (h : r.Yields is) (h' : r.Yields js) :
    is = js := by
  induction h generalizing js with
  | done h =>
    cases h' with
    | done => rfl
    | more h₂ => rw [h] at h₂; cases h₂
  | more h _ ih =>
    cases h' with
    | done h₂ => rw [h] at h₂; cases h₂
    | more h₂ rest =>
      rw [h] at h₂
      cases h₂
      rw [ih rest]

/-- A call passes over blank lines and stops behind the first other one. -/
theorem nextLine_spec (taken : Nat) (lines : List Bytes) :
    (itemsFrom taken lines = [] ∧
        nextLine taken lines = (none, ⟨none, [], taken + lines.length⟩)) ∨
      ∃ i before line rest, lines = before ++ line :: rest ∧
        itemsFrom taken lines = i :: itemsFrom (taken + before.length + 1) rest ∧
        nextLine taken lines = (some i, ⟨none, rest, taken + before.length + 1⟩) := by
  induction lines generalizing taken with
  | nil => exact .inl ⟨rfl, rfl⟩
  | cons line lines ih =>
    rw [itemsFrom_cons, nextLine]
    cases h : item? (taken + 1) line with
    | some i => exact .inr ⟨i, [], line, lines, rfl, rfl, rfl⟩
    | none =>
      rcases ih (taken + 1) with ⟨hitems, hnext⟩ | ⟨i, before, l, rest, hlines, hitems, hnext⟩
      · refine .inl ⟨by simpa using hitems, ?_⟩
        simp only [hnext, List.length_cons]
        rw [show taken + 1 + lines.length = taken + (lines.length + 1) by omega]
      · refine .inr ⟨i, line :: before, l, rest, by rw [hlines]; rfl, ?_, ?_⟩
        · simp only [hitems, Option.toList_none, List.nil_append, List.length_cons]
          rw [show taken + 1 + before.length = taken + (before.length + 1) by omega]
        · simp only [hnext, List.length_cons]
          rw [show taken + 1 + before.length = taken + (before.length + 1) by omega]

theorem yields_itemsFrom (taken : Nat) (lines : List Bytes) :
    Yields ⟨none, lines, taken⟩ (itemsFrom taken lines) := by
  induction hn : lines.length using Nat.strongRecOn generalizing taken lines with
  | ind n ih =>
    rcases nextLine_spec taken lines with ⟨hitems, hnext⟩ | ⟨i, before, line, rest, hlines, hitems, hnext⟩
    · rw [hitems]
      exact .done hnext
    · rw [hitems]
      refine .more hnext (ih rest.length ?_ _ _ rfl)
      rw [← hn, hlines, List.length_append, List.length_cons]
      omega

theorem yields_items (bs : Bytes) : (ofBytes bs).Yields (Journal.items bs) :=
  yields_itemsFrom 0 (segments bs)

end Larder.Journal.Reader
