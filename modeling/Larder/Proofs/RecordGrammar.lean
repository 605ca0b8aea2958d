import Larder.Proofs.RecordLine

/-! The grammar of records. A text is read as a record exactly where the grammar has it, with
whatever line feeds and carriage returns behind it: each field is where the grammar puts it, and
behind the last one are only blanks. -/

namespace Larder.Record

open Text.Utf8
open Json (Blanks Numeral)

/-- The texts that stand for a record, blank where blanks may be. -/
inductive Form : List Char → Record → Prop
  | set {b₁ k b₂ v b₃ : List Char} {key value : String} (h₁ : Blanks b₁) (hkey : Literal k key)
      (hne : key ≠ "") (h₂ : Blanks b₂) (hvalue : Literal v value) (h₃ : Blanks b₃) :
      Form (['S', 'E', 'T', ' '] ++ b₁ ++ k ++ b₂ ++ v ++ b₃) (.set key value none)
  | setUntil {b₁ k b₂ v b₃ ds b₄ : List Char} {key value : String} {stop : UInt64}
      (h₁ : Blanks b₁) (hkey : Literal k key) (hne : key ≠ "") (h₂ : Blanks b₂)
      (hvalue : Literal v value) (h₃ : Blanks b₃) (hstop : Numeral ds stop.toNat) (h₄ : Blanks b₄) :
      Form (['S', 'E', 'T', ' '] ++ b₁ ++ k ++ b₂ ++ v ++ b₃ ++ ds ++ b₄)
        (.set key value (some stop))
  | delete {b₁ k b₂ : List Char} {key : String} (h₁ : Blanks b₁) (hkey : Literal k key)
      (hne : key ≠ "") (h₂ : Blanks b₂) :
      Form (['D', 'E', 'L', ' '] ++ b₁ ++ k ++ b₂) (.delete key)

theorem eq_of_span {text word operands : List Char} {c : Char}
    (h : text.span (· ≠ ' ') = (word, c :: operands)) :
    c = ' ' ∧ text = word ++ ' ' :: operands := by
  rw [List.span_eq_takeWhile_dropWhile] at h
  obtain ⟨htake, hdrop⟩ := Prod.mk.inj h
  have hc : c = ' ' := by
    have hnot := List.head?_dropWhile_not (fun c => decide (c ≠ ' ')) text
    rw [hdrop] at hnot
    simpa using hnot
  refine ⟨hc, ?_⟩
  rw [← hc, ← htake, ← hdrop, List.takeWhile_append_dropWhile]

section Operands

variable {cs : List Char} {p : Json.Place} {r : Record}

theorem checked_of_ne (h : r.key ≠ "") : r.checked = .ok r := if_neg h

theorem decode_of_form {text : List Char} (h : Form (dropTerminator text) r) :
    decode text = .ok r := by
  have hset : ' ' ∉ setWord := by simp [setWord]
  have hdelete : ' ' ∉ deleteWord := by simp [deleteWord]
  generalize htext : dropTerminator text = s at h
  cases h with
  | @set b₁ k b₂ v b₃ key value h₁ hk hne h₂ hv h₃ =>
    have hs : dropTerminator text = setWord ++ ' ' :: (b₁ ++ (k ++ (b₂ ++ (v ++ b₃)))) := by
      rw [htext]
      simp [setWord]
    rw [decode_of_word hset hs, Json.Cursor.start,
      ofOperands_of_set h₁ hk h₂ hv Json.blanks_nil (deadlineField?_of_blanks h₃)]
    exact checked_of_ne hne
  | @setUntil b₁ k b₂ v b₃ ds b₄ key value stop h₁ hk hne h₂ hv h₃ hstop h₄ =>
    have hs : dropTerminator text =
        setWord ++ ' ' :: (b₁ ++ (k ++ (b₂ ++ (v ++ (b₃ ++ (ds ++ b₄)))))) := by
      rw [htext]
      simp [setWord]
    have htail : ∀ p, ∃ p', deadlineField? ⟨p, encode (b₃ ++ (ds ++ b₄))⟩ =
        .ok (some stop, ⟨p', encode b₄⟩) := by
      intro p
      rw [encode_append, encode_append]
      exact deadlineField?_of_numeral h₃ hstop h₄ p
    rw [decode_of_word hset hs, Json.Cursor.start, ofOperands_of_set h₁ hk h₂ hv h₄ htail]
    exact checked_of_ne hne
  | @delete b₁ k b₂ key h₁ hk hne h₂ =>
    have hs : dropTerminator text = deleteWord ++ ' ' :: (b₁ ++ (k ++ b₂)) := by
      rw [htext]
      simp [deleteWord]
    rw [decode_of_word hdelete hs, Json.Cursor.start, ofOperands_of_delete h₁ hk h₂]
    exact checked_of_ne hne

theorem form_of_readSet {r' : Record} {c : Json.Cursor} (h : readSet ⟨p, encode cs⟩ = .ok (r', c))
    (hfinish : finish r' c = .ok r) : Form (setWord ++ ' ' :: cs) r := by
  obtain ⟨b₁, k, b₂, v, tail, key, value, deadline, p', rfl, h₁, hk, h₂, hv, rfl, hdeadline⟩ :=
    fields_of_readSet h
  obtain ⟨rfl, hne⟩ := of_finish hfinish
  cases deadline with
  | none =>
    have hform := Form.set h₁ hk hne h₂ hv (blanks_of_deadlineField? hdeadline)
    simpa [setWord] using hform
  | some stop =>
    obtain ⟨b₃, ds, b₄, p₃, rfl, h₃, hstop, rfl⟩ := exists_numeral_of_deadlineField? hdeadline
    have hform := Form.setUntil h₁ hk hne h₂ hv h₃ hstop (blanks_of_finish hfinish)
    simpa [setWord] using hform

theorem form_of_readDelete {r' : Record} {c : Json.Cursor}
    (h : readDelete ⟨p, encode cs⟩ = .ok (r', c)) (hfinish : finish r' c = .ok r) :
    Form (deleteWord ++ ' ' :: cs) r := by
  obtain ⟨b₁, k, b₂, key, p', rfl, h₁, hk, rfl, rfl⟩ := fields_of_readDelete h
  obtain ⟨rfl, hne⟩ := of_finish hfinish
  have hform := Form.delete h₁ hk hne (blanks_of_finish hfinish)
  simpa [deleteWord] using hform

theorem form_of_decode {text : List Char} (h : decode text = .ok r) :
    Form (dropTerminator text) r := by
  unfold decode at h
  dsimp only at h
  split at h
  · cases h
  · rename_i word blank operands hspan
    obtain ⟨hblank, htext⟩ := eq_of_span hspan
    rw [htext]
    unfold ofOperands at h
    dsimp only at h
    split at h
    · cases h
    · rename_i r' c hread
      split at hread
      · rename_i hword
        rw [hword]
        exact form_of_readSet hread h
      · split at hread
        · rename_i hword
          rw [hword]
          exact form_of_readDelete hread h
        · cases hread

end Operands

theorem isTerminator_iff {c : Char} : isTerminator c = true ↔ c = '\n' ∨ c = '\r' := by
  rw [isTerminator, Bool.or_eq_true, beq_iff_eq, beq_iff_eq]

/-- What is dropped is all the line feeds and carriage returns at the end. -/
theorem exists_ends (text : List Char) :
    ∃ ends, text = dropTerminator text ++ ends ∧ (∀ c ∈ ends, c = '\n' ∨ c = '\r') ∧
      ∀ c ∈ (dropTerminator text).getLast?, ¬(c = '\n' ∨ c = '\r') := by
  refine ⟨(text.reverse.takeWhile isTerminator).reverse, ?_, fun c hc => ?_, fun c hc => ?_⟩
  · rw [dropTerminator, ← List.reverse_append, List.takeWhile_append_dropWhile,
      List.reverse_reverse]
  · exact isTerminator_iff.mp (List.all_eq_true.mp List.all_takeWhile c (List.mem_reverse.mp hc))
  · rw [dropTerminator, List.getLast?_reverse] at hc
    have hnot := List.head?_dropWhile_not isTerminator text.reverse
    rw [hc] at hnot
    rw [← isTerminator_iff, hnot]
    exact Bool.false_ne_true

theorem decode_append (text : List Char) {ends : List Char}
    (h : ∀ c ∈ ends, isTerminator c = true) : decode (text ++ ends) = decode text := by
  rw [decode, decode, dropTerminator_append text h]

/-- A text is read as a record exactly where the grammar has that record for it, less the line feeds
and carriage returns at its end, and is refused where the grammar has none. -/
theorem decode_eq_ok_iff_form (text : List Char) :
    (∃ ends, text = dropTerminator text ++ ends ∧ (∀ c ∈ ends, c = '\n' ∨ c = '\r') ∧
        ∀ c ∈ (dropTerminator text).getLast?, ¬(c = '\n' ∨ c = '\r')) ∧
      (∀ r, decode text = .ok r ↔ Form (dropTerminator text) r) ∧
      ((∃ e, decode text = .error e) ↔ ∀ r, ¬ Form (dropTerminator text) r) ∧
      decode (text ++ ['\n']) = decode text ∧ decode (text ++ ['\r', '\n']) = decode text := by
  have hok : ∀ r, decode text = .ok r ↔ Form (dropTerminator text) r :=
    fun r => ⟨form_of_decode, decode_of_form⟩
  refine ⟨exists_ends text, hok, ⟨?_, fun h => ?_⟩, decode_append text (by simp [isTerminator]),
    decode_append text (by simp [isTerminator])⟩
  · rintro ⟨e, he⟩ r hr
    have hread := (hok r).mpr hr
    rw [he] at hread
    cases hread
  · cases hdecode : decode text with
    | error e => exact ⟨e, rfl⟩
    | ok r => exact (h r ((hok r).mp hdecode)).elim

theorem decode_eq_ok_iff_form_greatest :
    let greatest := "SET \"\\u00e9\\ud83d\\uDE00\\/\"\t\"\"18446744073709551615 \r\n".toList
    let beyond := "SET \"k\" \"v\" 18446744073709551616\n".toList
    let r := set "é😀/" "" (some 18446744073709551615)
    Form (dropTerminator greatest) r ∧ decode (greatest ++ ['\r', '\n']) = .ok r ∧
      ∀ r, ¬ Form (dropTerminator beyond) r := by
  intro greatest beyond r
  obtain ⟨-, hread, -, -, hends⟩ := decode_eq_ok_iff_form greatest
  obtain ⟨-, -, hrefused, -, -⟩ := decode_eq_ok_iff_form beyond
  have hgreatest : decode greatest = .ok r := by
    have heval : (decode greatest).toOption = some r := by decide +kernel
    cases hdecode : decode greatest with
    | error e => rw [hdecode] at heval; cases heval
    | ok q => rw [hdecode] at heval; cases heval; rfl
  have hbeyond : ∃ e, decode beyond = .error e := by
    have heval : (decode beyond).toOption = none := by decide +kernel
    cases hdecode : decode beyond with
    | error e => exact ⟨e, rfl⟩
    | ok q => rw [hdecode] at heval; cases heval
  exact ⟨(hread r).mp hgreatest, hends.trans hgreatest, hrefused.mp hbeyond⟩

end Larder.Record
