import Larder.Journal.Writer
import Larder.Proofs.DiskCalls
import Larder.Proofs.Lines

/-! A journal's file under every pattern of failing writes, syncs and cuts. It holds the complete
prefix it was opened with, then the records whose appends succeeded, in order, and then at most
the beginning of one record whose append failed; the writer is torn whenever there is one, and
knows where it starts. -/

namespace Larder.Journal

namespace Writer

/-- The file holds what counts, and then what a failed append left; the writer knows how long
the first part is and is torn if the second is not empty. -/
structure Stands (w : Writer) (m : Medium) (kept tail : Bytes) : Prop where
  bytes : m.bytes = kept ++ tail
  committed : w.committed = kept.length
  clean : w.torn = false → tail = []

theorem Stands.fits {w : Writer} {m : Medium} {kept tail : Bytes} (h : w.Stands m kept tail) :
    w.committed ≤ m.bytes.length := by
  rw [h.bytes, h.committed, List.length_append]
  exact Nat.le_add_right _ _

theorem Stands.take {w : Writer} {m : Medium} {kept tail : Bytes} (h : w.Stands m kept tail) :
    m.bytes.take w.committed = kept := by
  rw [h.bytes, h.committed, List.take_left]

/-- What lies ahead for the disk does not matter to what is in the file. -/
theorem Stands.setOutlook {w : Writer} {m : Medium} {kept tail : Bytes} (h : w.Stands m kept tail)
    (outlook : Outlook) : w.Stands { m with outlook } kept tail := ⟨h.bytes, h.committed, h.clean⟩

theorem take_completePrefix (bs : Bytes) :
    bs.take (completePrefix bs).length = completePrefix bs :=
  (List.prefix_iff_eq_take.mp (completePrefix_isPrefix bs)).symm

/-- A journal that could be opened holds its complete prefix and nothing else. -/
theorem stands_of_open? {m m' : Medium} {w : Writer} (h : open? m = (.ok w, m')) :
    w.torn = false ∧ w.Stands m' (completePrefix m.bytes) [] := by
  have hfront := completePrefix_isPrefix m.bytes
  rw [open?, completeLength_eq] at h
  split at h
  · split at h
    · cases h
    · rename_i hcut
      cases h
      refine ⟨rfl, ?_, rfl, fun _ => rfl⟩
      rw [Medium.bytes_cutAndSync_of_ok hfront.length_le hcut, take_completePrefix,
        List.append_nil]
  · rename_i hlt
    cases h
    refine ⟨rfl, ?_, rfl, fun _ => rfl⟩
    rw [List.append_nil]
    exact (hfront.eq_of_length_le (Nat.le_of_not_lt hlt)).symm

/-- A journal can be opened if nothing fails. -/
theorem open?_calm {m : Medium} (h : m.outlook.Calm) :
    ∃ m', open? m = (.ok ⟨(completePrefix m.bytes).length, false⟩, m') ∧ m'.outlook.Calm := by
  have hfront := completePrefix_isPrefix m.bytes
  have hcalm := h.cutAndSync (completePrefix m.bytes).length
  have hcut := (h.cutAndSync_result hfront.length_le).1
  rw [open?, completeLength_eq]
  split
  · split
    · rename_i he
      rw [he] at hcut
      cases hcut
    · rename_i m' hok
      rw [hok] at hcalm
      exact ⟨m', rfl, hcalm⟩
  · exact ⟨m, rfl, h⟩

/-- What is left of a line that could not be written and synced. -/
def leftOfLine (m : Medium) (line : Bytes) : Bytes :=
  if m.outlook.cuts.strikes then m.fitting line else []

/-- What is left behind the records that count when an append has failed. A cut that fails
before anything is written leaves what was there. -/
def leftOfAppend (w : Writer) (m : Medium) (r : Record) (tail : Bytes) : Bytes :=
  if w.torn then
    if m.outlook.cuts.strikes then tail
    else if m.outlook.syncs.strikes then []
    else leftOfLine (m.cutAndSync w.committed).2 r.bytes
  else leftOfLine m r.bytes

variable {w : Writer} {m : Medium} {kept tail : Bytes}

theorem discard_spec (h : w.Stands m kept tail) :
    (m.outlook.cuts.strikes = false ∧ m.outlook.syncs.strikes = false ∧
        w.discard m = ⟨.ok (), { w with torn := false }, (m.cutAndSync w.committed).2⟩ ∧
        Stands { w with torn := false } (m.cutAndSync w.committed).2 kept []) ∨
      ∃ e, w.discard m = ⟨.error e, w, (m.cutAndSync w.committed).2⟩ ∧
        (m.outlook.cuts.strikes = true ∧ (m.cutAndSync w.committed).2.bytes = kept ++ tail ∨
          m.outlook.cuts.strikes = false ∧ m.outlook.syncs.strikes = true ∧
            (m.cutAndSync w.committed).2.bytes = kept) := by
  unfold discard
  cases hcut : m.outlook.cuts.strikes with
  | true =>
    obtain ⟨hresult, hbytes⟩ := Medium.cutAndSync_of_strikes hcut w.committed
    right
    generalize m.cutAndSync w.committed = o at *
    obtain ⟨result, m'⟩ := o
    cases hresult
    exact ⟨_, rfl, .inl ⟨rfl, by rw [hbytes, h.bytes]⟩⟩
  | false =>
    obtain ⟨hresult, hbytes⟩ := Medium.cutAndSync_of_clear hcut h.fits
    rw [h.take] at hbytes
    generalize m.cutAndSync w.committed = o at *
    obtain ⟨result, m'⟩ := o
    cases hsync : m.outlook.syncs.strikes with
    | true =>
      rw [hsync] at hresult
      cases hresult
      exact .inr ⟨_, rfl, .inr ⟨rfl, rfl, hbytes⟩⟩
    | false =>
      rw [hsync] at hresult
      cases hresult
      exact .inl ⟨rfl, rfl, rfl, by rw [List.append_nil]; exact hbytes, h.committed, fun _ => rfl⟩

theorem appendLine_result (w : Writer) (line : Bytes) (m : Medium) :
    (w.appendLine line m).result = (m.writeAndSync line).1 := by
  unfold appendLine
  split <;> (rename_i h; rw [h])

theorem append_result_of_clean {w : Writer} (h : w.torn = false) (r : Record) (m : Medium) :
    (w.append r m).result = (m.writeAndSync r.bytes).1 := by
  rw [append, h, if_neg Bool.false_ne_true, appendLine_result]

theorem append_result_of_torn {w : Writer} (h : w.torn = true) (r : Record) (m : Medium) :
    (w.append r m).result =
      match (m.cutAndSync w.committed).1 with
      | .error e => .error e
      | .ok _ => ((m.cutAndSync w.committed).2.writeAndSync r.bytes).1 := by
  rw [append, h, if_pos rfl, discard]
  generalize m.cutAndSync w.committed = o
  obtain ⟨result, m'⟩ := o
  cases result with
  | error e => rfl
  | ok _ => exact appendLine_result _ _ _

theorem appendLine_spec (h : w.Stands m kept []) (htorn : w.torn = false) (line : Bytes) :
    let o := w.appendLine line m
    (o.result = .ok () ∧ o.writer.torn = false ∧ Stands o.writer o.medium (kept ++ line) []) ∨
      ∃ e, o.result = .error e ∧ Stands o.writer o.medium kept (leftOfLine m line) := by
  have hbytes := Medium.bytes_writeAndSync m line
  have hcuts := Medium.cuts_writeAndSync m line
  rw [h.bytes, List.append_nil] at hbytes
  unfold appendLine
  split
  · rename_i m' hw
    left
    have hfits : m.fits line = true := by
      have := Medium.writeAndSync_result m line
      rw [hw] at this
      by_contra hno
      rw [if_neg hno] at this
      cases this
    rw [hw, Medium.fitting_of_fits hfits] at hbytes
    refine ⟨rfl, htorn, by simpa using hbytes, ?_, fun _ => rfl⟩
    rw [List.length_append, ← h.committed]
  · rename_i e m' hw
    right
    rw [hw] at hbytes hcuts
    have hstands : Stands { w with torn := true } m' kept (m.fitting line) :=
      ⟨hbytes, h.committed, fun h => by cases h⟩
    have hleft : leftOfLine m line = if m'.outlook.cuts.strikes then m.fitting line else [] := by
      rw [leftOfLine, ← hcuts]
    refine ⟨e, rfl, ?_⟩
    rw [hleft]
    rcases discard_spec hstands with ⟨hcut, -, hd, hs⟩ | ⟨e', hd, ⟨hcut, hb⟩ | ⟨hcut, -, hb⟩⟩
    · rw [hd, hcut]
      exact hs
    · rw [hd, hcut]
      exact ⟨hb, h.committed, fun h => by cases h⟩
    · rw [hd, hcut]
      exact ⟨by simpa using hb, h.committed, fun h => by cases h⟩

/-- An append counts once it has succeeded, and until then nothing of what counts changes. -/
theorem append_spec (h : w.Stands m kept tail) (r : Record) :
    let o := w.append r m
    (o.result = .ok () ∧ o.writer.torn = false ∧
        Stands o.writer o.medium (kept ++ r.bytes) []) ∨
      ∃ e, o.result = .error e ∧ Stands o.writer o.medium kept (leftOfAppend w m r tail) := by
  cases htorn : w.torn with
  | false =>
    have htail := h.clean htorn
    subst htail
    simp only [append, leftOfAppend, htorn]
    exact appendLine_spec h htorn r.bytes
  | true =>
    simp only [append, leftOfAppend, htorn, if_true]
    rcases discard_spec h with ⟨hcut, hsync, hd, hs⟩ | ⟨e, hd, ⟨hcut, hb⟩ | ⟨hcut, hsync, hb⟩⟩
    · simp only [hd, hcut, hsync]
      exact appendLine_spec hs rfl r.bytes
    · simp only [hd, hcut]
      exact .inr ⟨e, rfl, hb, h.committed, fun hf => by rw [htorn] at hf; cases hf⟩
    · simp only [hd, hcut, hsync]
      exact .inr ⟨e, rfl, by simpa using hb, h.committed, fun _ => rfl⟩

/-- What is left was left before, by a writer that knew of it, or begins the record. -/
theorem leftOfAppend_cases (w : Writer) (m : Medium) (r : Record) (tail : Bytes) :
    leftOfAppend w m r tail = tail ∨ leftOfAppend w m r tail <+: r.bytes := by
  have hline : ∀ m : Medium, leftOfLine m r.bytes <+: r.bytes := by
    intro m
    unfold leftOfLine
    split
    · exact m.fitting_isPrefix _
    · exact List.nil_prefix
  unfold leftOfAppend
  split
  · split
    · exact .inl rfl
    · split
      · exact .inr List.nil_prefix
      · exact .inr (hline _)
  · exact .inr (hline _)

end Writer

/-- A record to be appended, and what lies ahead for the disk from then on. -/
structure Attempt where
  outlook : Outlook
  record : Record

/-- A writer and its file, and the records it has been given: those whose appends succeeded and
those whose appends failed, each in the order of the appends. -/
structure History where
  writer : Writer
  medium : Medium
  accepted : List Record
  refused : List Record

namespace History

def attempt (h : History) (a : Attempt) : History :=
  let o := h.writer.append a.record { h.medium with outlook := a.outlook }
  match o.result with
  | .ok _ => ⟨o.writer, o.medium, h.accepted ++ [a.record], h.refused⟩
  | .error _ => ⟨o.writer, o.medium, h.accepted, h.refused ++ [a.record]⟩

/-- The history of a writer that has just been opened. -/
def start (w : Writer) (m : Medium) : History := ⟨w, m, [], []⟩

def run (h : History) (attempts : List Attempt) : History := attempts.foldl attempt h

/-- What the file holds, from what was there at the start on. -/
def Sound (base : Bytes) (h : History) : Prop :=
  ∃ tail, h.writer.Stands h.medium (base ++ encoding h.accepted) tail ∧
    (tail ≠ [] → ∃ r ∈ h.refused, tail <+: r.bytes)

theorem Sound.attempt {base : Bytes} {h : History} (hs : h.Sound base) (a : Attempt) :
    (h.attempt a).Sound base := by
  obtain ⟨tail, hstands, htail⟩ := hs
  unfold History.attempt
  rcases Writer.append_spec (hstands.setOutlook a.outlook) a.record with
    ⟨hok, -, hs⟩ | ⟨e, herr, hs⟩
  · simp only [hok]
    refine ⟨[], ?_, fun hne => absurd rfl hne⟩
    rw [encoding_append, encoding_cons, encoding_nil, List.append_nil, ← List.append_assoc]
    exact hs
  · simp only [herr]
    refine ⟨_, hs, fun hne => ?_⟩
    rcases Writer.leftOfAppend_cases h.writer { h.medium with outlook := a.outlook } a.record tail
      with hsame | hfront
    · rw [hsame] at hne ⊢
      obtain ⟨r, hr, hp⟩ := htail hne
      exact ⟨r, List.mem_append_left _ hr, hp⟩
    · exact ⟨a.record, List.mem_append_right _ List.mem_cons_self, hfront⟩

theorem Sound.run {base : Bytes} {h : History} (hs : h.Sound base) (attempts : List Attempt) :
    (h.run attempts).Sound base := by
  induction attempts generalizing h with
  | nil => exact hs
  | cons a attempts ih => exact ih (hs.attempt a)

theorem sound_start {m m' : Medium} {w : Writer} (hopen : Writer.open? m = (.ok w, m')) :
    (start w m').Sound (completePrefix m.bytes) := by
  obtain ⟨-, hs⟩ := Writer.stands_of_open? hopen
  exact ⟨[], by simpa [start] using hs, fun hne => absurd rfl hne⟩

end History

/-- The beginning of a record is one line, and the last one. -/
theorem segments_of_isPrefix_bytes {t : Bytes} {r : Record} (h : t <+: r.bytes) :
    segments t = if t = [] then [] else [t] := by
  by_cases hlt : t.length < r.bytes.length
  · rcases Nat.eq_zero_or_pos t.length with hz | hpos
    · rw [List.length_eq_zero_iff.mp hz]
      rfl
    · rw [List.prefix_iff_eq_take.mp h]
      obtain ⟨hfeed, -⟩ := readLine?_take_bytes r hpos hlt
      exact segments_unended hfeed
  · have hwhole : t = r.bytes := h.eq_of_length_le (Nat.le_of_not_lt hlt)
    have hne : r.bytes ≠ [] := by
      rw [r.bytes_eq]
      simp
    rw [hwhole, segments_bytes, if_neg hne]

/-- Whatever fails, the file is the complete prefix from before it was opened, the records whose
appends succeeded, and the beginning of a record whose append failed, which is empty unless the
writer is torn; so each record that was accepted is a line of its own, once and in its place. -/
theorem file_of_attempts {m m' : Medium} {w : Writer} (hopen : Writer.open? m = (.ok w, m'))
    (attempts : List Attempt) :
    let h := (History.start w m').run attempts
    ∃ tail, h.medium.bytes = completePrefix m.bytes ++ encoding h.accepted ++ tail ∧
      h.writer.committed = (completePrefix m.bytes ++ encoding h.accepted).length ∧
      (tail ≠ [] → h.writer.torn = true ∧ ∃ r ∈ h.refused, tail <+: r.bytes) ∧
      segments h.medium.bytes = segments (completePrefix m.bytes) ++
        h.accepted.map Record.bytes ++ (if tail = [] then [] else [tail]) := by
  intro h
  obtain ⟨tail, hstands, htail⟩ := (History.sound_start hopen).run attempts
  refine ⟨tail, hstands.bytes, hstands.committed, fun hne => ⟨?_, htail hne⟩, ?_⟩
  · cases htorn : h.writer.torn with
    | true => rfl
    | false => exact absurd (hstands.clean htorn) hne
  · have hkept : Complete (completePrefix m.bytes ++ encoding h.accepted) :=
      (complete_completePrefix m.bytes).append (complete_encoding h.accepted)
    have hlast : segments tail = if tail = [] then [] else [tail] := by
      by_cases hne : tail = []
      · rw [hne]
        rfl
      · obtain ⟨r, -, hp⟩ := htail hne
        exact segments_of_isPrefix_bytes hp
    rw [hstands.bytes, segments_append hkept, segments_append (complete_completePrefix _),
      segments_encoding, hlast]

/-- Two bytes count at the start. The first append breaks off after three bytes, which the cut
then leaves there; the second one cuts them off. -/
theorem file_of_attempts_cut_late :
    let m : Medium := ⟨[83, 10, 84], .clear⟩
    let m' : Medium := ⟨[83, 10], none, Trouble.none.next, Trouble.none.next⟩
    let h := (History.start ⟨2, false⟩ m').run
      [⟨⟨some 3, .none, .first 1⟩, .delete "k"⟩, ⟨.clear, .delete "l"⟩]
    Writer.open? m = (.ok ⟨2, false⟩, m') ∧ h.accepted = [.delete "l"] ∧
      h.refused = [.delete "k"] ∧
      ∃ tail, h.medium.bytes = completePrefix m.bytes ++ encoding h.accepted ++ tail ∧
        h.writer.committed = (completePrefix m.bytes ++ encoding h.accepted).length ∧
        (tail ≠ [] → h.writer.torn = true ∧ ∃ r ∈ h.refused, tail <+: r.bytes) ∧
        segments h.medium.bytes = segments (completePrefix m.bytes) ++
          h.accepted.map Record.bytes ++ (if tail = [] then [] else [tail]) := by
  intro m m' h
  have hopen : Writer.open? m = (.ok ⟨2, false⟩, m') := by
    rw [Writer.open?, completeLength_eq]
    rfl
  exact ⟨hopen, rfl, rfl, file_of_attempts hopen _⟩

end Larder.Journal
