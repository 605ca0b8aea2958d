import Larder.Proofs.RefusedChanges

/-! What a change that is refused leaves as it was. Whichever call of the disk fails, nothing is
served, counted or ordered in another way than before, and all that counts in the journal's file
stands where it stood; only behind that may the file differ, and the writer know of it. A change
that never reaches the journal leaves the file alone altogether. -/

namespace Larder

namespace Journal.Writer

/-- A file in which everything that counts stands at its front. -/
def Backed (w : Writer) (m : Medium) : Prop := ∃ kept tail, w.Stands m kept tail

variable {w : Writer} {m : Medium}

theorem Backed.setOutlook (h : w.Backed m) (outlook : Outlook) : w.Backed { m with outlook } := by
  obtain ⟨kept, tail, hstands⟩ := h
  exact ⟨kept, tail, hstands.setOutlook outlook⟩

/-- An append that fails leaves all that counts. -/
theorem Backed.append_of_error (h : w.Backed m) {r : Record} {e : OsError}
    (he : (w.append r m).result = .error e) :
    (w.append r m).writer.committed = w.committed ∧
      w.committed ≤ (w.append r m).medium.bytes.length ∧
      (w.append r m).medium.bytes.take w.committed = m.bytes.take w.committed := by
  obtain ⟨kept, tail, hstands⟩ := h
  rcases append_spec hstands r with ⟨hok, -, -⟩ | ⟨e', -, hs⟩
  · rw [he] at hok
    cases hok
  · have hcommitted : (w.append r m).writer.committed = w.committed := by
      rw [hs.committed, hstands.committed]
    have hfits := hs.fits
    have htake := hs.take
    rw [hcommitted] at hfits htake
    exact ⟨hcommitted, hfits, htake.trans hstands.take.symm⟩

end Journal.Writer

namespace Store

open Journal

/-- All that is served, ordered, counted and committed is as it was. -/
structure Unmoved (s : Store) (m : Medium) (s' : Store) (m' : Medium) : Prop where
  /-- Only the writer may differ. -/
  store : s' = { s with writer := s'.writer }
  committed : s'.writer.map (·.committed) = s.writer.map (·.committed)
  counted : ∀ w, s.writer = some w →
    w.committed ≤ m'.bytes.length ∧ m'.bytes.take w.committed = m.bytes.take w.committed

/-- What a change leaves of a store and its file when it is refused with a failure. -/
structure Intact {α : Type} (s : Store) (m : Medium) (f : Failure) (o : Outcome α) : Prop
    extends Unmoved s m o.store o.medium where
  unwritten : (∃ objection, f = .invalid objection) ∨ f = .closed → o.store = s ∧ o.medium = m

variable {s : Store} {m : Medium}

/-- What counts for a store that still has its journal. -/
def Backed (s : Store) (m : Medium) : Prop := ∀ w, s.writer = some w → w.Backed m

theorem Backed.unmoved (hb : s.Backed m) : Unmoved s m s m := by
  refine ⟨rfl, rfl, fun w hw => ?_⟩
  obtain ⟨kept, tail, hstands⟩ := hb w hw
  exact ⟨hstands.fits, rfl⟩

theorem intact_of_eq {α : Type} (hb : s.Backed m) (f : Failure) (answer : α) :
    Intact s m f ⟨answer, s, m⟩ := ⟨hb.unmoved, fun _ => ⟨rfl, rfl⟩⟩

theorem intact_write (hb : s.Backed m) {r : Record} {f : Failure}
    (h : (s.write m r).answer = .error f) : Intact s m f (s.write m r) := by
  cases hw : s.writer with
  | none =>
    rw [write_of_closed hw]
    exact intact_of_eq hb f _
  | some w =>
    have hkeep := fun e => (hb w hw).append_of_error (r := r) (e := e)
    simp only [write, hw] at h ⊢
    generalize w.append r m = o at *
    obtain ⟨result, w', m'⟩ := o
    cases result with
    | ok _ => cases h
    | error e =>
      obtain ⟨hcommitted, hfits, htake⟩ := hkeep e rfl
      cases h
      refine ⟨⟨rfl, ?_, fun v hv => ?_⟩, ?_⟩
      · rw [hw]
        exact congrArg some hcommitted
      · cases hw.symm.trans hv
        exact ⟨hfits, htake⟩
      · rintro (⟨objection, h⟩ | h) <;> cases h

theorem intact_set (hb : s.Backed m) {now : Millis} {key value : String} {ttl : Option Duration}
    {f : Failure} (h : (s.set m now key value ttl).answer = .error f) :
    Intact s m f (s.set m now key value ttl) := by
  cases hvalid : entryObjection? key value with
  | some o =>
    rw [set_of_objection hvalid]
    exact intact_of_eq hb f _
  | none =>
    have hwrite := intact_write hb (r := .set key value (s.deadlineFor now ttl)) (f := f)
    simp only [set, hvalid] at h ⊢
    generalize s.write m _ = o at *
    obtain ⟨answer, s', m'⟩ := o
    cases answer with
    | ok _ => cases h
    | error f' =>
      cases h
      obtain ⟨hunmoved, hunwritten⟩ := hwrite rfl
      exact ⟨hunmoved, hunwritten⟩

theorem intact_delete (hb : s.Backed m) {now : Millis} {key : String} {f : Failure}
    (h : (s.delete m now key).answer = .error f) : Intact s m f (s.delete m now key) := by
  cases hvalid : keyObjection? key with
  | some o =>
    rw [delete_of_objection hvalid]
    exact intact_of_eq hb f _
  | none =>
    have hwrite := intact_write hb (r := .delete key) (f := f)
    simp only [delete, hvalid] at h ⊢
    generalize s.write m _ = o at *
    obtain ⟨answer, s', m'⟩ := o
    cases answer with
    | ok _ => cases h
    | error f' =>
      cases h
      obtain ⟨hunmoved, hunwritten⟩ := hwrite rfl
      exact ⟨hunmoved, hunwritten⟩

theorem History.Sound.backed {base : Bytes} {h : History} {left : Option Record}
    (hs : h.Sound base left) : h.store.Backed h.medium := by
  obtain ⟨tail, -, -, hstands⟩ := hs.file
  exact fun w hw => ⟨_, tail, hstands w hw⟩

/-- A store that has been loaded and has served for a while knows what counts in its file. -/
theorem backed_of_run {settings : Settings} {now : Millis} {m m' : Medium} {recovered : Recovered}
    (hload : Recovery.load settings now m = (.ok recovered, m')) (events : List Event)
    (outlook : Outlook) :
    let h := (History.start recovered.store m').run events
    h.store.Backed ⟨h.medium.bytes, outlook⟩ := by
  intro h w hw
  exact (((History.sound_start hload).run events).backed w hw).setOutlook outlook

/-- Whatever a store has been through and whichever calls of the disk fail, a change that is
refused leaves it intact. -/
theorem intact_of_refused {settings : Settings} {loaded : Millis} {m m' : Medium}
    {recovered : Recovered} (hload : Recovery.load settings loaded m = (.ok recovered, m'))
    (events : List Event) (outlook : Outlook) (now : Millis) (key : String) :
    let h := (History.start recovered.store m').run events
    let found : Medium := ⟨h.medium.bytes, outlook⟩
    (∀ value ttl f, (h.store.set found now key value ttl).answer = .error f →
        Intact h.store found f (h.store.set found now key value ttl)) ∧
      ∀ f, (h.store.delete found now key).answer = .error f →
        Intact h.store found f (h.store.delete found now key) := by
  intro h found
  have hb := backed_of_run hload events outlook
  exact ⟨fun value ttl f => intact_set hb, fun f => intact_delete hb⟩

/-- One entry is stored. The next set breaks off after three bytes, which cannot be cut off, and
the delete after it cannot cut them off either: the entry is served as before, and its record is
all that counts. -/
theorem intact_of_refused_twice :
    let s : Store := .ofShelf (.empty 1000) ⟨0, false⟩ .default
    let m : Medium := ⟨[], .clear⟩
    let events : List Event :=
      [⟨.set "k" "v" none, 0, .clear⟩, ⟨.set "k" "w" none, 0, ⟨some 3, .none, .first 1⟩⟩]
    let h := (History.start s m).run events
    let found : Medium := ⟨h.medium.bytes, ⟨none, .none, .first 1⟩⟩
    let o := h.store.delete found 0 "k"
    Recovery.load .default 0 m = (.ok ⟨s, .zero⟩, m) ∧
      o.answer = .error (.io (.system .inputOutput)) ∧
      h.store.writer = some ⟨12, true⟩ ∧ found.bytes.length = 15 ∧
      o.store = { h.store with writer := o.store.writer } ∧
      o.store.writer.map (·.committed) = some 12 ∧
      o.medium.bytes.take 12 = (Record.set "k" "v" none).bytes := by
  intro s m events h found o
  have hload : Recovery.load .default 0 m = (.ok ⟨s, .zero⟩, m) := Recovery.load_nil _ _ _
  have hrefused : o.answer = .error (.io (.system .inputOutput)) := rfl
  have hwriter : h.store.writer = some ⟨12, true⟩ := rfl
  obtain ⟨-, hdelete⟩ := intact_of_refused hload events ⟨none, .none, .first 1⟩ 0 "k"
  obtain ⟨⟨hstore, hcommitted, hcounted⟩, -⟩ := hdelete _ hrefused
  refine ⟨hload, hrefused, hwriter, rfl, hstore, hcommitted, ?_⟩
  exact (hcounted _ hwriter).2.trans rfl

end Store

end Larder
