import Larder.Proofs.OpenedFiles
import Larder.Proofs.Replaying

/-! What a replay that stops at the first line which is no record leaves of the file. A journal it
refuses stays as it is, and one it takes keeps all its bytes unless there are blanks behind the
last line feed. Those are passed over like any line of blanks although their line was never
ended, and opening the journal then cuts them off. -/

namespace Larder

namespace Journal

/-- Ends in blanks that no line feed follows. -/
def EndsInBlanks (bs : Bytes) : Prop :=
  ∃ tail, tail ≠ [] ∧ lineFeed ∉ tail ∧ Blank tail ∧ bs = completePrefix bs ++ tail

/-- Where no line is reported, opening cuts off blanks or nothing. -/
theorem completePrefix_eq_iff {bs : Bytes}
    (hsound : ∀ i ∈ items bs, Replay.stop? .strict i = none) :
    completePrefix bs = bs ↔ ¬EndsInBlanks bs := by
  constructor
  · rintro hwhole ⟨tail, hne, -, -, hsplit⟩
    rw [hwhole] at hsplit
    exact hne (List.append_right_eq_self.mp hsplit.symm)
  · intro hno
    obtain ⟨tail, hfeed, hsplit⟩ := exists_completePrefix_append bs
    by_cases hne : tail = []
    · rw [hne, List.append_nil] at hsplit
      exact hsplit.symm
    rcases items_append_unended (complete_completePrefix bs) hfeed with
      ⟨hblank, -⟩ | ⟨-, number, e, hitems⟩
    · exact absurd ⟨tail, hne, hfeed, hblank, hsplit⟩ hno
    · -- a line that was never ended and holds more than blanks would have been reported
      rw [← hsplit] at hitems
      have := hsound (.error (.corruptLine number e)) (by simp [hitems])
      cases this

end Journal

namespace Recovery

open Replay

/-- A replay of a file fails with the report of a line. -/
theorem failure_of_replay {settings : Settings} {now : Millis} {bs : Bytes} {f : Failure}
    {shelf : Shelf} (h : replay settings now (Journal.items bs) = (.error f, shelf)) :
    ∃ number reason, f = .corruptLine number reason := by
  have hfailure := failure_runItems settings.policy now (start (.empty settings.maxEntries))
    (Journal.items bs)
  unfold replay run at h
  generalize runItems settings.policy now _ (Journal.items bs) = o at *
  obtain ⟨failure, s⟩ := o
  cases failure with
  | none => cases h
  | some f' =>
    cases h
    obtain ⟨i, hi, hstop⟩ := List.exists_of_findSome?_eq_some hfailure.symm
    rcases fromLine_items hi with ⟨r, rfl⟩ | ⟨number, reason, rfl⟩
    · cases hstop
    · cases hpolicy : settings.policy with
      | strict =>
        rw [hpolicy] at hstop
        cases hstop
        exact ⟨number, reason, rfl⟩
      | skip =>
        rw [hpolicy] at hstop
        cases hstop

/-- A line that ends the replay is reported, and the file is not opened. -/
theorem load_of_stop {settings : Settings} {m : Medium} {i : Journal.Item}
    (hi : i ∈ Journal.items m.bytes) (hstop : stop? settings.policy i ≠ none) (now : Millis) :
    ∃ number reason, load settings now m = (.error (.corruptLine number reason), m) := by
  unfold load
  cases hreplay : replay settings now (Journal.items m.bytes) with
  | mk result shelf =>
    cases result with
    | error f =>
      obtain ⟨number, reason, rfl⟩ := failure_of_replay hreplay
      exact ⟨number, reason, rfl⟩
    | ok tally => exact absurd (stop?_of_replay hreplay i hi) hstop

end Recovery

namespace Disk

/-- The journal at a path: what is read there, nothing if there is no file, is what stands in the
place that is opened for appending. -/
structure JournalAt (d : Disk) (p : Path) (l : Location) (file : Bytes) : Prop where
  reader : d.reader p = .ok (.ofBytes file)
  opens : (d.tree.createWithParents p).1 = .ok l
  content : d.tree.content l = file

theorem journalAt_of_file? {d : Disk} {p : Path} {l : Location} {file : Bytes}
    (h : d.file? p = some (l, file)) : d.JournalAt p l file := by
  unfold file? at h
  split at h
  · rename_i place bytes hfind
    cases h
    refine ⟨?_, ?_, Tree.content_of_find hfind⟩
    · rw [reader, hfind]
    · rw [Tree.createWithParents_of_find hfind]
  · cases h

theorem journalAt_of_notFound {d : Disk} {p : Path} {l : Location}
    (hfind : d.tree.find p = .error .notFound) (hopens : (d.tree.createWithParents p).1 = .ok l)
    (hcontent : d.tree.content l = []) : d.JournalAt p l [] := by
  refine ⟨?_, hopens, hcontent⟩
  rw [reader, hfind]

/-- The file at a place, with what lies ahead for the disk. -/
def medium (d : Disk) (l : Location) : Medium := ⟨d.tree.content l, d.outlook⟩

/-- The journal at a path is opened as the one file it is. -/
theorem openJournal_eq {d : Disk} {p : Path} {l : Location} {file : Bytes}
    (hat : d.JournalAt p l file) :
    (d.openJournal p).1 = (Journal.Writer.open? (d.medium l)).1.map (fun w => (l, w)) ∧
      (d.openJournal p).2.medium l = (Journal.Writer.open? (d.medium l)).2 := by
  obtain ⟨hcontent, hplace⟩ := Tree.createWithParents_spec d.tree p
  have hopens := hat.opens
  unfold openJournal createWithParents
  generalize d.tree.createWithParents p = made at *
  obtain ⟨r, t⟩ := made
  cases hopens
  obtain ⟨bytes, hnode⟩ := hplace l rfl
  have hmade : (⟨t.content l, d.outlook⟩ : Medium) = d.medium l := by rw [hcontent, medium]
  simp only [onFile, hmade, true_and]
  rw [medium, Tree.content_put_of_file hnode]

/-- The journal at a path is loaded as the one file it is, and a disk whose journal is refused
for one of its lines stays as it was. -/
theorem load_eq {d : Disk} {p : Path} {l : Location} {file : Bytes} (hat : d.JournalAt p l file)
    (settings : Settings) (now : Millis) :
    let loaded := Recovery.load settings now (d.medium l)
    (d.load p settings now).1 = loaded.1.map (fun recovered => (l, recovered)) ∧
      (d.load p settings now).2.medium l = loaded.2 ∧
      ∀ number reason, loaded.1 = .error (.corruptLine number reason) →
        (d.load p settings now).2 = d := by
  intro loaded
  have hitems : (Journal.Reader.ofBytes file).items = Journal.items (d.medium l).bytes := by
    rw [medium, hat.content, Journal.items]
  obtain ⟨hanswer, hmedium⟩ := openJournal_eq hat
  unfold load loaded Recovery.load
  simp only [hat.reader, hitems]
  cases Recovery.replay settings now (Journal.items (d.medium l).bytes) with
  | mk result shelf =>
    cases result with
    | error f => exact ⟨rfl, rfl, fun _ _ _ => rfl⟩
    | ok tally =>
      dsimp only
      generalize d.openJournal p = outer at *
      generalize Journal.Writer.open? (d.medium l) = inner at *
      obtain ⟨answer, d'⟩ := outer
      obtain ⟨opened, m⟩ := inner
      obtain rfl : answer = opened.map fun w => (l, w) := hanswer
      -- what opening reports is never the report of a line
      cases opened with
      | error e => exact ⟨rfl, hmedium, fun _ _ h => nomatch h⟩
      | ok w => exact ⟨rfl, hmedium, fun _ _ h => nomatch h⟩

/-- A line that ends the replay leaves the disk alone. -/
theorem load_of_stop {settings : Settings} {d : Disk} {p : Path} {l : Location} {file : Bytes}
    (hat : d.JournalAt p l file) {i : Journal.Item} (hi : i ∈ Journal.items file)
    (hstop : Replay.stop? settings.policy i ≠ none) (now : Millis) :
    ∃ number reason, d.load p settings now = (.error (.corruptLine number reason), d) := by
  have hline : i ∈ Journal.items (d.medium l).bytes := by rwa [medium, hat.content]
  obtain ⟨number, reason, hload⟩ := Recovery.load_of_stop hline hstop now
  obtain ⟨hanswer, -, hsame⟩ := load_eq hat settings now
  rw [hload] at hanswer hsame
  exact ⟨number, reason, Prod.ext hanswer (hsame number reason rfl)⟩

/-- Where no line ends the replay and no call fails, the journal is loaded. -/
theorem load_of_items {settings : Settings} {d : Disk} (hcalm : d.outlook.Calm) {p : Path}
    {l : Location} {file : Bytes} (hat : d.JournalAt p l file)
    (hitems : ∀ i ∈ Journal.items file, Replay.stop? settings.policy i = none) (now : Millis) :
    ∃ recovered d', d.load p settings now = (.ok (l, recovered), d') ∧
      d'.tree.content l = Journal.completePrefix file := by
  have hbytes : (d.medium l).bytes = file := hat.content
  obtain ⟨m', hopen, -⟩ := Journal.Writer.open?_calm (m := d.medium l) hcalm
  obtain ⟨-, hstands⟩ := Journal.Writer.stands_of_open? hopen
  rw [← hbytes] at hitems
  obtain ⟨recovered, hload⟩ := Recovery.load_of_items hitems hopen now
  obtain ⟨hanswer, hmedium, -⟩ := load_eq hat settings now
  rw [hload] at hanswer hmedium
  refine ⟨recovered, _, Prod.ext hanswer rfl, ?_⟩
  calc (d.load p settings now).2.tree.content l
      = ((d.load p settings now).2.medium l).bytes := rfl
    _ = m'.bytes := by rw [hmedium]
    _ = Journal.completePrefix file := by rw [hstands.bytes, List.append_nil, hbytes]

/-- Under the policy that stops at the first line which is no record, a journal is either refused
with the report of a line, and the disk stays as it was, or loaded. Then its file holds all it
held before, unless that ended in blanks that no line feed followed: they are cut off. -/
theorem load_strict {settings : Settings} (hstrict : settings.policy = .strict) {d : Disk}
    (hcalm : d.outlook.Calm) {p : Path} {l : Location} {file : Bytes} (hat : d.JournalAt p l file)
    (now : Millis) :
    (∃ number reason, d.load p settings now = (.error (.corruptLine number reason), d)) ∨
      ∃ recovered d', d.load p settings now = (.ok (l, recovered), d') ∧
        d'.tree.content l = Journal.completePrefix file ∧
        (d'.tree.content l = file ↔ ¬Journal.EndsInBlanks file) := by
  by_cases hitems : ∀ i ∈ Journal.items file, Replay.stop? settings.policy i = none
  · obtain ⟨recovered, d', hload, hcontent⟩ := load_of_items hcalm hat hitems now
    rw [hstrict] at hitems
    exact .inr ⟨recovered, d', hload, hcontent, by
      rw [hcontent, Journal.completePrefix_eq_iff hitems]⟩
  · push Not at hitems
    obtain ⟨i, hi, hstop⟩ := hitems
    exact .inl (load_of_stop hat hi hstop now)

/-- A disk with one journal on it. -/
def single (name file : Bytes) : Disk := ⟨⟨.directory [(name, .file file)]⟩, .clear⟩

/-- A whole record and a line of blanks, both ended, are kept, and where there is no file an
empty one is made. -/
theorem load_strict_whole :
    let settings := { Settings.default with policy := .strict }
    let file := (Record.set "a" "1" none).bytes ++ [32, Journal.lineFeed]
    let d := single [106] file
    settings.policy = .strict ∧ d.outlook.Calm ∧ d.JournalAt ⟨[106]⟩ [[106]] file ∧
      Disk.empty.JournalAt ⟨[106]⟩ [[106]] [] ∧
      (∃ recovered d', d.load ⟨[106]⟩ settings 0 = (.ok ([[106]], recovered), d') ∧
        d'.tree.content [[106]] = file) ∧
      ∃ recovered d', Disk.empty.load ⟨[106]⟩ settings 0 = (.ok ([[106]], recovered), d') ∧
        d'.tree.content [[106]] = [] := by
  intro settings file d
  have hcalm : d.outlook.Calm := Outlook.calm_clear
  have hat : d.JournalAt ⟨[106]⟩ [[106]] file := journalAt_of_file? (by decide +kernel)
  have hnew : Disk.empty.JournalAt ⟨[106]⟩ [[106]] [] := journalAt_of_notFound rfl rfl rfl
  have hsound : ∀ i ∈ Journal.items file, Replay.stop? settings.policy i = none := by
    have h : (Journal.items file).all (fun i => (Replay.stop? .strict i).isNone) = true := by
      decide +kernel
    simpa using h
  have hwhole : ¬Journal.EndsInBlanks file :=
    (Journal.completePrefix_eq_iff hsound).mp (by decide +kernel)
  obtain ⟨recovered, d', hload, -⟩ := load_of_items hcalm hat hsound 0
  have hnothing : ∀ i ∈ Journal.items [], Replay.stop? settings.policy i = none := by
    rw [show Journal.items [] = [] from rfl]
    simp
  refine ⟨rfl, hcalm, hat, hnew, ⟨recovered, d', hload, ?_⟩,
    load_of_items Outlook.calm_clear hnew hnothing 0⟩
  have hstrict : settings.policy = .strict := rfl
  rcases load_strict hstrict hcalm hat 0 with ⟨number, reason, h⟩ | ⟨_, _, h, -, hsame⟩
  · rw [hload] at h
    cases h
  · rw [hload] at h
    cases h
    exact hsame.mpr hwhole

/-- A blank behind the last line feed is cut off, and the journal loads all the same. -/
theorem load_strict_cut_off :
    let settings := { Settings.default with policy := .strict }
    let front := (Record.set "a" "1" none).bytes
    let d := single [106] (front ++ [32])
    d.file? ⟨[106]⟩ = some ([[106]], front ++ [32]) ∧
      ∃ recovered d', d.load ⟨[106]⟩ settings 0 = (.ok ([[106]], recovered), d') ∧
        d'.tree.content [[106]] = front ∧ d'.tree.content [[106]] ≠ front ++ [32] := by
  intro settings front d
  have hfile : d.file? ⟨[106]⟩ = some ([[106]], front ++ [32]) := by decide +kernel
  have hitems : ∀ i ∈ Journal.items (front ++ [32]), Replay.stop? settings.policy i = none := by
    have h : (Journal.items (front ++ [32])).all
        (fun i => (Replay.stop? .strict i).isNone) = true := by decide +kernel
    simpa using h
  obtain ⟨recovered, d', hload, hcontent⟩ :=
    load_of_items Outlook.calm_clear (journalAt_of_file? hfile) hitems 0
  have hcut : Journal.completePrefix (front ++ [32]) = front := by decide +kernel
  rw [hcut] at hcontent
  refine ⟨hfile, recovered, d', hload, hcontent, ?_⟩
  rw [hcontent]
  decide +kernel

end Disk

end Larder
