import Larder.Proofs.ReplayPairs

/-! A journal that is loaded and loaded again. What comes back the first time does not see the cut
that follows it, and what comes back the second time is read from the file that was cut; both agree
in all but the one report on what was cut off, if there was anything to report. -/

namespace Larder

namespace Replay

/-- Items behind others are replayed in the state that those lead to. -/
theorem runItems_append {policy : Policy} {now : Millis} {s : State} {as : List Journal.Item}
    (h : (runItems policy now s as).1 = none) (bs : List Journal.Item) :
    runItems policy now s (as ++ bs) = runItems policy now (runItems policy now s as).2 bs := by
  induction as generalizing s with
  | nil => rfl
  | cons i as ih =>
    cases i with
    | ok r => exact ih h
    | error f =>
      cases f with
      | corruptLine number reason =>
        cases policy with
        | strict => cases h
        | skip => exact ih h
      | _ => cases h

/-- One more line that is no record counts and does nothing else. -/
theorem run_concat_corrupt {now : Millis} {shelf shelf' : Shelf} {items : List Journal.Item}
    {tally : Tally} (h : run .skip now shelf items = (.ok tally, shelf')) (number : Nat)
    (reason : LineError) :
    run .skip now shelf (items ++ [.error (.corruptLine number reason)]) =
      (.ok { tally with corrupt := tally.corrupt + 1 }, shelf') := by
  have hitems := runItems_of_run h
  rw [run, runItems_append (congrArg Prod.fst hitems), hitems]
  rfl

end Replay

namespace Recovery

open Journal

/-- What comes back from a journal is what a replay makes of its items. -/
theorem replay_of_load {settings : Settings} {now : Millis} {m m' : Medium}
    {recovered : Recovered} (h : load settings now m = (.ok recovered, m')) :
    replay settings now (items m.bytes) = (.ok recovered.tally, recovered.store.shelf) := by
  unfold load at h
  split at h
  · cases h
  · rename_i tally shelf hreplay
    split at h <;> cases h
    exact hreplay

/-- A journal that was loaded holds its complete prefix and nothing else. -/
theorem bytes_of_load {settings : Settings} {now : Millis} {m m' : Medium}
    {recovered : Recovered} (h : load settings now m = (.ok recovered, m')) :
    m'.bytes = completePrefix m.bytes := by
  obtain ⟨w, hopen, -⟩ := load_ok h
  exact (Writer.stands_of_open? hopen).2.bytes.trans (List.append_nil _)

/-- Loading cuts a journal to its longest prefix that ends in a line feed, which has all of its
records. Loading it again at the same time changes nothing in the file, and brings back the same
entries in the same order; what is counted is the same too, but for the one line that was cut off,
if that was not just blanks. -/
theorem load_load {settings : Settings} (hskip : settings.policy = .skip) (now : Millis)
    (file : Bytes) {outlook : Outlook} (hcalm : outlook.Calm) :
    ∃ first m, load settings now ⟨file, outlook⟩ = (.ok first, m) ∧
      (Complete m.bytes ∧ m.bytes <+: file ∧ ∀ front, Complete front → front <+: file →
        front <+: m.bytes) ∧
      Replay.records (items m.bytes) = Replay.records (items file) ∧
      ∀ outlook' : Outlook, outlook'.Calm →
        ∃ again m', load settings now ⟨m.bytes, outlook'⟩ = (.ok again, m') ∧
          m'.bytes = m.bytes ∧ again.store.shelf.Alike first.store.shelf ∧
          (Blank (file.drop m.bytes.length) → first.tally = again.tally) ∧
          (¬Blank (file.drop m.bytes.length) →
            first.tally = { again.tally with corrupt := again.tally.corrupt + 1 }) := by
  obtain ⟨first, m, hfirst⟩ := load_calm settings hskip hcalm now file
  have hbytes : m.bytes = completePrefix file := bytes_of_load hfirst
  have hcomplete := complete_completePrefix file
  refine ⟨first, m, hfirst, ?_, ?_, fun outlook' hcalm' => ?_⟩
  · rw [hbytes]
    exact ⟨hcomplete, completePrefix_isPrefix file, fun _ => isPrefix_completePrefix⟩
  · rw [hbytes, records_completePrefix]
  obtain ⟨again, m', hagain⟩ := load_calm settings hskip hcalm' now m.bytes
  refine ⟨again, m', hagain, ?_, ?_, ?_⟩
  · rw [bytes_of_load hagain]
    exact completePrefix_of_complete (hbytes ▸ hcomplete)
  · have hsame := follows_of_load hagain
    rw [hbytes, records_completePrefix] at hsame
    exact hsame.alike (follows_of_load hfirst)
  -- The first replay reads what the second one reads, and then perhaps one line more.
  have hreplay := replay_of_load hfirst
  have hreplay' := replay_of_load hagain
  obtain ⟨tail, hfeed, hfile⟩ := exists_completePrefix_append file
  have htail := congrArg (List.drop m.bytes.length) hfile
  rw [← hbytes, List.drop_left] at htail
  rw [htail]
  have hitems := items_append_unended hcomplete hfeed
  rw [← hfile, ← hbytes] at hitems
  rw [replay, hskip] at hreplay hreplay'
  rcases hitems with ⟨hblank, hitems⟩ | ⟨hblank, number, e, hitems⟩
  · rw [hitems, hreplay'] at hreplay
    refine ⟨fun _ => ?_, fun hno => absurd hblank hno⟩
    exact (Except.ok.inj (congrArg Prod.fst hreplay)).symm
  · rw [hitems, Replay.run_concat_corrupt hreplay'] at hreplay
    refine ⟨fun hyes => absurd hyes hblank, fun _ => ?_⟩
    exact (Except.ok.inj (congrArg Prod.fst hreplay)).symm

theorem load_load_torn :
    let front := (Record.set "a" "1" none).bytes ++ [255, lineFeed]
    let file := front ++ (Record.delete "a").bytes.take 5
    Settings.default.policy = .skip ∧ Outlook.clear.Calm ∧
      ∃ first m again m', load .default 0 ⟨file, .clear⟩ = (.ok first, m) ∧ m.bytes = front ∧
        load .default 0 ⟨front, .clear⟩ = (.ok again, m') ∧ m'.bytes = front ∧
        again.store.shelf.Alike first.store.shelf ∧
        first.tally = { again.tally with corrupt := again.tally.corrupt + 1 } := by
  intro front file
  have hskip : Settings.default.policy = .skip := rfl
  have hcalm := Outlook.calm_clear
  obtain ⟨first, m, hfirst, -, -, hagain⟩ := load_load hskip 0 file hcalm
  have hbytes : m.bytes = front := by
    rw [bytes_of_load hfirst]
    decide +kernel
  obtain ⟨again, m', hload, hsame, halike, -, htorn⟩ := hagain .clear hcalm
  rw [hbytes] at hload hsame htorn
  have hread : (readLine? (file.drop front.length)).isSome = true := by decide +kernel
  have hblank : ¬Blank (file.drop front.length) := by
    rw [← readLine?_eq_none_iff]
    exact Option.isSome_iff_ne_none.mp hread
  exact ⟨hskip, hcalm, first, m, again, m', hfirst, hbytes, hload, hsame, halike, htorn hblank⟩

end Recovery

end Larder
