import Larder.Disk.Medium

/-! What each call does to the file, said once for every way it can end. -/

namespace Larder

/-- Nothing that lies ahead fails. -/
structure Outlook.Calm (o : Outlook) : Prop where
  room : o.room = none
  syncs : ∀ k, o.syncs.fails k = false
  cuts : ∀ k, o.cuts.fails k = false

theorem Outlook.calm_clear : Outlook.clear.Calm := ⟨rfl, fun _ => rfl, fun _ => rfl⟩

namespace Medium

/-- The part of some bytes there is room for. -/
def fitting (m : Medium) (bs : Bytes) : Bytes := bs.take (m.outlook.room.getD bs.length)

theorem fitting_isPrefix (m : Medium) (bs : Bytes) : m.fitting bs <+: bs := List.take_prefix _ _

/-- Whether there is room for all of some bytes. -/
def fits (m : Medium) (bs : Bytes) : Bool := m.outlook.room.all (bs.length ≤ ·)

theorem fitting_of_fits {m : Medium} {bs : Bytes} (h : m.fits bs = true) : m.fitting bs = bs := by
  unfold fits at h
  unfold fitting
  cases hroom : m.outlook.room with
  | none => simp
  | some room =>
    rw [hroom] at h
    exact List.take_of_length_le (by simpa using h)

theorem length_fitting_of_not_fits {m : Medium} {bs : Bytes} (h : m.fits bs = false) :
    (m.fitting bs).length < bs.length := by
  unfold fits at h
  unfold fitting
  cases hroom : m.outlook.room with
  | none => rw [hroom] at h; cases h
  | some room =>
    rw [hroom] at h
    have : room < bs.length := by simpa using h
    rw [Option.getD_some, List.length_take]
    omega

theorem bytes_write (m : Medium) (bs : Bytes) : (m.write bs).2.bytes = m.bytes ++ m.fitting bs := by
  unfold write fitting
  cases m.outlook.room with
  | none => simp
  | some room =>
    dsimp only
    split
    · rename_i h
      rw [Option.getD_some, List.take_of_length_le h]
    · rfl

theorem write_result (m : Medium) (bs : Bytes) :
    (m.write bs).1 = if m.fits bs then .ok () else .error .noSpace := by
  unfold write fits
  cases m.outlook.room with
  | none => rfl
  | some room =>
    dsimp only [Option.all_some]
    split <;> simp_all

theorem syncs_write (m : Medium) (bs : Bytes) : (m.write bs).2.outlook.syncs = m.outlook.syncs := by
  unfold write
  split
  · rfl
  · split <;> rfl

theorem cuts_write (m : Medium) (bs : Bytes) : (m.write bs).2.outlook.cuts = m.outlook.cuts := by
  unfold write
  split
  · rfl
  · split <;> rfl

theorem writeAndSync_result (m : Medium) (bs : Bytes) :
    (m.writeAndSync bs).1 =
      if m.fits bs then (if m.outlook.syncs.strikes then .error .inputOutput else .ok ())
      else .error .noSpace := by
  have hw := write_result m bs
  have hs := syncs_write m bs
  unfold writeAndSync
  split
  · rename_i e m' h
    rw [h] at hw
    split at hw
    · cases hw
    · rename_i hfits
      rw [if_neg hfits]
      exact hw
  · rename_i m' h
    rw [h] at hw hs
    split at hw
    · rename_i hfits
      rw [if_pos hfits, sync, hs]
    · cases hw

theorem bytes_writeAndSync (m : Medium) (bs : Bytes) :
    (m.writeAndSync bs).2.bytes = m.bytes ++ m.fitting bs := by
  rw [← bytes_write]
  unfold writeAndSync
  split <;> simp_all

theorem cuts_writeAndSync (m : Medium) (bs : Bytes) :
    (m.writeAndSync bs).2.outlook.cuts = m.outlook.cuts := by
  rw [← cuts_write m bs]
  unfold writeAndSync
  split <;> simp_all [sync]

theorem cutAndSync_result (m : Medium) (n : Nat) :
    (m.cutAndSync n).1 =
      if m.outlook.cuts.strikes then .error .inputOutput
      else if m.outlook.syncs.strikes then .error .inputOutput
      else .ok () := by
  unfold cutAndSync cut
  by_cases hcut : m.outlook.cuts.strikes = true
  · rw [if_pos hcut, if_pos hcut]
  · rw [if_neg hcut, if_neg hcut]
    rfl

theorem cutAndSync_of_strikes {m : Medium} (h : m.outlook.cuts.strikes = true) (n : Nat) :
    (m.cutAndSync n).1 = .error .inputOutput ∧ (m.cutAndSync n).2.bytes = m.bytes := by
  simp [cutAndSync, cut, h]

theorem cutAndSync_of_clear {m : Medium} (h : m.outlook.cuts.strikes = false) {n : Nat}
    (hn : n ≤ m.bytes.length) :
    (m.cutAndSync n).1 = (if m.outlook.syncs.strikes then .error .inputOutput else .ok ()) ∧
      (m.cutAndSync n).2.bytes = m.bytes.take n := by
  simp [cutAndSync, cut, h, sync, Nat.sub_eq_zero_of_le hn]

theorem bytes_cutAndSync_of_ok {m m' : Medium} {n : Nat} (hn : n ≤ m.bytes.length)
    (h : m.cutAndSync n = (.ok (), m')) : m'.bytes = m.bytes.take n := by
  cases hcut : m.outlook.cuts.strikes with
  | true =>
    have := (cutAndSync_of_strikes hcut n).1
    rw [h] at this
    cases this
  | false =>
    have := (cutAndSync_of_clear hcut hn).2
    rwa [h] at this

end Medium

namespace Outlook.Calm

variable {m : Medium} (h : m.outlook.Calm)
include h

theorem sync : m.sync.2.outlook.Calm := ⟨h.room, h.syncs, h.cuts⟩

theorem cut (n : Nat) : (m.cut n).2.outlook.Calm := by
  unfold Medium.cut
  split <;> exact ⟨h.room, h.syncs, h.cuts⟩

theorem cutAndSync (n : Nat) : (m.cutAndSync n).2.outlook.Calm := by
  have hc := h.cut n
  unfold Medium.cutAndSync
  split
  · rename_i hm
    rwa [hm] at hc
  · rename_i hm
    rw [hm] at hc
    exact hc.sync

theorem writeAndSync_result (bs : Bytes) : (m.writeAndSync bs).1 = .ok () := by
  have hsync : m.outlook.syncs.strikes = false := h.syncs _
  rw [Medium.writeAndSync_result, Medium.fits, h.room, hsync]
  rfl

theorem bytes_writeAndSync (bs : Bytes) : (m.writeAndSync bs).2.bytes = m.bytes ++ bs := by
  rw [Medium.bytes_writeAndSync, Medium.fitting, h.room, Option.getD_none, List.take_length]

theorem cutAndSync_result {n : Nat} (hn : n ≤ m.bytes.length) :
    (m.cutAndSync n).1 = .ok () ∧ (m.cutAndSync n).2.bytes = m.bytes.take n := by
  have hcut : m.outlook.cuts.strikes = false := h.cuts _
  have hsync : m.outlook.syncs.strikes = false := h.syncs _
  have := Medium.cutAndSync_of_clear hcut hn
  rwa [hsync] at this

end Outlook.Calm

end Larder
