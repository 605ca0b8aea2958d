import Larder.Time.Instant

/-! When an entry stops being served. A time to live turns into a deadline once, when the entry
is stored; none and zero both mean that the entry stays. A time to live below a millisecond
counts as one, and a deadline too far ahead is moved back to the last millisecond there is. -/

namespace Larder

/-- `none` for an entry that stays. -/
abbrev Deadline := Option Millis

namespace Deadline

/-- The milliseconds of a time to live that is not zero. -/
def ttlMillis (ttl : Duration) : Millis := max (UInt64.ofNatClamp ttl.millis) 1

/-- The point in time so much later, or the last one there is. -/
def later (now ttl : Millis) : Millis := UInt64.ofNatClamp (now.toNat + ttl.toNat)

def ofTtl (now : Millis) : Option Duration → Deadline
  | none => none
  | some ttl => if ttl.nanos = 0 then none else some (later now (ttlMillis ttl))

/-- The deadline itself is already too late. -/
def hasPassed (d : Deadline) (now : Millis) : Bool :=
  match d with
  | none => false
  | some stop => stop ≤ now

/-- Milliseconds that are left, 0 once the deadline has passed. -/
def remaining (d : Deadline) (now : Millis) : Option Millis :=
  d.map fun stop => if stop ≤ now then 0 else stop - now

@[simp]
theorem hasPassed_none (now : Millis) : hasPassed none now = false := rfl

@[simp]
theorem hasPassed_some (stop now : Millis) :
    hasPassed (some stop) now = decide (stop ≤ now) := rfl

theorem hasPassed_iff {d : Deadline} {now : Millis} :
    d.hasPassed now = true ↔ ∃ stop, d = some stop ∧ stop ≤ now := by
  cases d <;> simp

/-- What has passed has passed for good. -/
theorem hasPassed_mono {d : Deadline} {now later : Millis} (h : d.hasPassed now = true)
    (hle : now ≤ later) : d.hasPassed later = true := by
  cases d with
  | none => cases h
  | some stop =>
    rw [hasPassed_some, decide_eq_true_eq] at h ⊢
    exact UInt64.le_trans h hle

/-- Nothing is left exactly when the deadline has passed. -/
theorem remaining_eq_zero_iff (d : Deadline) (now : Millis) :
    d.remaining now = some 0 ↔ d.hasPassed now = true := by
  cases d with
  | none => simp [remaining]
  | some stop =>
    simp only [remaining, Option.map_some, Option.some.injEq, hasPassed_some, decide_eq_true_eq]
    constructor
    · intro h
      split at h
      · assumption
      · rename_i hlate
        have hlt : now < stop := UInt64.not_le.mp hlate
        have hsub := congrArg UInt64.toNat h
        rw [UInt64.toNat_sub_of_le _ _ (UInt64.le_of_lt hlt)] at hsub
        have := UInt64.lt_iff_toNat_lt.mp hlt
        simp at hsub
        omega
    · intro h
      simp [h]

end Deadline

/-- A value and how long it is served. -/
structure Entry where
  value : String
  deadline : Deadline
  deriving DecidableEq, Repr

namespace Entry

def hasExpired (e : Entry) (now : Millis) : Bool := e.deadline.hasPassed now

end Entry

end Larder
