/-! Points in time and lengths of time, both exact to the nanosecond. Deadlines and clock
readings are whole milliseconds since 1970 in 64 bits: a clock before 1970 reads 0 and one too
far ahead reads the greatest number. -/

namespace Larder

/-- A time stamp or a deadline, in milliseconds since 1970. -/
abbrev Millis := UInt64

/-- A point in time, in nanoseconds since 1970. -/
structure Instant where
  nanos : Int
  deriving DecidableEq, Repr

structure Duration where
  nanos : Nat
  deriving DecidableEq, Repr

def Instant.millis (t : Instant) : Millis := UInt64.ofNatClamp (t.nanos.toNat / 1000000)

def Instant.ofMillis (n : Int) : Instant := ⟨n * 1000000⟩

def Instant.ofSeconds (secs : Int) (nanos : Nat) : Instant := ⟨secs * 1000000000 + nanos⟩

def Instant.later (t : Instant) (d : Duration) : Instant := ⟨t.nanos + d.nanos⟩

namespace Duration

def ofMillis (n : Nat) : Duration := ⟨n * 1000000⟩

def ofSeconds (n : Nat) : Duration := ⟨n * 1000000000⟩

/-- Whole milliseconds; what is left over does not count. -/
def millis (d : Duration) : Nat := d.nanos / 1000000

end Duration

end Larder
