import Larder.Json.Printer

/-! What a store counts from its start: look-ups that found a value and those that did not,
entries that had to leave for newer ones or because of their deadline, records written to the
journal, and how many entries there are now. -/

namespace Larder

structure Counters where
  hits : Nat
  misses : Nat
  evictions : Nat
  expirations : Nat
  appended : Nat
  entries : Nat
  deriving DecidableEq, Repr

namespace Counters

def zero : Counters := ⟨0, 0, 0, 0, 0, 0⟩

def hit (c : Counters) : Counters := { c with hits := c.hits + 1 }

def miss (c : Counters) : Counters := { c with misses := c.misses + 1 }

def evict (c : Counters) (n : Nat) : Counters := { c with evictions := c.evictions + n }

def expire (c : Counters) (n : Nat) : Counters := { c with expirations := c.expirations + n }

def append (c : Counters) : Counters := { c with appended := c.appended + 1 }

def hold (c : Counters) (n : Nat) : Counters := { c with entries := n }

/-- The part of the look-ups that found a value; 0 if there were none. -/
def hitRate (c : Counters) : Decimal.Binary64 := .ratio c.hits (c.hits + c.misses)

def fields (c : Counters) : List (String × Json.Value) :=
  [("hits", .number (.natural c.hits)),
    ("misses", .number (.natural c.misses)),
    ("evictions", .number (.natural c.evictions)),
    ("expirations", .number (.natural c.expirations)),
    ("records_appended", .number (.natural c.appended)),
    ("total_entries", .number (.natural c.entries))]

def fieldsWithRate (c : Counters) : List (String × Json.Value) :=
  c.fields ++ [("hit_rate", .number (.double false c.hitRate))]

end Counters

end Larder
