/-! Sets of characters as ascending, disjoint ranges of code points, ends included. -/

namespace Larder.Text

/-- Halves `lo ≤ i < hi` until the range that could hold `n` is found. -/
def inRangesBetween (table : Array (Nat × Nat)) (n : Nat) : Nat → Nat → Nat → Bool
  | 0, _, _ => false
  | fuel + 1, lo, hi =>
    if lo < hi then
      let mid := (lo + hi) / 2
      match table[mid]? with
      | none => false
      | some (first, last) =>
        if n < first then inRangesBetween table n fuel lo mid
        else if last < n then inRangesBetween table n fuel (mid + 1) hi
        else true
    else false

def inRanges (table : Array (Nat × Nat)) (c : Char) : Bool :=
  inRangesBetween table c.toNat (table.size + 1) 0 table.size

end Larder.Text
