import Larder.Text.Utf8

/-! Where a journal's last complete line ends. Bytes after the last line feed are what a crash
left of a record. The end is searched from behind, stretch by stretch, so only the tail of a
long journal is read. -/

namespace Larder.Journal

def lineFeed : UInt8 := 10

/-- The longest prefix that is empty or ends in a line feed. -/
def completePrefix (bs : Bytes) : Bytes := (bs.reverse.dropWhile (· ≠ lineFeed)).reverse

def stretch : Nat := 4096

/-- The stretches, by their bounds, that cover a length from its end to 0. -/
def stretches (length : Nat) : List (Nat × Nat) :=
  if length = 0 then []
  else (length - stretch, length) :: stretches (length - stretch)
  termination_by length
  decreasing_by simp [stretch]; omega

/-- The place just after the last line feed. -/
def afterLastFeed? (bs : Bytes) : Option Nat :=
  (bs.reverse.idxOf? lineFeed).map fun k => bs.length - k

/-- How long the complete prefix is. -/
def completeLength (bs : Bytes) : Nat :=
  let bytes := bs.toArray
  let hit := (stretches bytes.size).findSome? fun (start, stop) =>
    (afterLastFeed? (bytes.extract start stop).toList).map (start + ·)
  hit.getD 0

end Larder.Journal
