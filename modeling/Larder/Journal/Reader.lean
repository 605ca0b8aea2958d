import Larder.Failure
import Larder.Text.Blank
import Larder.Journal.Tail

/-! Reading a journal line by line. Lines are counted from 1, and all of them count. A line of
blanks is passed over. Any other line is a record or is reported with its number, and never
changes how the next one is read. The last line has to end like the others: without its line
feed it is what a crash left, even if it reads like a record. -/

namespace Larder.Journal

/-- `line` is the line that has been begun, last byte first; `done` holds the lines before it,
last first. -/
def segmentsFrom (line : Bytes) (done : List Bytes) : Bytes → List Bytes
  | [] => (if line = [] then done else line.reverse :: done).reverse
  | b :: rest =>
    if b = lineFeed then segmentsFrom [] ((b :: line).reverse :: done) rest
    else segmentsFrom (b :: line) done rest

/-- The lines, each with its line feed. -/
def segments (bs : Bytes) : List Bytes := segmentsFrom [] [] bs

theorem flatten_segmentsFrom (line : Bytes) (done : List Bytes) (bs : Bytes) :
    (segmentsFrom line done bs).flatten = done.reverse.flatten ++ line.reverse ++ bs := by
  induction bs generalizing line done with
  | nil =>
    unfold segmentsFrom
    split
    · rename_i h
      simp [h]
    · simp
  | cons b rest ih =>
    unfold segmentsFrom
    split <;> simp [ih]

/-- No byte is lost. -/
theorem flatten_segments (bs : Bytes) : (segments bs).flatten = bs := by
  simp [segments, flatten_segmentsFrom]

/-- What a line holds; `none` for a line of blanks. -/
def readLine? (line : Bytes) : Option (Except LineError Record) :=
  match Text.Utf8.decode line with
  | .error defect => some (.error (.invalidUtf8 defect))
  | .ok text =>
    if text.all Text.isBlank then none
    else if text.getLast? ≠ some '\n' then some (.error .unterminated)
    else some ((Record.decode text).mapError .undecodable)

abbrev Item := Except Failure Record

/-- What the line with this number holds. -/
def item? (number : Nat) (line : Bytes) : Option Item :=
  (readLine? line).map fun held => held.mapError (.corruptLine number)

/-- A journal that is being read: the lines that are left, after a failure that has still to be
reported if there is one, and how many lines have been taken. -/
structure Reader where
  failure : Option OsError
  rest : List Bytes
  linesRead : Nat

namespace Reader

def ofBytes (bs : Bytes) : Reader := ⟨none, segments bs, 0⟩

/-- What cannot be read fails once and is at its end. -/
def failing (e : OsError) : Reader := ⟨some e, [], 0⟩

def nextLine (taken : Nat) : List Bytes → Option Item × Reader
  | [] => (none, ⟨none, [], taken⟩)
  | line :: rest =>
    match item? (taken + 1) line with
    | none => nextLine (taken + 1) rest
    | some i => (some i, ⟨none, rest, taken + 1⟩)

/-- The next record or report; `none` at the end. -/
def next (r : Reader) : Option Item × Reader :=
  match r.failure with
  | some e => (some (.error (.io (.system e))), { r with failure := none })
  | none => nextLine r.linesRead r.rest

/-- All records and reports that are left. -/
def items (r : Reader) : List Item :=
  let rest := (r.rest.zipIdx (r.linesRead + 1)).filterMap fun (line, n) => item? n line
  match r.failure with
  | some e => .error (.io (.system e)) :: rest
  | none => rest

end Reader

/-- All records and reports of a journal. -/
def items (bs : Bytes) : List Item := (Reader.ofBytes bs).items

end Larder.Journal
