import Larder.Json.Literal
import Larder.Json.Numeral

/-! JSON values and streams of them. Lists and objects may stand in each other 127 deep. A
stream is a sequence of values with optional blanks in between; only after a value that does
not show its own end (a number or a word) something else has to. -/

namespace Larder.Json

abbrev Reading (α : Type) := Except Fault (α × Cursor)

/-- How many lists and objects may be open at a time. -/
def depthLimit : Nat := 127

/-- Whether another element follows in an open list, and the cursor in front of it. -/
def nextItem (first : Bool) (c : Cursor) : Reading Bool :=
  let c := c.skipBlank
  match c.rest with
  | [] => .error (c.faultAhead .endInList)
  | b :: _ =>
    if b = 93 then .ok (false, c)
    else if first then .ok (true, c)
    else if b = 44 then
      let c := c.skip.skipBlank
      match c.rest with
      | [] => .error (c.faultAhead .endInValue)
      | b :: _ => if b = 93 then .error (c.faultAhead .trailingComma) else .ok (true, c)
    else .error (c.faultAhead .expectedListEnd)

/-- Whether another member follows in an open object, and the cursor at the quote of its name. -/
def nextMember (first : Bool) (c : Cursor) : Reading Bool :=
  let c := c.skipBlank
  match c.rest with
  | [] => .error (c.faultAhead .endInObject)
  | b :: _ =>
    if b = 125 then .ok (false, c)
    else if first then
      if b = 34 then .ok (true, c) else .error (c.faultAhead .keyNotString)
    else if b = 44 then
      let c := c.skip.skipBlank
      match c.rest with
      | [] => .error (c.faultAhead .endInValue)
      | b :: _ =>
        if b = 34 then .ok (true, c)
        else if b = 125 then .error (c.faultAhead .trailingComma)
        else .error (c.faultAhead .keyNotString)
    else .error (c.faultAhead .expectedObjectEnd)

def readColon (c : Cursor) : Except Fault Cursor :=
  let c := c.skipBlank
  match c.rest with
  | [] => .error (c.faultAhead .endInObject)
  | b :: _ => if b = 58 then .ok c.skip else .error (c.faultAhead .expectedColon)

/-- The elements of an open list up to its closing bracket; `one` reads an element. -/
def readItems (one : Cursor → Reading Value) :
    Nat → Bool → List Value → Cursor → Reading Value
  | 0, _, _, c => .error (c.faultAhead .endInList)
  | fuel + 1, first, done, c =>
    match nextItem first c with
    | .error f => .error f
    | .ok (false, c) => .ok (.array done.reverse, c.skip)
    | .ok (true, c) =>
      match one c with
      | .error f => .error f
      | .ok (v, c) => readItems one fuel false (v :: done) c

/-- The members of an open object up to its closing brace; `done` holds those read so far, last
first. -/
def readMembers (one : Cursor → Reading Value) :
    Nat → Bool → List (String × Value) → Cursor → Reading Value
  | 0, _, _, c => .error (c.faultAhead .endInObject)
  | fuel + 1, first, done, c =>
    match nextMember first c with
    | .error f => .error f
    | .ok (false, c) => .ok (.object (orderMembers done), c.skip)
    | .ok (true, c) =>
      match readText c.skip.place [] c.skip.rest with
      | .error f => .error f
      | .ok (name, c) =>
        match readColon c with
        | .error f => .error f
        | .ok c =>
          match one c with
          | .error f => .error f
          | .ok (v, c) => readMembers one fuel false ((name, v) :: done) c

/-- One value. `inner` reads what stands in a list or an object, unless they are too deep, and
`bound` is more than the bytes that are left. -/
def readValueWith (inner : Option (Cursor → Reading Value)) (bound : Nat) (c : Cursor) :
    Reading Value :=
  let c := c.skipBlank
  match c.rest with
  | [] => .error (c.faultAhead .endInValue)
  | b :: rest =>
    if b = 34 then (readText c.skip.place [] rest).map fun (s, c) => (.text s, c)
    else if b = 91 then
      match inner with
      | none => .error (c.faultAhead .tooDeep)
      | some one => readItems one bound true [] c.skip
    else if b = 123 then
      match inner with
      | none => .error (c.faultAhead .tooDeep)
      | some one => readMembers one bound true [] c.skip
    else if b = 110 then (expectLetters [117, 108, 108] c.skip).map fun c => (.null, c)
    else if b = 116 then (expectLetters [114, 117, 101] c.skip).map fun c => (.bool true, c)
    else if b = 102 then (expectLetters [97, 108, 115, 101] c.skip).map fun c => (.bool false, c)
    else if b = 45 then (readNumeral true c.skip).map fun (n, c) => (.number n, c)
    else if isDigitByte b then (readNumeral false c).map fun (n, c) => (.number n, c)
    else .error (c.faultAhead .expectedValue)

/-- One value in which lists and objects stand no deeper than `depth`. -/
def readValue (bound : Nat) : Nat → Cursor → Reading Value
  | 0, c => readValueWith none bound c
  | depth + 1, c => readValueWith (some (readValue bound depth)) bound c

/-- Whether a value that begins with this byte shows its own end. -/
def showsOwnEnd (b : UInt8) : Bool := b == 34 || b == 91 || b == 123

/-- Whether a value that does not show its own end may be followed by this byte. -/
def endsValue (b : UInt8) : Bool :=
  isBlankByte b || b == 34 || b == 91 || b == 93 || b == 123 || b == 125 || b == 44 || b == 58

/-- The next value of a stream; `none` at its end. -/
def nextValue (c : Cursor) : Reading (Option Value) :=
  let c := c.skipBlank
  match c.rest with
  | [] => .ok (none, c)
  | b :: rest =>
    match readValue (rest.length + 2) depthLimit c with
    | .error f => .error f
    | .ok (v, c) =>
      match c.rest with
      | [] => .ok (some v, c)
      | e :: _ =>
        if showsOwnEnd b || endsValue e then .ok (some v, c)
        else .error (c.faultAhead .trailingCharacters)

end Larder.Json
