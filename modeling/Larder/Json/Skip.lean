import Larder.Json.Literal
import Larder.Json.Numeral

/-! Reading over a value nobody asked for. What is open is held in a list, innermost first, so
depth is not limited. Every step but the choice after an opening bracket takes at least one
byte, which bounds the number of steps by twice the bytes that are left. -/

namespace Larder.Json

inductive Bracket
  | list
  | object
  deriving DecidableEq, Repr

def Bracket.closing : Bracket → UInt8
  | .list => 93
  | .object => 125

def Bracket.endCause : Bracket → Cause
  | .list => .endInList
  | .object => .endInObject

def Bracket.separatorCause : Bracket → Cause
  | .list => .expectedListEnd
  | .object => .expectedObjectEnd

/-- What is expected next. -/
inductive Expecting
  | value
  | afterOpening
  | afterValue
  deriving DecidableEq, Repr

/-- A member's name and the colon. -/
def skipName (c : Cursor) : Except Fault Cursor :=
  let c := c.skipBlank
  match c.rest with
  | [] => .error (c.faultAhead .endInObject)
  | b :: rest =>
    if b ≠ 34 then .error (c.faultAhead .keyNotString)
    else
      match skipText c.skip.place rest with
      | .error f => .error f
      | .ok c =>
        let c := c.skipBlank
        match c.rest with
        | [] => .error (c.faultAhead .endInObject)
        | b :: _ => if b = 58 then .ok c.skip else .error (c.faultAhead .expectedColon)

/-- What an element of the innermost bracket begins with: nothing in a list, a name in an object. -/
def skipLead : Bracket → Cursor → Except Fault Cursor
  | .list, c => .ok c
  | .object, c => skipName c

/-- A value that is not a list or an object; `none` for an opening bracket. -/
def skipScalar? (c : Cursor) (b : UInt8) : Option (Except Fault Cursor) :=
  if b = 110 then some (expectLetters [117, 108, 108] c.skip)
  else if b = 116 then some (expectLetters [114, 117, 101] c.skip)
  else if b = 102 then some (expectLetters [97, 108, 115, 101] c.skip)
  else if b = 45 then some (skipNumeral c.skip)
  else if isDigitByte b then some (skipNumeral c)
  else if b = 34 then some (skipText c.skip.place c.skip.rest)
  else if b = 91 ∨ b = 123 then none
  else some (.error (c.faultAhead .expectedValue))

def skipFrom : Nat → Expecting → List Bracket → Cursor → Except Fault Cursor
  | 0, _, _, c => .error (c.fault .endInValue)
  | fuel + 1, .value, opened, c =>
    let c := c.skipBlank
    match c.rest with
    | [] => .error (c.faultAhead .endInValue)
    | b :: _ =>
      match skipScalar? c b with
      | some (.error f) => .error f
      | some (.ok c) => skipFrom fuel .afterValue opened c
      | none =>
        skipFrom fuel .afterOpening ((if b = 91 then Bracket.list else .object) :: opened) c.skip
  | _ + 1, _, [], c => .ok c
  | fuel + 1, .afterOpening, bracket :: opened, c =>
    let c := c.skipBlank
    match c.rest with
    | [] => .error (c.faultAhead bracket.endCause)
    | b :: _ =>
      if b = bracket.closing then skipFrom fuel .afterValue opened c.skip
      else
        match skipLead bracket c with
        | .error f => .error f
        | .ok c => skipFrom fuel .value (bracket :: opened) c
  | fuel + 1, .afterValue, bracket :: opened, c =>
    let c := c.skipBlank
    match c.rest with
    | [] => .error (c.faultAhead bracket.endCause)
    | b :: _ =>
      if b = bracket.closing then skipFrom fuel .afterValue opened c.skip
      else if b ≠ 44 then .error (c.faultAhead bracket.separatorCause)
      else
        match skipLead bracket c.skip with
        | .error f => .error f
        | .ok c => skipFrom fuel .value (bracket :: opened) c

/-- The cursor after a value; `bound` is at least the bytes that are left. -/
def skipValue (bound : Nat) (c : Cursor) : Except Fault Cursor :=
  skipFrom (2 * bound + 2) .value [] c

end Larder.Json
