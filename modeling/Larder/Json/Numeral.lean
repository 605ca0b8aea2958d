import Larder.Json.Value
import Larder.Json.Cursor

/-! Numbers in a JSON text. The digits go into one significand as long as it fits 64 bits. A
digit of the whole part that no longer fits only raises the exponent; from the first digit of
the fraction that does not fit, the fraction is dropped. `skipNumeral` checks the form and
keeps nothing; to it the end of the text is one more byte that is no digit. -/

namespace Larder.Json

/-- 2^64, which a significand stays below. -/
def significandBound : Nat := 18446744073709551616

/-- 2^31, which the digits of an exponent stay below. -/
def exponentBound : Nat := 2147483648

/-- 2^63, which a whole number with a minus does not go beyond. -/
def negativeBound : Nat := 9223372036854775808

def isDigitByte (b : UInt8) : Bool := 48 ≤ b && b ≤ 57

def digitOf (b : UInt8) : Nat := b.toNat - 48

def startsWithDigit : Bytes → Bool
  | [] => false
  | b :: _ => isDigitByte b

def startsWithExponent : Bytes → Bool
  | [] => false
  | b :: _ => b == 101 || b == 69

structure Digits where
  significand : Nat
  count : Nat
  cursor : Cursor

/-- Takes digits while the significand with them stays below 2^64. -/
def takeDigits (p : Place) (s count : Nat) : Bytes → Digits
  | [] => ⟨s, count, ⟨p, []⟩⟩
  | b :: rest =>
    if isDigitByte b && s * 10 + digitOf b < significandBound then
      takeDigits (p.after b) (s * 10 + digitOf b) (count + 1) rest
    else ⟨s, count, ⟨p, b :: rest⟩⟩

/-- Takes digits and only counts them. -/
def dropDigits (p : Place) (count : Nat) : Bytes → Nat × Cursor
  | [] => (count, ⟨p, []⟩)
  | b :: rest =>
    if isDigitByte b then dropDigits (p.after b) (count + 1) rest else (count, ⟨p, b :: rest⟩)

def doubleAt (minus : Bool) (s : Nat) (e : Int) (c : Cursor) : Except Fault (Number × Cursor) :=
  match Decimal.Binary64.ofParts? s e with
  | some size => .ok (.double minus size, c)
  | none => .error (c.fault .numberOutOfRange)

/-- The digits of an exponent; `none` as soon as it is 2^31 or more. -/
def takeExponent (p : Place) (e : Nat) : Bytes → Option Nat × Cursor
  | [] => (some e, ⟨p, []⟩)
  | b :: rest =>
    if isDigitByte b then
      if e * 10 + digitOf b < exponentBound then
        takeExponent (p.after b) (e * 10 + digitOf b) rest
      else (none, ⟨p.after b, rest⟩)
    else (some e, ⟨p, b :: rest⟩)

/-- The exponent, from its letter on; `shift` is the exponent the digits already gave. -/
def readExponent (minus : Bool) (s : Nat) (shift : Int) (c : Cursor) :
    Except Fault (Number × Cursor) :=
  let c := c.skip
  let (down, c) :=
    match c.rest with
    | b :: _ => if b = 43 then (false, c.skip) else if b = 45 then (true, c.skip) else (false, c)
    | [] => (false, c)
  match c.rest with
  | [] => .error (c.fault .endInValue)
  | b :: rest =>
    if !isDigitByte b then .error (c.skip.fault .invalidNumber)
    else
      match takeExponent (c.place.after b) (digitOf b) rest with
      | (some e, c) => doubleAt minus s (if down then shift - e else shift + e) c
      | (none, c) =>
        if s ≠ 0 ∧ !down then .error (c.fault .numberOutOfRange)
        else .ok (.double minus .zero, (dropDigits c.place 0 c.rest).2)

def readAfterFraction (minus : Bool) (s : Nat) (shift : Int) (c : Cursor) :
    Except Fault (Number × Cursor) :=
  if startsWithExponent c.rest then readExponent minus s shift c else doubleAt minus s shift c

/-- The fraction, from its point on. -/
def readFraction (minus : Bool) (s : Nat) (shift : Int) (c : Cursor) :
    Except Fault (Number × Cursor) :=
  let c := c.skip
  let d := takeDigits c.place s 0 c.rest
  if startsWithDigit d.cursor.rest then
    readAfterFraction minus d.significand (shift - d.count)
      (dropDigits d.cursor.place 0 d.cursor.rest).2
  else if d.count = 0 then
    .error (d.cursor.faultAhead (if d.cursor.rest = [] then .endInValue else .invalidNumber))
  else readAfterFraction minus d.significand (shift - d.count) d.cursor

def wholeNumber (minus : Bool) (s : Nat) : Number :=
  if !minus then .natural s
  else if 0 < s ∧ s ≤ negativeBound then .negative s
  else .double true ((Decimal.Binary64.ofNat? s).getD .zero)

/-- What follows the whole part; `dropped` of its digits did not fit. -/
def readAfterWhole (minus : Bool) (s dropped : Nat) (c : Cursor) :
    Except Fault (Number × Cursor) :=
  match c.rest with
  | [] => if dropped = 0 then .ok (wholeNumber minus s, c) else doubleAt minus s dropped c
  | b :: _ =>
    if b = 46 then readFraction minus s dropped c
    else if b = 101 ∨ b = 69 then readExponent minus s dropped c
    else if dropped = 0 then .ok (wholeNumber minus s, c)
    else doubleAt minus s dropped c

/-- A number whose minus, if it has one, has been taken. -/
def readNumeral (minus : Bool) (c : Cursor) : Except Fault (Number × Cursor) :=
  match c.rest with
  | [] => .error (c.fault .endInValue)
  | b :: rest =>
    if b = 48 then
      if startsWithDigit rest then .error (c.skip.faultAhead .invalidNumber)
      else readAfterWhole minus 0 0 c.skip
    else if isDigitByte b then
      let d := takeDigits (c.place.after b) (digitOf b) 0 rest
      let (dropped, c) := dropDigits d.cursor.place 0 d.cursor.rest
      readAfterWhole minus d.significand dropped c
    else .error (c.skip.fault .invalidNumber)

def skipDigits (c : Cursor) : Cursor := (dropDigits c.place 0 c.rest).2

def skipExponent (c : Cursor) : Except Fault Cursor :=
  let c := c.skip
  let c :=
    match c.rest with
    | b :: _ => if b = 43 ∨ b = 45 then c.skip else c
    | [] => c
  if startsWithDigit c.rest then .ok (skipDigits c) else .error (c.skip.fault .invalidNumber)

def skipFraction (c : Cursor) : Except Fault Cursor :=
  let c := c.skip
  if !startsWithDigit c.rest then .error (c.faultAhead .invalidNumber)
  else
    let c := skipDigits c
    if startsWithExponent c.rest then skipExponent c else .ok c

def skipAfterWhole (c : Cursor) : Except Fault Cursor :=
  match c.rest with
  | [] => .ok c
  | b :: _ =>
    if b = 46 then skipFraction c
    else if b = 101 ∨ b = 69 then skipExponent c
    else .ok c

def skipNumeral (c : Cursor) : Except Fault Cursor :=
  match c.rest with
  | [] => .error (c.fault .invalidNumber)
  | b :: rest =>
    if b = 48 then
      if startsWithDigit rest then .error (c.skip.faultAhead .invalidNumber)
      else skipAfterWhole c.skip
    else if isDigitByte b then skipAfterWhole (skipDigits c)
    else .error (c.skip.fault .invalidNumber)

end Larder.Json
