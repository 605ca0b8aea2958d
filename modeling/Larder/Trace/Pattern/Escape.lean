import Larder.Json.Literal
import Larder.Trace.Pattern.Basic

/-! Signs of a pattern that stand for one character, and what a backslash makes of the signs
behind it. The tables of cases, of letters and digits and of words cover bytes only: what needs
one of them is not known as long as a pattern is about characters. What is about bytes has to
leave the text whole characters, so that it may not stand for a byte beyond ASCII. -/

namespace Larder.Trace.Pattern

/-- One character; two hexadecimal digits spell a byte. -/
structure Sign where
  char : Char
  isByte : Bool
  deriving DecidableEq, Repr

def Sign.isAscii (x : Sign) : Bool := decide (x.char.toNat < 128)

/-- Whether a sign may stand by itself. -/
def Sign.fits (s : Switches) (x : Sign) : Bool :=
  if s.unicode then !s.caseless else x.isAscii || !x.isByte

/-- Whether a sign may stand in a class, whose members are bytes or characters all alike. -/
def Sign.fitsClass (s : Switches) (x : Sign) : Bool :=
  if s.unicode then !s.caseless else x.isAscii

/-- What a backslash begins. -/
inductive Escape
  | sign (x : Sign)
  /-- Any digit, blank or word character, or anything else. -/
  | kind (negated : Bool)
  | textEdge
  | wordEdge
  deriving DecidableEq, Repr

namespace Escape

def fits (s : Switches) : Escape → Bool
  | .sign x => x.fits s
  | .kind negated => !s.unicode && !negated
  | .textEdge => true
  | .wordEdge => !s.unicode

/-- An edge is no member of a class. -/
def fitsClass (s : Switches) : Escape → Bool
  | .sign x => x.fitsClass s
  | .kind negated => !s.unicode && !negated
  | .textEdge => false
  | .wordEdge => false

/-- The letters that stand for a control character. -/
def controlOf? (c : Char) : Option Char :=
  if c = 'a' then some '\x07'
  else if c = 'f' then some '\x0c'
  else if c = 't' then some '\t'
  else if c = 'n' then some '\n'
  else if c = 'r' then some '\r'
  else if c = 'v' then some '\x0b'
  else none

def hexValue? (c : Char) : Option Nat :=
  if c.toNat < 128 then Json.hexValue? (UInt8.ofNat c.toNat) else none

/-- Exactly so many hexadecimal digits behind a number `n`, each of which spacing may follow. -/
def hexDigits? (s : Switches) : Nat → Nat → List Char → Option (Nat × List Char)
  | 0, n, cs => some (n, cs)
  | _ + 1, _, [] => none
  | count + 1, n, c :: rest =>
    match hexValue? c with
    | none => none
    | some d => hexDigits? s count (n * 16 + d) (s.dropBlanks rest)

/-- How many digits spell a character behind these letters. -/
def digitsOf? (c : Char) : Option Nat :=
  if c = 'x' then some 2
  else if c = 'u' then some 4
  else if c = 'U' then some 8
  else none

/-- A character spelled with digits; no surrogate is one. -/
def spelled? (s : Switches) (count : Nat) (cs : List Char) : Option (Escape × List Char) :=
  match hexDigits? s count 0 (s.dropBlanks cs) with
  | none => none
  | some (n, rest) =>
    if n.isValidChar then some (.sign ⟨Char.ofNat n, count == 2⟩, rest) else none

/-- What a letter or digit stands for that spells nothing. -/
def ofAlphanumeric? (c : Char) : Option Escape :=
  if c = 'd' ∨ c = 's' ∨ c = 'w' then some (.kind false)
  else if c = 'D' ∨ c = 'S' ∨ c = 'W' then some (.kind true)
  else if c = 'A' ∨ c = 'z' then some .textEdge
  else if c = 'b' ∨ c = 'B' then some .wordEdge
  else (controlOf? c).map fun d => .sign ⟨d, false⟩

/-- What stands behind a backslash. Of what is no letter and no digit, only what begins or ends
a word does not stand for itself. -/
def read? (s : Switches) : List Char → Option (Escape × List Char)
  | [] => none
  | c :: rest =>
    match digitsOf? c with
    | some count => spelled? s count rest
    | none =>
      if c.isAlphanum then (ofAlphanumeric? c).map fun e => (e, rest)
      else if c = '<' ∨ c = '>' then some (.wordEdge, rest)
      else if 128 ≤ c.toNat then none
      else some (.sign ⟨c, false⟩, rest)

end Escape

end Larder.Trace.Pattern
