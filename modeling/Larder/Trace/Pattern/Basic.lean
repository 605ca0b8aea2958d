import Larder.Text.Blank

/-! What the parts of a pattern share: the switches that are in force, the blanks that may stand
between signs, and how deep things nest. -/

namespace Larder.Trace.Pattern

structure Switches where
  /-- Letters stand for both of their cases. -/
  caseless : Bool
  /-- A pattern is about characters; if this is off, it is about single bytes. -/
  unicode : Bool
  /-- Blanks and comments may stand between signs. -/
  spaced : Bool
  deriving DecidableEq, Repr

namespace Switches

/-- What is in force where a pattern begins. -/
def initial : Switches := ⟨false, true, false⟩

/-- Letters that name a switch; only those of case, characters and blanks change what may be
written. -/
def letters : List Char := ['i', 'm', 's', 'U', 'u', 'R', 'x']

def turn (on : Bool) (s : Switches) (letter : Char) : Switches :=
  if letter = 'i' then { s with caseless := on }
  else if letter = 'u' then { s with unicode := on }
  else if letter = 'x' then { s with spaced := on }
  else s

/-- Letters before a hyphen turn a switch on, and those behind it turn one off. -/
def turnAll (s : Switches) (flags : List Char) : Switches :=
  let on := flags.takeWhile (· ≠ '-')
  (flags.drop on.length).foldl (turn false) (on.foldl (turn true) s)

/-- Each letter stands at most once, and so does the hyphen, which is not the last of them. -/
def areFlags (flags : List Char) : Bool :=
  decide (flags.length ≤ letters.length + 1)
    && flags.all (fun c => c == '-' || letters.contains c)
    && decide flags.Nodup && flags.getLast? != some '-'

end Switches

/-- Blanks and comments at the front taken off. A comment goes from a number sign to the end of
the line; `inside` tells whether one has begun. -/
def dropSpacing (inside : Bool) : List Char → List Char
  | [] => []
  | c :: rest =>
    if inside then dropSpacing (c ≠ '\n') rest
    else if Text.isBlank c then dropSpacing false rest
    else if c = '#' then dropSpacing true rest
    else c :: rest

/-- What follows the spacing, where there may be any. -/
def Switches.dropBlanks (s : Switches) (cs : List Char) : List Char :=
  if s.spaced then dropSpacing false cs else cs

/-- Things that stand beside each other: how many they are, and how deep the deepest nests. -/
structure Beside where
  count : Nat
  deepest : Nat
  deriving DecidableEq, Repr

namespace Beside

def nothing : Beside := ⟨0, 0⟩

def add (b : Beside) (depth : Nat) : Beside := ⟨b.count + 1, max b.deepest depth⟩

/-- Several make a level of their own, one alone does not. -/
def depth (b : Beside) : Nat := if b.count ≤ 1 then b.deepest else b.deepest + 1

end Beside

end Larder.Trace.Pattern
