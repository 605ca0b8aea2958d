import Larder.Trace.Pattern.Escape

/-! Classes of characters in brackets: characters, ranges of them, named classes and classes in
brackets again, one beside the other, with operators between such rows. -/

namespace Larder.Trace.Pattern

/-- What has been read of a class whose bracket is open. -/
structure Bracket where
  /-- How deep the row nests, with all rows before it, that the last operator follows. -/
  left : Option Nat
  row : Beside
  /-- Only hyphens have been read, and they stand for themselves. -/
  fresh : Bool
  deriving DecidableEq, Repr

namespace Bracket

def initial : Bracket := ⟨none, .nothing, true⟩

/-- Operators take what stands left of them together. -/
def depth (b : Bracket) : Nat :=
  match b.left with
  | none => b.row.depth
  | some left => max left b.row.depth + 1

def add (b : Bracket) (depth : Nat) : Bracket := ⟨b.left, b.row.add depth, false⟩

def operate (b : Bracket) : Bracket := ⟨some b.depth, .nothing, false⟩

/-- What follows the caret that may stand behind a bracket. All but some bytes are not ASCII, so
that a class of bytes cannot be negated. -/
def afterCaret? (s : Switches) (cs : List Char) : Option (List Char) :=
  match s.dropBlanks cs with
  | '^' :: rest => if s.unicode then some rest else none
  | cs => some cs

/-- The names of classes. -/
def names : List String :=
  ["alnum", "alpha", "ascii", "blank", "cntrl", "digit", "graph", "lower", "print", "punct",
    "space", "upper", "word", "xdigit"]

/-- A name between colons and, behind it, a closing bracket: whether the class of that name is
negated, and what follows. -/
def named? : List Char → Option (Bool × List Char)
  | ':' :: cs =>
    let negated := cs.head? == some '^'
    let body := if negated then cs.drop 1 else cs
    let name := body.takeWhile (· ≠ ':')
    match body.drop name.length with
    | ':' :: ']' :: rest =>
      if names.contains (String.ofList name) then some (negated, rest) else none
    | _ => none
  | _ => none

def namedFits (s : Switches) (negated : Bool) : Bool :=
  if s.unicode then !s.caseless else !negated

/-- One sign of a class, which may be escaped. -/
def sign? (s : Switches) : List Char → Option (Escape × List Char)
  | [] => none
  | '\\' :: rest => Escape.read? s rest
  | c :: rest => some (.sign ⟨c, false⟩, rest)

/-- The character behind a hyphen that tells whether it makes a range: blanks and a number sign
are passed over, unless nothing else follows. -/
def behindHyphen? (s : Switches) (cs : List Char) : Option Char :=
  if s.spaced then
    let past := cs.dropWhile Text.isBlank
    let past := if past.head? = some '#' then (past.drop 1).dropWhile Text.isBlank else past
    past.head?.or cs.head?
  else cs.head?

/-- A hyphen makes a range, unless it is the last of the class or part of an operator. -/
def beginsRange (s : Switches) : List Char → Bool
  | '-' :: rest => behindHyphen? s rest != some ']' && behindHyphen? s rest != some '-'
  | _ => false

/-- The end of a range, which is not before its first character. -/
def rangeFrom? (s : Switches) (first : Escape) (cs : List Char) : Option (List Char) :=
  match first, sign? s (s.dropBlanks cs) with
  | .sign first, some (.sign last, rest) =>
    if first.char ≤ last.char ∧ first.fitsClass s ∧ last.fitsClass s then some rest else none
  | _, _ => none

/-- What follows a sign or a range of them. -/
def element? (s : Switches) (cs : List Char) : Option (List Char) :=
  match sign? s cs with
  | none => none
  | some (first, rest) =>
    let rest := s.dropBlanks rest
    if beginsRange s rest then rangeFrom? s first (rest.drop 1)
    else if first.fitsClass s then some rest
    else none

/-- A class of which `b` has been read, within those in `outer`: how deep the outermost of them
nests, and what follows it. `fuel` bounds the signs that are left. -/
def readFrom? (s : Switches) :
    Nat → Bracket → List Bracket → List Char → Option (Nat × List Char)
  | 0, _, _, _ => none
  | fuel + 1, b, outer, cs =>
    match s.dropBlanks cs with
    | [] => none
    | c :: rest =>
      if b.fresh ∧ (c = '-' ∨ c = ']' ∧ b.row.count = 0) then
        if Sign.fitsClass s ⟨c, false⟩ then
          readFrom? s fuel ⟨none, b.row.add 0, c == '-'⟩ outer rest
        else none
      else if c = ']' then
        match outer with
        | [] => some (b.depth + 1, rest)
        | o :: outer => readFrom? s fuel (o.add (b.depth + 1)) outer rest
      else if c = '[' then
        match named? rest, afterCaret? s rest with
        | some (negated, rest), _ =>
          if namedFits s negated then readFrom? s fuel (b.add 0) outer rest else none
        | none, some rest => readFrom? s fuel initial (b :: outer) rest
        | none, none => none
      else if (c = '&' ∨ c = '-' ∨ c = '~') ∧ rest.head? = some c then
        readFrom? s fuel b.operate outer (rest.drop 1)
      else
        match element? s (c :: rest) with
        | none => none
        | some rest => readFrom? s fuel (b.add 0) outer rest

/-- How deep a class nests whose bracket has been taken, and what follows it. -/
def read? (s : Switches) (cs : List Char) : Option (Nat × List Char) :=
  match afterCaret? s cs with
  | none => none
  | some rest => readFrom? s (rest.length + 1) initial [] rest

end Bracket

end Larder.Trace.Pattern
