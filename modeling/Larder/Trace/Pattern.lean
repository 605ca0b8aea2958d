import Larder.Text.Alphanumeric
import Larder.Trace.Pattern.Bracket

/-! Patterns for the text of a field. A pattern is a row of characters, classes in brackets and
groups in parentheses, with bars between choices; a star, a plus or a question mark repeats what
stands before it. A group may have a name or switches of its own. Counts, properties and looking
ahead are not known, and a text that asks for them is refused like one that is not well formed. -/

namespace Larder.Trace.Pattern

/-- How deep a pattern may nest. -/
def depthLimit : Nat := 250

/-- A row of pieces. -/
structure Row where
  /-- All pieces, or all but the last. -/
  before : Beside
  /-- How deep the last piece nests, if it can be repeated. -/
  last : Option Nat
  deriving DecidableEq, Repr

namespace Row

def initial : Row := ⟨.nothing, none⟩

def pieces (r : Row) : Beside :=
  match r.last with
  | none => r.before
  | some depth => r.before.add depth

def add (r : Row) (depth : Nat) : Row := ⟨r.pieces, some depth⟩

/-- Switches are a piece that cannot be repeated. -/
def addFlags (r : Row) : Row := ⟨r.pieces.add 0, none⟩

def repeated? (r : Row) : Option Row := r.last.map fun depth => ⟨r.before, some (depth + 1)⟩

end Row

/-- What has been read of a group: the switches that are in force in it, the choices that are
complete, and the row of the last one. -/
structure Group where
  switches : Switches
  choices : Beside
  row : Row
  deriving DecidableEq, Repr

namespace Group

def initial (s : Switches) : Group := ⟨s, .nothing, .initial⟩

def add (g : Group) (depth : Nat) : Group := { g with row := g.row.add depth }

/-- Switches hold to the end of the group, in the choices behind a bar as well. -/
def switch (g : Group) (s : Switches) : Group := { g with switches := s, row := g.row.addFlags }

def nextChoice (g : Group) : Group :=
  { g with choices := g.choices.add g.row.pieces.depth, row := .initial }

def depth (g : Group) : Nat := (g.choices.add g.row.pieces.depth).depth

end Group

/-- How what a parenthesis opens begins. -/
inductive Opening
  | plain
  | named (name : List Char)
  | switched (s : Switches)
  /-- No group, but switches for the rest of the one that is open. -/
  | switches (s : Switches)
  deriving DecidableEq, Repr

namespace Opening

def isName : List Char → Bool
  | [] => false
  | c :: rest =>
    (c == '_' || Text.isAlphabetic c)
      && rest.all fun c => c == '_' || c == '.' || c == '[' || c == ']' || Text.isAlphanumeric c

def named? (cs : List Char) : Option (Opening × List Char) :=
  let name := cs.takeWhile (· ≠ '>')
  match cs.drop name.length with
  | [] => none
  | _ :: rest => if isName name then some (.named name, rest) else none

/-- Switches before a colon, where there may be none, or before a closing parenthesis. -/
def flags? (s : Switches) (cs : List Char) : Option (Opening × List Char) :=
  let flags := cs.takeWhile fun c => c ≠ ':' && c ≠ ')'
  if !Switches.areFlags flags then none
  else
    match cs.drop flags.length with
    | ':' :: rest => some (.switched (s.turnAll flags), rest)
    | ')' :: rest => if flags.isEmpty then none else some (.switches (s.turnAll flags), rest)
    | _ => none

def read? (s : Switches) (cs : List Char) : Option (Opening × List Char) :=
  match s.dropBlanks cs with
  | '?' :: 'P' :: '<' :: rest => named? rest
  | '?' :: '<' :: rest => named? rest
  | '?' :: rest => flags? s rest
  | rest => some (.plain, rest)

end Opening

/-- What has been read of a pattern: the names of its groups, and the groups that are open. -/
structure Reading where
  names : List (List Char)
  group : Group
  outer : List Group
  deriving DecidableEq, Repr

namespace Reading

def initial : Reading := ⟨[], .initial .initial, []⟩

def add (r : Reading) (depth : Nat) : Reading := { r with group := r.group.add depth }

def enter (r : Reading) (s : Switches) : Reading :=
  { r with group := .initial s, outer := r.group :: r.outer }

/-- No two groups have the same name. -/
def opened? (r : Reading) : Opening → Option Reading
  | .plain => some (r.enter r.group.switches)
  | .named name =>
    if r.names.contains name then none
    else some { r.enter r.group.switches with names := name :: r.names }
  | .switched s => some (r.enter s)
  | .switches s => some { r with group := r.group.switch s }

def closed? (r : Reading) : Option Reading :=
  match r.outer with
  | [] => none
  | o :: outer => some { r with group := o.add (r.group.depth + 1), outer := outer }

/-- A question mark behind a repetition belongs to it. -/
def repeated? (r : Reading) (cs : List Char) : Option (Reading × List Char) :=
  r.group.row.repeated?.map fun row =>
    ({ r with group := { r.group with row := row } },
      if cs.head? = some '?' then cs.drop 1 else cs)

/-- One sign and what belongs to it. Any character is one, but any byte may be a part of one. -/
def step? (r : Reading) (c : Char) (rest : List Char) : Option (Reading × List Char) :=
  let s := r.group.switches
  let leaf (fits : Bool) := if fits then some (r.add 0, rest) else none
  if c = '(' then
    match Opening.read? s rest with
    | none => none
    | some (opening, rest) => (r.opened? opening).map fun r => (r, rest)
  else if c = ')' then r.closed?.map fun r => (r, rest)
  else if c = '|' then some ({ r with group := r.group.nextChoice }, rest)
  else if c = '*' ∨ c = '+' ∨ c = '?' then r.repeated? rest
  else if c = '\x7b' then none
  else if c = '[' then (Bracket.read? s rest).map fun (depth, rest) => (r.add depth, rest)
  else if c = '\\' then
    match Escape.read? s rest with
    | none => none
    | some (e, rest) => if e.fits s then some (r.add 0, rest) else none
  else if c = '.' then leaf s.unicode
  else if c = '^' ∨ c = '$' then leaf true
  else leaf (Sign.fits s ⟨c, false⟩)

/-- Whether the rest of a pattern is well formed. `fuel` bounds the signs that are left. -/
def completes : Nat → Reading → List Char → Bool
  | 0, _, _ => false
  | fuel + 1, r, cs =>
    match r.group.switches.dropBlanks cs with
    | [] => r.outer.isEmpty && decide (r.group.depth ≤ depthLimit)
    | c :: rest =>
      match r.step? c rest with
      | none => false
      | some (r, rest) => completes fuel r rest

end Reading

def isPattern (cs : List Char) : Bool := Reading.initial.completes (cs.length + 1) cs

end Larder.Trace.Pattern
