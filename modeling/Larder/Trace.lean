import Larder.Settings
import Larder.Text.Alphanumeric
import Larder.Trace.FieldValue

/-! What the server tells about its work: events of five levels, each from a target and with
named fields, and a filter that says which of them are shown. A filter is a row of directives;
of those that are about an event the most specific one decides. -/

namespace Larder.Trace

inductive Level
  | error
  | warn
  | info
  | debug
  | trace
  deriving DecidableEq, Repr

def Level.name : Level → String
  | .error => "ERROR"
  | .warn => "WARN"
  | .info => "INFO"
  | .debug => "DEBUG"
  | .trace => "TRACE"

/-- How much is shown up to a level; 0 shows nothing. -/
def Level.rank : Level → Nat
  | .error => 1
  | .warn => 2
  | .info => 3
  | .debug => 4
  | .trace => 5

structure Event where
  level : Level
  target : String
  message : String
  fields : List (String × String)
  deriving DecidableEq, Repr

/-- Controls a terminal might act on are spelled out in a message. -/
def spelled (c : Char) : List Char :=
  let n := c.toNat
  if n = 7 ∨ n = 8 ∨ n = 12 ∨ n = 27 ∨ n = 127 then
    ['\\', 'x', Nat.digitChar (n / 16), Nat.digitChar (n % 16)]
  else if 128 ≤ n ∧ n < 160 then ['\\', 'u', '\x7b'] ++ Nat.toDigits 16 n ++ ['\x7d']
  else [c]

def messageField : String := "message"

namespace Event

def fieldNames (e : Event) : List String := messageField :: e.fields.map Prod.fst

def text (e : Event) : String :=
  e.level.name ++ " " ++ e.target ++ ": "
    ++ " ".intercalate (String.ofList (e.message.toList.flatMap spelled)
      :: e.fields.map fun (name, v) => name ++ "=" ++ v)

/-- The lines of the text; a message or a field may have line feeds of its own. -/
def lines (e : Event) : List String := e.text.splitOn "\n"

end Event

/-- What is shown of the events whose target begins like this and, if a field is named, that have
it. A directive about spans says nothing about events, since none stands in a span. -/
structure Directive where
  target : List Char
  field : Option (List Char)
  ofSpans : Bool
  rank : Nat
  deriving DecidableEq, Repr

namespace Directive

/-- Everything is shown. -/
def most : Nat := Level.trace.rank

/-- A level by its name or its rank. -/
def rank? (text : List Char) : Option Nat :=
  match text with
  | [] => some Level.error.rank
  | '+' :: digits => Settings.digitsBelow (most + 1) digits
  | _ =>
    match Settings.digitsBelow (most + 1) text with
    | some n => some n
    | none =>
      let word := String.ofList (text.map Char.toUpper)
      if word = "OFF" then some 0
      else
        ([Level.error, .warn, .info, .debug, .trace].find? fun l => l.name == word).map Level.rank

def mayBegin (c : Char) : Bool :=
  Text.isAlphanumeric c || c == '-' || c == ':' || c == '_' || c == '['

/-- Some bytes of a text, if they are whole characters. -/
def cut (text : Bytes) (first stop : Nat) : Option (List Char) :=
  (Text.Utf8.decode ((text.take stop).drop first)).toOption

def width (cs : List Char) : Nat := (Text.Utf8.encode cs).length

/-- The level from a place on; without one everything is shown. -/
def levelFrom? (text : Bytes) (first : Nat) : Option Nat :=
  match cut text first text.length with
  | none => none
  | some [] => some most
  | some level => rank? level

/-- The level after a closing bracket, behind which `tail` stands at the place `first`. -/
def levelAfter? (text : Bytes) (first : Nat) : List Char → Option Nat
  | [] => some most
  | '=' :: _ => levelFrom? text (first + 1)
  | _ => none

/-- The name of a field, and whether a value is asked for as well. -/
def field? (piece : List Char) : Option (List Char × Bool) :=
  let name := piece.takeWhile (· ≠ '=')
  match piece.drop name.length with
  | [] => some (name, false)
  | _ :: rest =>
    if FieldValue.isValue (rest.takeWhile (· ≠ '=')) then some (name, true) else none

/-- A directive with brackets: `first` is the place behind the opening one, and `inner` follows. -/
def bracketed? (text : Bytes) (target : List Char) (first : Nat) (inner : List Char) :
    Option Directive :=
  let name := inner.takeWhile fun c => c ≠ ']' && c ≠ '\x7b'
  let place := first + width name + 1
  match inner.drop name.length with
  | ']' :: tail => (levelAfter? text place tail).map fun n => ⟨target, none, true, n⟩
  | '\x7b' :: rest =>
    let piece := rest.takeWhile (· ≠ '\x7d')
    let stop := place + width piece
    match rest.drop piece.length, cut text place stop with
    | '\x7d' :: ']' :: tail, some (c :: cs) =>
      match field? (c :: cs), levelAfter? text (stop + 2) tail with
      | some (field, hasValue), some n => some ⟨target, some field, !name.isEmpty || hasValue, n⟩
      | _, _ => none
    | _, _ => none
  | _ => none

/-- What has an equals sign is a target and a level; anything else is a level, if it is one, and
otherwise a target of which everything is shown. Between them may stand, in brackets, the name
of a span and, in braces, that of a field. Places are found without the blanks around the text,
but what stands there is taken from the text with them. -/
def parse? (chars : List Char) : Option Directive :=
  let text := Text.Utf8.encode chars
  let body := Text.trim chars
  let head := body.takeWhile fun c => c ≠ '=' && c ≠ '['
  match body with
  | [] => none
  | c :: _ =>
    if !mayBegin c then none
    else
      match body.drop head.length, cut text 0 (width head) with
      | [], _ =>
        match rank? chars with
        | some n => some ⟨[], none, false, n⟩
        | none => some ⟨chars, none, false, most⟩
      | _, none => none
      | '=' :: _, some target =>
        (levelFrom? text (width head + 1)).map fun n => ⟨target, none, false, n⟩
      | _ :: inner, some target => bracketed? text target (width head + 1) inner

def isAbout (d : Directive) (e : Event) : Bool :=
  !d.ofSpans && d.target.isPrefixOf e.target.toList
    && d.field.all fun name => e.fieldNames.contains (String.ofList name)

/-- A longer target is more specific, then a field, then the later name of a field. -/
def isBelow (a b : Directive) : Bool :=
  if a.target.length ≠ b.target.length then a.target.length < b.target.length
  else
    match a.field, b.field with
    | none, _ => true
    | some _, none => false
    | some m, some n => decide (String.ofList m ≤ String.ofList n)

end Directive

abbrev Filter := List Directive

namespace Filter

def default : Filter := [⟨"durable_cache".toList, none, false, Level.info.rank⟩]

def commaSeparated (text : List Char) : List (List Char) :=
  text.foldr
    (fun c done =>
      if c = ',' then [] :: done
      else
        match done with
        | [] => [[c]]
        | first :: rest => (c :: first) :: rest)
    [[]]

/-- A filter from a text. Without any directive it shows errors only; one in which any directive
cannot be read does not count. -/
def parse? (text : List Char) : Option Filter :=
  match (commaSeparated text).filter (· ≠ []) with
  | [] => some [⟨[], none, false, Level.error.rank⟩]
  | pieces => pieces.mapM Directive.parse?

/-- Of two directives the more specific one, and the later one of equals. -/
def better (best : Option Directive) (d : Directive) : Option Directive :=
  match best with
  | none => some d
  | some b => if b.isBelow d then some d else some b

/-- The directive that decides about an event. -/
def directive? (f : Filter) (e : Event) : Option Directive :=
  (f.filter fun d => d.isAbout e).foldl better none

def shows (f : Filter) (e : Event) : Bool :=
  match f.directive? e with
  | none => false
  | some d => e.level.rank ≤ d.rank

end Filter

end Larder.Trace
