import Larder.Text.Utf8

/-! Media types: a type, a slash, a subtype, and parameters after semicolons, each a name, an
equals sign and a value that may stand in quotes. Blanks may stand only in front of a
parameter's name and after a closing quote. -/

namespace Larder.Http.MediaType

def isTokenChar (c : Char) : Bool := c.isAlphanum || "!#$%&'*+-.^_`|~".toList.contains c

/-- A header whose bytes can all be seen, or are blanks or tabs. -/
def visible? (value : Bytes) : Option (List Char) :=
  if value.all fun b => (32 ≤ b && b < 127) || b == 9 then
    some (value.map fun b => Char.ofNat b.toNat)
  else none

/-- What is left after a quoted value: the next parameter, or nothing. -/
def afterQuote? : List Char → Option (List Char)
  | [] => some []
  | ';' :: rest => some rest
  | ' ' :: rest => afterQuote? rest
  | _ :: _ => none

/-- What is left after a value in quotes, the opening one taken; it may not be empty. -/
def quotedValue? (first : Bool) : List Char → Option (List Char)
  | [] => none
  | c :: rest =>
    if c = '"' ∧ !first then afterQuote? rest
    else if 31 < c.toNat ∧ c.toNat ≠ 127 then quotedValue? false rest
    else none

/-- What is left after a value: the next parameter, or nothing. Only the last one of all may be
empty. -/
def plainValue? (first : Bool) : List Char → Option (List Char)
  | [] => some []
  | c :: rest =>
    if c = ';' ∧ !first then some rest
    else if isTokenChar c then plainValue? false rest
    else none

def value? : List Char → Option (List Char)
  | '"' :: rest => quotedValue? true rest
  | cs => plainValue? true cs

/-- What is left after a parameter's name and the equals sign. -/
def name? (first : Bool) : List Char → Option (List Char)
  | [] => none
  | c :: rest =>
    if c = '=' ∧ !first then some rest
    else if isTokenChar c then name? false rest
    else none

/-- Whether a text is a row of parameters; each takes at least one character. -/
def areParametersFrom : Nat → List Char → Bool
  | _, [] => true
  | 0, _ => false
  | fuel + 1, ' ' :: rest => areParametersFrom fuel rest
  | fuel + 1, cs =>
    match (name? true cs).bind value? with
    | none => false
    | some rest => areParametersFrom fuel rest

def areParameters (cs : List Char) : Bool := areParametersFrom cs.length cs

structure Essence where
  kind : List Char
  subkind : List Char
  deriving DecidableEq, Repr

/-- Type and subtype in small letters. -/
def parse? (cs : List Char) : Option Essence :=
  let lower := List.map Char.toLower
  match cs.span isTokenChar with
  | ([], _) => none
  | (kind, '/' :: rest) =>
    match rest.span isTokenChar with
    | (subkind, []) => some ⟨lower kind, lower subkind⟩
    | ([], _) => none
    | (subkind, ';' :: parameters) =>
      if areParameters parameters then some ⟨lower kind, lower subkind⟩ else none
    | _ => none
  | _ => none

/-- The parts before and after the last plus; a plus at the very beginning is part of the name. -/
def splitSuffix (subkind : List Char) : List Char × Option (List Char) :=
  match subkind.reverse.span (· ≠ '+') with
  | (suffix, _ :: name) =>
    if name = [] then (subkind, none) else (name.reverse, some suffix.reverse)
  | _ => (subkind, none)

def isJson (t : Essence) : Bool :=
  let (name, suffix) := splitSuffix t.subkind
  t.kind == "application".toList && (name == "json".toList || suffix == some "json".toList)

end Larder.Http.MediaType
