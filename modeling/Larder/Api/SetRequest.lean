import Larder.Json.Parser
import Larder.Json.Skip
import Larder.Text.Quoted
import Larder.Failure

/-! The body of a request to store an entry: an object with the members `key`, `value` and, if
wanted, `ttl`, a time to live in seconds, or a list of the same in this order. Members with
other names are read over. A body is refused with the place where reading stopped and, if that
is inside a member or an element, with its name or number. -/

namespace Larder.Api

structure SetRequest where
  key : String
  value : String
  ttl : Option Nat
  deriving DecidableEq, Repr

namespace SetRequest

/-- What is wrong with a request before the store has seen it. -/
def objection? (r : SetRequest) : Option Objection :=
  if r.key = "" then some .emptyKey
  else if keyLimit < r.key.utf8ByteSize then some .keyTooLong
  else if valueLimit < r.value.utf8ByteSize then some .valueTooLong
  else none

inductive Field
  | key
  | value
  | ttl
  deriving DecidableEq, Repr

def Field.name : Field → String
  | .key => "key"
  | .value => "value"
  | .ttl => "ttl"

def Field.all : List Field := [.key, .value, .ttl]

def Field.ofName? (name : String) : Option Field := Field.all.find? fun f => f.name == name

/-- What stood where something else was expected. -/
inductive Found
  | null
  | bool (b : Bool)
  | number (n : Json.Number)
  | text (s : String)
  | list
  | object
  deriving DecidableEq, Repr

def Found.name : Found → String
  | .null => "null"
  | .bool b => "boolean `" ++ toString b ++ "`"
  | .number (.double minus size) =>
    "floating point `" ++ (Json.Number.double minus size).render ++ "`"
  | .number n => "integer `" ++ n.render ++ "`"
  | .text s => "string " ++ Text.quoted s.toList
  | .list => "sequence"
  | .object => "map"

inductive Expected
  | request
  | text
  | seconds
  deriving DecidableEq, Repr

def Expected.name : Expected → String
  | .request => "struct SetRequest"
  | .text => "a string"
  | .seconds => "u64"

/-- Well-formed JSON that is no request. -/
inductive Mismatch
  | wrongType (found : Found) (expected : Expected)
  | wrongValue (found : Found) (expected : Expected)
  | missing (field : Field)
  | duplicate (field : Field)
  | tooShort (length : Nat)
  deriving DecidableEq, Repr

def Mismatch.message : Mismatch → String
  | .wrongType found expected =>
    "invalid type: " ++ found.name ++ ", expected " ++ expected.name
  | .wrongValue found expected =>
    "invalid value: " ++ found.name ++ ", expected " ++ expected.name
  | .missing field => "missing field `" ++ field.name ++ "`"
  | .duplicate field => "duplicate field `" ++ field.name ++ "`"
  | .tooShort length =>
    "invalid length " ++ toString length ++ ", expected struct SetRequest with 3 elements"

inductive Ground
  | malformed (cause : Json.Cause)
  | mismatch (m : Mismatch)
  deriving DecidableEq, Repr

def Ground.message : Ground → String
  | .malformed cause => cause.message
  | .mismatch m => m.message

structure Refusal where
  /-- The member or element that was being read. -/
  within : Option String
  ground : Ground
  place : Json.Place
  deriving DecidableEq, Repr

/-- The wording with the place. -/
def Refusal.message (r : Refusal) : String := r.place.mark r.ground.message

/-- The wording that begins with the member or element. -/
def Refusal.fullMessage (r : Refusal) : String :=
  match r.within with
  | none => r.message
  | some name => name ++ ": " ++ r.message

abbrev Reading (α : Type) := Except Refusal (α × Json.Cursor)

def malformed (f : Json.Fault) : Refusal := ⟨none, .malformed f.cause, f.place⟩

def mismatch (m : Mismatch) (c : Json.Cursor) : Refusal := ⟨none, .mismatch m, c.place⟩

def Refusal.inside (name : String) (r : Refusal) : Refusal := { r with within := some name }

/-- Takes a value that does not fit, of a list or an object nothing, and refuses it. -/
def refuse (expected : Expected) (c : Json.Cursor) : Refusal :=
  let unfit (found : Found) (c : Json.Cursor) := mismatch (.wrongType found expected) c
  match c.rest with
  | [] => malformed (c.faultAhead .endInValue)
  | b :: _ =>
    if b = 91 then unfit .list c
    else if b = 123 then unfit .object c
    else
      match Json.readValue 0 0 c with
      | .error f => malformed f
      | .ok (.null, c) => unfit .null c
      | .ok (.bool v, c) => unfit (.bool v) c
      | .ok (.number n, c) => unfit (.number n) c
      | .ok (.text s, c) => unfit (.text s) c
      | .ok (.array _, c) => unfit .list c
      | .ok (.object _, c) => unfit .object c

def readText (c : Json.Cursor) : Reading String :=
  let c := c.skipBlank
  if c.rest.head? = some 34 then
    (Json.readText c.skip.place [] c.skip.rest).mapError malformed
  else .error (refuse .text c)

def readSeconds (c : Json.Cursor) : Reading (Option Nat) :=
  let c := c.skipBlank
  match c.rest with
  | [] => .error (refuse .seconds c)
  | b :: _ =>
    if b = 110 then
      match Json.expectLetters [117, 108, 108] c.skip with
      | .error f => .error (malformed f)
      | .ok c => .ok (none, c)
    else if b = 45 ∨ Json.isDigitByte b then
      match Json.readNumeral (b == 45) (if b = 45 then c.skip else c) with
      | .error f => .error (malformed f)
      | .ok (.natural n, c) => .ok (some n, c)
      | .ok (.negative n, c) =>
        .error (mismatch (.wrongValue (.number (.negative n)) .seconds) c)
      | .ok (n, c) => .error (mismatch (.wrongType (.number n) .seconds) c)
    else .error (refuse .seconds c)

/-- What has been read of a request. -/
structure Draft where
  key : Option String
  value : Option String
  ttl : Option (Option Nat)
  deriving DecidableEq, Repr

def Draft.empty : Draft := ⟨none, none, none⟩

def Draft.has (d : Draft) : Field → Bool
  | .key => d.key.isSome
  | .value => d.value.isSome
  | .ttl => d.ttl.isSome

/-- The request, if nothing it needs is missing. -/
def Draft.finish (d : Draft) : Except Mismatch SetRequest :=
  match d.key, d.value with
  | none, _ => .error (.missing .key)
  | _, none => .error (.missing .value)
  | some key, some value => .ok ⟨key, value, d.ttl.getD none⟩

def readField (d : Draft) (field : Field) (c : Json.Cursor) : Reading Draft :=
  match field with
  | .key => (readText c).map fun (s, c) => ({ d with key := some s }, c)
  | .value => (readText c).map fun (s, c) => ({ d with value := some s }, c)
  | .ttl => (readSeconds c).map fun (n, c) => ({ d with ttl := some n }, c)

/-- A value that belongs to the member of this name; `bound` is more than the bytes that are
left. -/
def readMember (bound : Nat) (d : Draft) (name : String) (c : Json.Cursor) : Reading Draft :=
  let reading :=
    match Field.ofName? name with
    | some field => readField d field c
    | none => ((Json.skipValue bound c).mapError malformed).map fun c => (d, c)
  reading.mapError (Refusal.inside name)

/-- Where a member that comes a second time is reported: after its name and the blanks behind
it, and after the closing brace if that follows. -/
def afterDuplicate (c : Json.Cursor) : Json.Cursor :=
  let c := c.skipBlank
  if c.rest.head? = some 125 then c.skip else c

def isDuplicate? (d : Draft) (name : String) : Option Field :=
  (Field.ofName? name).filter d.has

def readMembers : Nat → Bool → Draft → Json.Cursor → Reading SetRequest
  | 0, _, _, c => .error (malformed (c.faultAhead .endInObject))
  | fuel + 1, first, d, c =>
    match Json.nextMember first c with
    | .error f => .error (malformed f)
    | .ok (false, c) =>
      match d.finish with
      | .error m => .error (mismatch m c.skip)
      | .ok r => .ok (r, c.skip)
    | .ok (true, c) =>
      match Json.readText c.skip.place [] c.skip.rest with
      | .error f => .error (malformed f)
      | .ok (name, c) =>
        match isDuplicate? d name with
        | some field => .error (mismatch (.duplicate field) (afterDuplicate c))
        | none =>
          match Json.readColon c with
          | .error f => .error (malformed f)
          | .ok c =>
            match readMember fuel d name c with
            | .error r => .error r
            | .ok (d, c) => readMembers fuel false d c

/-- After the last element there has to be the closing bracket. -/
def closeList (c : Json.Cursor) : Except Refusal Json.Cursor :=
  let c := c.skipBlank
  match c.rest with
  | [] => .error (malformed (c.faultAhead .endInList))
  | b :: _ =>
    if b = 93 then .ok c.skip
    else if b = 44 then
      let c := c.skip.skipBlank
      let cause := if c.rest.head? = some 93 then .trailingComma else .trailingCharacters
      .error (malformed (c.faultAhead cause))
    else .error (malformed (c.faultAhead .trailingCharacters))

def elementName (i : Nat) : String := "[" ++ toString i ++ "]"

/-- The elements of a list from number `i` on. -/
def readElements (i : Nat) (d : Draft) : List Field → Json.Cursor → Reading SetRequest
  | [], c =>
    match d.finish with
    | .error m => .error (mismatch m c)
    | .ok r => (closeList c).map fun c => (r, c)
  | field :: fields, c =>
    match Json.nextItem (i == 0) c with
    | .error f => .error (malformed f)
    | .ok (false, c) =>
      match d.finish with
      | .error _ => .error (mismatch (.tooShort i) c.skip)
      | .ok r => .ok (r, c.skip)
    | .ok (true, c) =>
      match (readField d field c).mapError (Refusal.inside (elementName i)) with
      | .error r => .error r
      | .ok (d, c) => readElements (i + 1) d fields c

/-- A request and what follows it. -/
def read (c : Json.Cursor) : Reading SetRequest :=
  let c := c.skipBlank
  match c.rest with
  | [] => .error (malformed (c.faultAhead .endInValue))
  | b :: rest =>
    if b = 123 then readMembers (rest.length + 1) true .empty c.skip
    else if b = 91 then readElements 0 .empty Field.all c.skip
    else .error (refuse .request c)

/-- The request at the beginning of a body; what follows it does not matter. -/
def ofBody (bs : Bytes) : Except Refusal SetRequest :=
  (read (.start bs)).map Prod.fst

/-- The request that a whole text is, blanks apart. -/
def parse (bs : Bytes) : Except Refusal SetRequest :=
  match read (.start bs) with
  | .error r => .error r
  | .ok (r, c) =>
    let c := c.skipBlank
    if c.rest = [] then .ok r else .error (malformed (c.faultAhead .trailingCharacters))

end SetRequest

end Larder.Api
