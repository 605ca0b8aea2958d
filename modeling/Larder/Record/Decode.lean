import Larder.Json.Parser
import Larder.Text.Quoted
import Larder.Record

/-! Reading a record. Line feeds and carriage returns at the end of the text do not count. What
follows the first blank is a stream of JSON values, of which the word in front of it says how
many there are and of which kind. They are read one at a time, so the first one that does not
fit is the one reported. -/

namespace Larder.Record

inductive Field
  | key
  | value
  deriving DecidableEq, Repr

def Field.name : Field → String
  | .key => "key"
  | .value => "value"

/-- Why a text is no record. -/
inductive DecodeError
  | missingOperands (text : List Char)
  | unknownWord (word : List Char)
  | malformed (fault : Json.Fault)
  | missing (field : Field)
  | notString (field : Field) (found : Json.Value)
  | notTimestamp (n : Json.Number)
  | notDeadline (found : Json.Value)
  | trailingFields
  | emptyKey

def DecodeError.message : DecodeError → String
  | .missingOperands text => "missing operands in " ++ Text.quoted text
  | .unknownWord word => "unknown operation " ++ Text.quoted word
  | .malformed fault => "malformed field: " ++ fault.message
  | .missing field => "missing " ++ field.name
  | .notString field found => field.name ++ " must be a string, found " ++ found.render
  | .notTimestamp n => "expiry " ++ n.render ++ " is not a timestamp"
  | .notDeadline found => "unexpected expiry field " ++ found.render
  | .trailingFields => "trailing fields after record"
  | .emptyKey => "empty key"

abbrev Decoding (α : Type) := Except DecodeError (α × Json.Cursor)

def nextField (c : Json.Cursor) : Decoding (Option Json.Value) :=
  (Json.nextValue c).mapError .malformed

def textField (field : Field) (c : Json.Cursor) : Decoding String :=
  match nextField c with
  | .error e => .error e
  | .ok (none, _) => .error (.missing field)
  | .ok (some (.text s), c) => .ok (s, c)
  | .ok (some found, _) => .error (.notString field found)

def deadlineField? (c : Json.Cursor) : Decoding Deadline :=
  match nextField c with
  | .error e => .error e
  | .ok (none, c) => .ok (none, c)
  | .ok (some (.number (.natural n)), c) => .ok (some (UInt64.ofNat n), c)
  | .ok (some (.number n), _) => .error (.notTimestamp n)
  | .ok (some found, _) => .error (.notDeadline found)

def readSet (c : Json.Cursor) : Decoding Record :=
  match textField .key c with
  | .error e => .error e
  | .ok (key, c) =>
    match textField .value c with
    | .error e => .error e
    | .ok (value, c) =>
      match deadlineField? c with
      | .error e => .error e
      | .ok (deadline, c) => .ok (.set key value deadline, c)

def readDelete (c : Json.Cursor) : Decoding Record :=
  match textField .key c with
  | .error e => .error e
  | .ok (key, c) => .ok (.delete key, c)

/-- Nothing may follow the fields, and the key may not be empty. -/
def finish (r : Record) (c : Json.Cursor) : Except DecodeError Record :=
  match nextField c with
  | .error e => .error e
  | .ok (some _, _) => .error .trailingFields
  | .ok (none, _) => if r.key = "" then .error .emptyKey else .ok r

def ofOperands (word : List Char) (c : Json.Cursor) : Except DecodeError Record :=
  let reading :=
    if word = setWord then readSet c
    else if word = deleteWord then readDelete c
    else .error (.unknownWord word)
  match reading with
  | .error e => .error e
  | .ok (r, c) => finish r c

def isTerminator (c : Char) : Bool := c == '\n' || c == '\r'

def dropTerminator (text : List Char) : List Char :=
  (text.reverse.dropWhile isTerminator).reverse

def decode (text : List Char) : Except DecodeError Record :=
  let text := dropTerminator text
  match text.span (· ≠ ' ') with
  | (_, []) => .error (.missingOperands text)
  | (word, _ :: operands) => ofOperands word (.start (Text.Utf8.encode operands))

end Larder.Record
