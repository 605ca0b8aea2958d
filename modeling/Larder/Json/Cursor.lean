import Larder.Text.Utf8

/-! A cursor is the rest of a text and the place where it starts. Columns count bytes. -/

namespace Larder.Json

structure Place where
  line : Nat
  column : Nat
  deriving DecidableEq, Repr

def Place.after (p : Place) (b : UInt8) : Place :=
  if b = 10 then ⟨p.line + 1, 0⟩ else ⟨p.line, p.column + 1⟩

def Place.afterAll (p : Place) (bs : Bytes) : Place := bs.foldl Place.after p

/-- What can be wrong with a JSON text. -/
inductive Cause
  | endInValue
  | endInString
  | endInList
  | endInObject
  | expectedValue
  | expectedIdent
  | expectedColon
  | expectedListEnd
  | expectedObjectEnd
  | trailingComma
  | trailingCharacters
  | keyNotString
  | invalidEscape
  | invalidNumber
  | numberOutOfRange
  | controlCharacter
  | loneSurrogate
  | unfinishedSurrogate
  | invalidCodePoint
  | tooDeep
  deriving DecidableEq, Repr

def Cause.message : Cause → String
  | .endInValue => "EOF while parsing a value"
  | .endInString => "EOF while parsing a string"
  | .endInList => "EOF while parsing a list"
  | .endInObject => "EOF while parsing an object"
  | .expectedValue => "expected value"
  | .expectedIdent => "expected ident"
  | .expectedColon => "expected `:`"
  | .expectedListEnd => "expected `,` or `]`"
  | .expectedObjectEnd => "expected `,` or `\x7d`"
  | .trailingComma => "trailing comma"
  | .trailingCharacters => "trailing characters"
  | .keyNotString => "key must be a string"
  | .invalidEscape => "invalid escape"
  | .invalidNumber => "invalid number"
  | .numberOutOfRange => "number out of range"
  | .controlCharacter => "control character (\\u0000-\\u001F) found while parsing a string"
  | .loneSurrogate => "lone leading surrogate in hex escape"
  | .unfinishedSurrogate => "unexpected end of hex escape"
  | .invalidCodePoint => "invalid unicode code point"
  | .tooDeep => "recursion limit exceeded"

structure Fault where
  cause : Cause
  place : Place
  deriving DecidableEq, Repr

def Place.mark (p : Place) (message : String) : String :=
  message ++ " at line " ++ toString p.line ++ " column " ++ toString p.column

def Fault.message (f : Fault) : String := f.place.mark f.cause.message

structure Cursor where
  place : Place
  rest : Bytes
  deriving DecidableEq, Repr

namespace Cursor

def start (bs : Bytes) : Cursor := ⟨⟨1, 0⟩, bs⟩

/-- A fault in what has been taken so far. -/
def fault (c : Cursor) (cause : Cause) : Fault := ⟨cause, c.place⟩

/-- A fault in the next byte, which the place then counts; at the end there is none to count. -/
def faultAhead (c : Cursor) (cause : Cause) : Fault :=
  match c.rest with
  | [] => ⟨cause, c.place⟩
  | b :: _ => ⟨cause, c.place.after b⟩

/-- The cursor after one byte. -/
def skip (c : Cursor) : Cursor :=
  match c.rest with
  | [] => c
  | b :: rest => ⟨c.place.after b, rest⟩

end Cursor

def isBlankByte (b : UInt8) : Bool := b == 32 || b == 9 || b == 10 || b == 13

def skipBlankFrom (p : Place) : Bytes → Cursor
  | [] => ⟨p, []⟩
  | b :: rest => if isBlankByte b then skipBlankFrom (p.after b) rest else ⟨p, b :: rest⟩

def Cursor.skipBlank (c : Cursor) : Cursor := skipBlankFrom c.place c.rest

/-- The rest of a word whose first letter has been taken. -/
def expectLetters : Bytes → Cursor → Except Fault Cursor
  | [], c => .ok c
  | letter :: word, c =>
    match c.rest with
    | [] => .error (c.fault .endInValue)
    | b :: rest =>
      if b = letter then expectLetters word ⟨c.place.after b, rest⟩
      else .error ⟨.expectedIdent, c.place.after b⟩

end Larder.Json
