import Larder.Json.Value

/-! JSON text without blanks. Inside a string only the quote, the backslash and the controls
below U+0020 are escaped, five of those by a letter and the others by four hexadecimal digits. -/

namespace Larder.Json

def hexDigit (n : Nat) : Char := Nat.digitChar n

def escapeChar (c : Char) : List Char :=
  if c = '"' then ['\\', '"']
  else if c = '\\' then ['\\', '\\']
  else if c = '\x08' then ['\\', 'b']
  else if c = '\x0c' then ['\\', 'f']
  else if c = '\n' then ['\\', 'n']
  else if c = '\r' then ['\\', 'r']
  else if c = '\t' then ['\\', 't']
  else if c.toNat < 0x20 then
    ['\\', 'u', '0', '0', hexDigit (c.toNat / 16), hexDigit (c.toNat % 16)]
  else [c]

/-- A string literal, quotes included. -/
def quoteChars (cs : List Char) : List Char := '"' :: (cs.flatMap escapeChar ++ ['"'])

def quote (s : String) : String := String.ofList (quoteChars s.toList)

def Number.render : Number → String
  | .natural n => toString n
  | .negative n => "-" ++ toString n
  | .double minus size => (if minus then "-" else "") ++ String.ofList size.text

/-- An object whose members stand in the order given, their values already written. -/
def renderMembers (fields : List (String × String)) : String :=
  "\x7b" ++ ",".intercalate (fields.map fun (name, v) => quote name ++ ":" ++ v) ++ "\x7d"

mutual

def Value.render : Value → String
  | .null => "null"
  | .bool true => "true"
  | .bool false => "false"
  | .number n => n.render
  | .text s => quote s
  | .array items => "[" ++ ",".intercalate (renderItems items) ++ "]"
  | .object fields => renderMembers (renderFields fields)

def renderItems : List Value → List String
  | [] => []
  | v :: rest => v.render :: renderItems rest

def renderFields : List (String × Value) → List (String × String)
  | [] => []
  | (name, v) :: rest => (name, v.render) :: renderFields rest

end

end Larder.Json
