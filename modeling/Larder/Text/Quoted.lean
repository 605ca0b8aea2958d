import Larder.Text.Printable
import Larder.Text.GraphemeExtend

/-! A text in quotes for a message. The quote and the backslash take a backslash, four controls
have a letter, and any other character that cannot be shown by itself is written as its code
point in hexadecimal between braces. -/

namespace Larder.Text

def hexDigits (n : Nat) : List Char := Nat.toDigits 16 n

def quotedChar (c : Char) : List Char :=
  if c = '\x00' then ['\\', '0']
  else if c = '\t' then ['\\', 't']
  else if c = '\r' then ['\\', 'r']
  else if c = '\n' then ['\\', 'n']
  else if c = '"' then ['\\', '"']
  else if c = '\\' then ['\\', '\\']
  else if isGraphemeExtend c || !isPrintable c then
    ['\\', 'u', '\x7b'] ++ hexDigits c.toNat ++ ['\x7d']
  else [c]

def quoted (cs : List Char) : String :=
  String.ofList (('"' :: cs.flatMap quotedChar) ++ ['"'])

end Larder.Text
