import Larder.Json.Printer
import Larder.Text.Utf8
import Larder.Time.Deadline

/-! A record is one change of the store and is kept as one line of text: a word, a blank, and
strings and a deadline between blanks. Strings are JSON literals, so a line feed inside one
never ends the line. -/

namespace Larder

inductive Record
  | set (key value : String) (deadline : Deadline)
  | delete (key : String)
  deriving DecidableEq, Repr

namespace Record

def key : Record → String
  | .set key _ _ => key
  | .delete key => key

def setWord : List Char := ['S', 'E', 'T']

def deleteWord : List Char := ['D', 'E', 'L']

def deadlineField : Deadline → List Char
  | none => []
  | some stop => ' ' :: Nat.toDigits 10 stop.toNat

def operands : Record → List Char
  | .set key value deadline =>
    Json.quoteChars key.toList ++ ' ' :: Json.quoteChars value.toList ++ deadlineField deadline
  | .delete key => Json.quoteChars key.toList

def word : Record → List Char
  | .set .. => setWord
  | .delete .. => deleteWord

/-- The record as text, without the line feed at its end. -/
def body (r : Record) : List Char := r.word ++ ' ' :: r.operands

def line (r : Record) : List Char := r.body ++ ['\n']

/-- The line as it stands in a journal. -/
def bytes (r : Record) : Bytes := Text.Utf8.encode r.line

end Record

end Larder
