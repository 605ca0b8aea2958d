import Larder.Trace.Pattern

/-! Texts that may stand for a field's value in a filter: a number, or a pattern. -/

namespace Larder.Trace.FieldValue

def dropSign (cs : List Char) : List Char :=
  if cs.head? = some '+' ∨ cs.head? = some '-' then cs.drop 1 else cs

def isExponent : List Char → Bool
  | [] => true
  | c :: rest =>
    let digits := dropSign rest
    (c == 'e' || c == 'E') && !digits.isEmpty && digits.all Char.isDigit

/-- Digits with a point anywhere among them, and an exponent. -/
def isUnsigned (cs : List Char) : Bool :=
  let whole := cs.takeWhile Char.isDigit
  match cs.drop whole.length with
  | '.' :: rest =>
    let fraction := rest.takeWhile Char.isDigit
    !(whole ++ fraction).isEmpty && isExponent (rest.drop fraction.length)
  | rest => !whole.isEmpty && isExponent rest

def isNumber (cs : List Char) : Bool :=
  let size := dropSign cs
  isUnsigned size ||
    ["inf", "infinity", "nan"].contains (String.ofList (size.map Char.toLower))

/-- Whether a text may stand for values. -/
def isValue (cs : List Char) : Bool := isNumber cs || Pattern.isPattern cs

end Larder.Trace.FieldValue
