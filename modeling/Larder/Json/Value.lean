import Larder.Decimal.Shortest

/-! JSON values. A number without fraction and exponent stays whole as long as it fits 64 bits,
signed if it has a minus; every other number is a double, and so is minus zero. An object keeps
its members in the order of their names, each name once. -/

namespace Larder.Json

inductive Number
  | natural (n : Nat)
  | negative (n : Nat)
  | double (minus : Bool) (size : Decimal.Binary64)
  deriving DecidableEq, Repr

inductive Value
  | null
  | bool (b : Bool)
  | number (n : Number)
  | text (s : String)
  | array (items : List Value)
  | object (fields : List (String × Value))

/-- Puts a member behind those of smaller names, unless its name is there already. -/
def addMember (done : List (String × Value)) (member : String × Value) :
    List (String × Value) :=
  match done with
  | [] => [member]
  | (name, v) :: rest =>
    if name = member.1 then (name, v) :: rest else member :: (name, v) :: rest

/-- Members in the order of their names, from a list with the last one first. Of members with
one name the last one counts. -/
def orderMembers (lastFirst : List (String × Value)) : List (String × Value) :=
  ((lastFirst.mergeSort fun a b => !decide (b.1 < a.1)).foldl addMember []).reverse

end Larder.Json
