import Larder.Decimal.Binary64

/-! The fewest decimal digits that read back as a given double, and of those the nearest. All
comparisons are made on whole numbers: the double, the ends of the interval that rounds to it
and the candidates are multiples of one common unit. The text is positional when the leading
digit stands between 10^-5 and 10^15, with a fraction even if it is zero, and in exponent form
otherwise. -/

namespace Larder.Decimal

/-- The reals that round to a double, times 4 and in units of `num / den`: `low ≤ value ≤ high`,
where the ends belong to it exactly if the mantissa is even. -/
structure Interval where
  low : Nat
  value : Nat
  high : Nat
  closed : Bool
  num : Nat
  den : Nat

def Interval.of (b : Binary64) : Interval :=
  let e := b.exponent - 2
  { low :=
      if b.mantissa = Binary64.leastNormal ∧ Binary64.least < b.exponent then 4 * b.mantissa - 1
      else 4 * b.mantissa - 2
    value := 4 * b.mantissa
    high := 4 * b.mantissa + 2
    closed := b.mantissa % 2 = 0
    num := if 0 ≤ e then Nat.pow 2 e.toNat else 1
    den := if 0 ≤ e then 1 else Nat.pow 2 (-e).toNat }

/-- Both sides of a comparison between `x` units and `c * 10 ^ k`. -/
def Interval.sides (i : Interval) (x c : Nat) (k : Int) : Nat × Nat :=
  if 0 ≤ k then (x * i.num, c * Nat.pow 10 k.toNat * i.den)
  else (x * i.num * Nat.pow 10 (-k).toNat, c * i.den)

def Interval.contains (i : Interval) (c : Nat) (k : Int) : Bool :=
  let (low, c₁) := i.sides i.low c k
  let (high, c₂) := i.sides i.high c k
  if i.closed then low ≤ c₁ && c₂ ≤ high else low < c₁ && c₂ < high

/-- The last grid point of 10^k not above the value. -/
def Interval.floor (i : Interval) (k : Int) : Nat :=
  let (v, unit) := i.sides i.value 1 k
  v / unit

def Interval.atLeast (i : Interval) (k : Int) : Bool :=
  let (v, unit) := i.sides i.value 1 k
  unit ≤ v

/-- The place of the value's first digit. -/
def leadingPlace (b : Binary64) (i : Interval) : Int :=
  let guess := (b.exponent + Nat.log2 b.mantissa) * 30103 / 100000
  if i.atLeast (guess + 1) then guess + 1
  else if i.atLeast guess then guess
  else guess - 1

/-- Of the two neighbours of the value on the grid of 10^k, the one that reads back; if both do,
the nearer, and of two equally near the even one. -/
def Interval.pick? (i : Interval) (k : Int) : Option Nat :=
  let c := i.floor k
  match i.contains c k, i.contains (c + 1) k with
  | false, false => none
  | true, false => some c
  | false, true => some (c + 1)
  | true, true =>
    let (v, below) := i.sides i.value c k
    let (_, above) := i.sides i.value (c + 1) k
    if v - below < above - v then some c
    else if above - v < v - below then some (c + 1)
    else if c % 2 = 0 then some c
    else some (c + 1)

/-- A count of digits is tried after all smaller ones; seventeen are always enough. -/
def searchDigits (i : Interval) (place : Int) : Nat → Nat → Nat × Int
  | 0, n => (i.floor (place - n), place - n)
  | fuel + 1, n =>
    match i.pick? (place - n) with
    | some c => (c, place - n)
    | none => searchDigits i place fuel (n + 1)

def dropZeros : Nat → Nat → Int → Nat × Int
  | 0, c, k => (c, k)
  | fuel + 1, c, k => if c % 10 = 0 then dropZeros fuel (c / 10) (k + 1) else (c, k)

/-- `c` and `k` with `c * 10 ^ k` the shortest decimal, `c` without trailing zeros. -/
def shortest (b : Binary64) : Nat × Int :=
  if b.mantissa = 0 then (0, 0)
  else
    let i := Interval.of b
    let (c, k) := searchDigits i (leadingPlace b i) 17 0
    dropZeros 20 c k

def zeros (n : Nat) : List Char := List.replicate n '0'

def exponentText (x : Int) : List Char :=
  'e' :: (if x < 0 then '-' else '+') :: Nat.toDigits 10 x.natAbs

def layOut (digits : List Char) (k : Int) : List Char :=
  let place := k + digits.length - 1
  if -5 ≤ place ∧ place ≤ 15 then
    if 0 ≤ k then digits ++ zeros k.toNat ++ ['.', '0']
    else if 0 ≤ place then
      digits.take (place.toNat + 1) ++ '.' :: digits.drop (place.toNat + 1)
    else ['0', '.'] ++ zeros ((-place).toNat - 1) ++ digits
  else
    match digits with
    | [d] => d :: exponentText place
    | d :: ds => d :: '.' :: ds ++ exponentText place
    | [] => []

def Binary64.text (b : Binary64) : List Char :=
  let (c, k) := shortest b
  layOut (Nat.toDigits 10 c) k

end Larder.Decimal
