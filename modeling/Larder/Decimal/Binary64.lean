/-! Nonnegative doubles as exact numbers: a mantissa below 2^53 times a power of two from
2^-1074 to 2^971. Every operation rounds the exact result to the nearest such number, a tie
to the even mantissa; what would lie beyond the largest one has no result. -/

namespace Larder.Decimal

structure Binary64 where
  mantissa : Nat
  exponent : Int
  deriving DecidableEq, Repr

namespace Binary64

/-- 2^52, the least mantissa of a double that is not in the least unit. -/
def leastNormal : Nat := 4503599627370496

def least : Int := -1074

def greatest : Int := 971

def zero : Binary64 := ⟨0, least⟩

/-- The quotient in units of 2^e, as a fraction. -/
def inUnits (num den : Nat) (e : Int) : Nat × Nat :=
  if 0 ≤ e then (num, den * Nat.pow 2 e.toNat) else (num * Nat.pow 2 (-e).toNat, den)

/-- The nearest whole number to a quotient, a tie to the even one. -/
def roundHalfEven (num den : Nat) : Nat :=
  let q := num / den
  let r := num % den
  if 2 * r < den then q
  else if den < 2 * r then q + 1
  else if q % 2 = 0 then q
  else q + 1

/-- The unit in which the quotient has 53 bits, or the least one. -/
def unitOf (num den : Nat) : Int :=
  let low := max ((Nat.log2 num : Int) - Nat.log2 den - 53) least
  let (n, d) := inUnits num den low
  if 2 * leastNormal ≤ n / d then low + 1 else low

def ofQuotient? (num den : Nat) : Option Binary64 :=
  if num = 0 then some zero
  else
    let e := unitOf num den
    let (n, d) := inUnits num den e
    let m := roundHalfEven n d
    let b : Binary64 := if m = 2 * leastNormal then ⟨leastNormal, e + 1⟩ else ⟨m, e⟩
    if greatest < b.exponent then none else some b

def ofNat? (n : Nat) : Option Binary64 := ofQuotient? n 1

/-- The nearest double to `num / den * 2 ^ e`. -/
def ofScaled? (num den : Nat) (e : Int) : Option Binary64 :=
  if 0 ≤ e then ofQuotient? (num * Nat.pow 2 e.toNat) den
  else ofQuotient? num (den * Nat.pow 2 (-e).toNat)

def mul? (a b : Binary64) : Option Binary64 :=
  ofScaled? (a.mantissa * b.mantissa) 1 (a.exponent + b.exponent)

def div? (a b : Binary64) : Option Binary64 :=
  ofScaled? a.mantissa b.mantissa (a.exponent - b.exponent)

/-- The double nearest to a power of ten; all up to 10^308 have one. -/
def powerOfTen (k : Nat) : Binary64 := (ofNat? (Nat.pow 10 k)).getD zero

/-- Multiplies by a power of ten with one rounding, or with one rounding for each factor of
10^308 that has to be divided out first. -/
def scaleByTen? (f : Binary64) : Nat → Int → Option Binary64
  | 0, _ => some f
  | fuel + 1, e =>
    if e.natAbs ≤ 308 then
      if 0 ≤ e then f.mul? (powerOfTen e.natAbs) else f.div? (powerOfTen e.natAbs)
    else if f.mantissa = 0 then some f
    else if 0 ≤ e then none
    else
      match f.div? (powerOfTen 308) with
      | none => none
      | some f => scaleByTen? f fuel (e + 308)

/-- `significand * 10 ^ e`: the significand is rounded first, and then the product. -/
def ofParts? (significand : Nat) (e : Int) : Option Binary64 :=
  match ofNat? significand with
  | none => none
  | some f => f.scaleByTen? (e.natAbs / 308 + 1) e

/-- The quotient of two counts, each rounded before the division; 0 when the second is 0. -/
def ratio (num den : Nat) : Binary64 :=
  if den = 0 then zero
  else
    match ofNat? num, ofNat? den with
    | some a, some b => (a.div? b).getD zero
    | _, _ => zero

end Binary64

end Larder.Decimal
