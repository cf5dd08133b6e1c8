/-!
# Binary floating-point numbers

A finite number is a sign with `mantissa * 2 ^ exponent`, where the mantissa is below `2 ^ 53` and
the exponent is at least `-1074`; the mantissa is below `2 ^ 52` only at the least exponent, so
every number has one representation. A quotient of naturals is rounded to the nearest number, a
tie to the even mantissa. Sums and products are exact quotients rounded once.
-/

namespace SparqlModel

inductive Binary64
  | nan
  | infinite (negative : Bool)
  | finite (negative : Bool) (mantissa : Nat) (exponent : Int)
deriving DecidableEq, Inhabited

namespace Binary64

/-- The nearest natural to a quotient, a tie to the even one. -/
def roundQuotient (num den : Nat) : Nat :=
  let q := num / den
  let r := num % den
  if 2 * r < den then q
  else if den < 2 * r then q + 1
  else if q % 2 = 0 then q else q + 1

/-- The quotient `num / den` divided by `2 ^ e`, again as a quotient. -/
def shift (num den : Nat) (e : Int) : Nat × Nat :=
  if 0 ≤ e then (num, den * Nat.pow 2 e.toNat) else (num * Nat.pow 2 (-e).toNat, den)

/-- The number nearest to `num / den`. Quotients beyond the largest finite number become infinite.
-/
def ofQuotient (negative : Bool) (num den : Nat) : Binary64 :=
  if num = 0 then finite negative 0 (-1074)
  else
    let guess : Int := (Nat.log2 num : Int) - Nat.log2 den - 52
    let (a, b) := shift num den guess
    let e := max (if a < Nat.pow 2 52 * b then guess - 1 else guess) (-1074)
    let (a, b) := shift num den e
    let m := roundQuotient a b
    let (m, e) := if m = Nat.pow 2 53 then (Nat.pow 2 52, e + 1) else (m, e)
    if 971 < e then infinite negative else finite negative m e

/-- The number nearest to `digits * 10 ^ scale`. The decimal magnitude settles the values that are
far outside the range before any large power is formed. -/
def ofDecimal (negative : Bool) (digits : Nat) (scale : Int) : Binary64 :=
  let magnitude : Int := (Nat.toDigits 10 digits).length + scale
  if digits = 0 || magnitude < -400 then finite negative 0 (-1074)
  else if 400 < magnitude then infinite negative
  else if 0 ≤ scale then ofQuotient negative (digits * Nat.pow 10 scale.toNat) 1
  else ofQuotient negative digits (Nat.pow 10 (-scale).toNat)

def quotient (mantissa : Nat) (exponent : Int) : Nat × Nat :=
  if 0 ≤ exponent then (mantissa * Nat.pow 2 exponent.toNat, 1)
  else (mantissa, Nat.pow 2 (-exponent).toNat)

def toInt? : Binary64 → Option Int
  | finite negative m e =>
    let (num, den) := quotient m e
    if num % den = 0 then
      some (if negative then -((num / den : Nat) : Int) else ((num / den : Nat) : Int))
    else none
  | _ => none

def isZero : Binary64 → Bool
  | finite _ 0 _ => true
  | _ => false

def isFinite : Binary64 → Bool
  | finite .. => true
  | _ => false

/-- The number nearest to a quotient with a whole numerator. Zero has the given sign. -/
def ofSignedQuotient (negativeZero : Bool) (num : Int) (den : Nat) : Binary64 :=
  ofQuotient (if num = 0 then negativeZero else num < 0) num.natAbs den

def withMinus (negative : Bool) (n : Nat) : Int :=
  if negative then -(n : Int) else n

/-- The sum. Opposite infinities have none, and a sum of zero is negative only if both parts are. -/
def add : Binary64 → Binary64 → Binary64
  | finite s m e, finite t n f =>
    let (a, b) := quotient m e
    let (c, d) := quotient n f
    ofSignedQuotient (s && t) (withMinus s (a * d) + withMinus t (c * b)) (b * d)
  | nan, _ => nan
  | _, nan => nan
  | infinite s, infinite t => if s == t then infinite s else nan
  | infinite s, _ => infinite s
  | _, infinite t => infinite t

def mulPositive : Binary64 → Binary64 → Binary64
  | finite s m e, finite _ n f =>
    let (a, b) := quotient m e
    let (c, d) := quotient n f
    ofQuotient s (a * c) (b * d)
  | nan, _ => nan
  | _, nan => nan
  | finite _ 0 _, _ => nan
  | finite s .., _ => infinite s
  | infinite s, _ => infinite s

def ofNat (n : Nat) : Binary64 :=
  ofQuotient false n 1

def negate : Binary64 → Binary64
  | nan => nan
  | infinite s => infinite (!s)
  | finite s m e => finite (!s) m e

end Binary64

end SparqlModel
