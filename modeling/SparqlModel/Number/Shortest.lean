import SparqlModel.Number.Binary64

/-!
# Decimal text of binary numbers

The written digits are the fewest that read back to the same number, and of those the nearest to
it. Exponents from `-4` to `15` are written positionally, always with a decimal point; all others
use a mantissa and an exponent of at least two digits with its sign. Reading accepts a sign,
digits with an optional point, and an optional exponent.
-/

namespace SparqlModel

namespace Binary64

/-- Least `p` with `num / den < 10 ^ p`, for a quotient that is not zero. The bound covers all
finite numbers below one. -/
def decimalPlace (num den : Nat) : Int :=
  if den ≤ num then ((Nat.toDigits 10 (num / den)).length : Int)
  else go 400 num 0
where
  go : Nat → Nat → Nat → Int
    | 0, _, zeros => -(zeros : Int)
    | fuel + 1, n, zeros => if den ≤ n * 10 then -(zeros : Int) else go fuel (n * 10) (zeros + 1)

def decimalQuotient (c : Nat) (k : Int) : Nat × Nat :=
  if 0 ≤ k then (c * Nat.pow 10 k.toNat, 1) else (c, Nat.pow 10 (-k).toNat)

/-- A quotient lies in the interval of reals that round to `m * 2 ^ e`. Its ends belong to it when
the mantissa is even, and below a power of two it reaches only half as far. -/
def roundsTo (m : Nat) (e : Int) (num den : Nat) : Bool :=
  let low := 4 * m - (if m = Nat.pow 2 52 && -1074 < e then 1 else 2)
  let high := 4 * m + 2
  let (la, lb) := quotient low (e - 2)
  let (ha, hb) := quotient high (e - 2)
  if m % 2 = 0 then la * den ≤ num * lb && num * hb ≤ ha * den
  else la * den < num * lb && num * hb < ha * den

/-- Of the two neighbours of a number on the grid `10 ^ k`, the nearer one that rounds to it. -/
def nearestOnGrid? (m : Nat) (e k : Int) : Option Nat :=
  let (num, den) := quotient m e
  let (one, unit) := decimalQuotient 1 k
  let c := num * unit / (den * one)
  let fits := fun c => let (a, b) := decimalQuotient c k; roundsTo m e a b
  let below := num * unit - c * (den * one)
  let above := (c + 1) * (den * one) - num * unit
  match fits c, fits (c + 1) with
  | true, true =>
    if below < above then some c
    else if above < below then some (c + 1)
    else if c % 2 = 0 then some c else some (c + 1)
  | true, false => some c
  | false, true => some (c + 1)
  | false, false => none

/-- The fewest digits of a positive number that read back, with their decimal scale. -/
def shortestDigits (m : Nat) (e : Int) : Nat × Int :=
  let (num, den) := quotient m e
  let place := decimalPlace num den
  let grids := (List.range 17).map fun (n : Nat) => place - 1 - (n : Int)
  match grids.findSome? fun k => (nearestOnGrid? m e k).map fun c => (c, k) with
  | some r => r
  | none => (num / den, 0)

def dropZeros (ds : List Char) : List Char :=
  (ds.reverse.dropWhile (· == '0')).reverse

/-- The text of an exponent: its sign and at least two digits. -/
def exponentText (n : Int) : List Char :=
  let ds := Nat.toDigits 10 n.natAbs
  (if n < 0 then '-' else '+') :: (if ds.length < 2 then '0' :: ds else ds)

/-- Digits with the place of the decimal point, counted from the front of the digits. -/
def layout (ds : List Char) (point : Int) : List Char :=
  if -4 < point && point ≤ 16 then
    if point ≤ 0 then '0' :: '.' :: List.replicate (-point).toNat '0' ++ ds
    else if (ds.length : Int) ≤ point then
      ds ++ List.replicate (point.toNat - ds.length) '0' ++ ['.', '0']
    else ds.take point.toNat ++ '.' :: ds.drop point.toNat
  else
    match ds with
    | [] => []
    | [d] => d :: 'e' :: exponentText (point - 1)
    | d :: rest => d :: '.' :: rest ++ 'e' :: exponentText (point - 1)

def magnitudeText (m : Nat) (e : Int) : List Char :=
  if m = 0 then ['0', '.', '0']
  else
    let (c, k) := shortestDigits m e
    let ds := Nat.toDigits 10 c
    layout (dropZeros ds) (k + ds.length)

def text : Binary64 → String
  | nan => "nan"
  | infinite negative => if negative then "-inf" else "inf"
  | finite negative m e =>
    let ds := magnitudeText m e
    String.ofList (if negative then '-' :: ds else ds)

def digitsValue (ds : List Char) : Nat :=
  ds.foldl (fun n c => 10 * n + (c.toNat - 48)) 0

/-- The exponent part of a decimal number, which may be absent. -/
def readExponent? : List Char → Option Int
  | [] => some 0
  | 'e' :: '-' :: ds =>
    if ds.isEmpty || !ds.all Char.isDigit then none else some (-(digitsValue ds : Int))
  | 'e' :: '+' :: ds => if ds.isEmpty || !ds.all Char.isDigit then none else some (digitsValue ds)
  | 'e' :: ds => if ds.isEmpty || !ds.all Char.isDigit then none else some (digitsValue ds)
  | _ => none

/-- An unsigned decimal number: digits with an optional point, at least one of them, and an optional
exponent after a small `e`. -/
def readMagnitude? (cs : List Char) : Option Binary64 := do
  let whole := cs.takeWhile Char.isDigit
  let rest := cs.dropWhile Char.isDigit
  let (fraction, rest) := match rest with
    | '.' :: rest => (rest.takeWhile Char.isDigit, rest.dropWhile Char.isDigit)
    | _ => ([], rest)
  if whole.isEmpty && fraction.isEmpty then none
  else
    let e ← readExponent? rest
    return ofDecimal false (digitsValue (whole ++ fraction)) (e - fraction.length)

/-- A decimal number with an optional minus sign, an infinity, or the value that is no number. -/
def read? (s : String) : Option Binary64 :=
  match s.toList with
  | ['n', 'a', 'n'] => some nan
  | ['i', 'n', 'f'] => some (infinite false)
  | ['-', 'i', 'n', 'f'] => some (infinite true)
  | '-' :: cs => (readMagnitude? cs).map negate
  | cs => readMagnitude? cs

end Binary64

end SparqlModel
