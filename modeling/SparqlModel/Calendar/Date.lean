/-!
# Calendar dates

Dates of the Gregorian calendar for the years 1 to 9999. A date is shown with four, two and two
digits divided by hyphens.
-/

namespace SparqlModel

structure Date where
  year : Nat
  month : Nat
  day : Nat
deriving DecidableEq, Inhabited

namespace Date

def isLeap (year : Nat) : Bool :=
  year % 4 = 0 && (year % 100 ≠ 0 || year % 400 = 0)

def daysIn (year month : Nat) : Nat :=
  if month = 2 then if isLeap year then 29 else 28
  else if [4, 6, 9, 11].contains month then 30 else 31

def of? (year month day : Nat) : Option Date :=
  if 1 ≤ year && year ≤ 9999 && 1 ≤ month && month ≤ 12 && 1 ≤ day && day ≤ daysIn year month then
    some ⟨year, month, day⟩
  else none

def daysBefore (d : Date) : Nat :=
  let years := d.year - 1
  let yearDays := 365 * years + years / 4 - years / 100 + years / 400
  let monthDays := (List.range (d.month - 1)).foldl (fun n m => n + daysIn d.year (m + 1)) 0
  yearDays + monthDays + d.day - 1

def padded (width n : Nat) : String :=
  let ds := Nat.toDigits 10 n
  String.ofList (List.replicate (width - ds.length) '0' ++ ds)

def text (d : Date) : String :=
  padded 4 d.year ++ "-" ++ padded 2 d.month ++ "-" ++ padded 2 d.day

def digitsNat (cs : List Char) : Nat :=
  cs.foldl (fun n c => 10 * n + (c.toNat - 48)) 0

/-- The inverse of `text`. -/
def read? (s : String) : Option Date :=
  match s.toList with
  | [a, b, c, d, '-', m, n, '-', x, y] =>
    if [a, b, c, d, m, n, x, y].all Char.isDigit then
      of? (digitsNat [a, b, c, d]) (digitsNat [m, n]) (digitsNat [x, y])
    else none
  | _ => none

end Date

end SparqlModel
