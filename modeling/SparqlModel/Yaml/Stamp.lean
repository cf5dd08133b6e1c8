import SparqlModel.Value.Basic
import SparqlModel.Yaml.Source

/-!
# Dates and moments in scalars

A date is a year of four digits, a month and a day, divided by hyphens. A time of day may follow
after the letter `T` or blanks, with a fraction of a second and an offset from universal time, for
which `Z` stands if it is zero. What has the form of a date need not be in the calendar.
-/

namespace SparqlModel.Yaml

/-- A time of day as it is written, with the offset in minutes. -/
structure Clock where
  hour : Nat
  minute : Nat
  second : Nat
  fraction : List Char
  offset : Option Int

/-- A date as it is written, whose month and day may have one digit or two. -/
structure Stamp where
  year : Nat
  month : Nat
  day : Nat
  isPadded : Bool
  clock : Option Clock

namespace Stamp

/-- A number of one or two digits, and what follows it. -/
def shortNumber? (cs : List Char) : Option (List Char × List Char) :=
  let digits := (cs.take 2).takeWhile Char.isDigit
  if digits.isEmpty then none else some (digits, cs.drop digits.length)

/-- A number of exactly two digits, and what follows it. -/
def twoDigits? : List Char → Option (Nat × List Char)
  | a :: b :: rest =>
    if a.isDigit && b.isDigit then some (Date.digitsNat [a, b], rest) else none
  | _ => none

/-- Pass over one given character. -/
def skip? (mark : Char) : List Char → Option (List Char)
  | c :: rest => if c == mark then some rest else none
  | [] => none

def isSpace (c : Char) : Bool :=
  c == ' ' || c == '\t'

def offsetMinutes? (cs : List Char) : Option Int := do
  let (hours, rest) ← shortNumber? cs
  let hours : Int := 60 * Date.digitsNat hours
  if rest.isEmpty then return hours
  else
    let (minutes, rest) ← twoDigits? (← skip? ':' rest)
    if rest.isEmpty then return hours + minutes else none

/-- What stands after the seconds and their fraction: nothing or an offset. -/
def zone? (cs : List Char) : Option (Option Int) :=
  if cs.isEmpty then some none
  else
    match cs.dropWhile isSpace with
    | ['Z'] => some (some 0)
    | '+' :: rest => (offsetMinutes? rest).map some
    | '-' :: rest => (offsetMinutes? rest).map fun m => some (-m)
    | _ => none

/-- A time of day to the end of the text. -/
def clock? (cs : List Char) : Option Clock := do
  let (hour, rest) ← shortNumber? cs
  let (minute, rest) ← twoDigits? (← skip? ':' rest)
  let (second, rest) ← twoDigits? (← skip? ':' rest)
  let (fraction, rest) := match rest with
    | '.' :: rest => (rest.takeWhile Char.isDigit, rest.dropWhile Char.isDigit)
    | rest => ([], rest)
  let offset ← zone? rest
  return ⟨Date.digitsNat hour, minute, second, fraction, offset⟩

/-- What stands after a date: nothing, or a mark and a time of day. -/
def afterDate? : List Char → Option (Option Clock)
  | [] => some none
  | c :: rest =>
    if c == 'T' || c == 't' then (clock? rest).map some
    else if isSpace c then (clock? (rest.dropWhile isSpace)).map some
    else none

/-- A text of the form of a date, with or without a time of day. -/
def read? (cs : List Char) : Option Stamp := do
  let year := cs.take 4
  if year.length = 4 && year.all Char.isDigit then
    let (month, rest) ← shortNumber? (← skip? '-' (cs.drop 4))
    let (day, rest) ← shortNumber? (← skip? '-' rest)
    let clock ← afterDate? rest
    return ⟨Date.digitsNat year, Date.digitsNat month, Date.digitsNat day,
      month.length = 2 && day.length = 2, clock⟩
  else none

/-- A fraction of a second in millionths. Further digits are dropped. -/
def millionths (fraction : List Char) : Nat :=
  let digits := fraction.take 6
  Date.digitsNat (digits ++ List.replicate (6 - digits.length) '0')

def value? (s : Stamp) : Option Scalar := do
  let date ← Date.of? s.year s.month s.day
  match s.clock with
  | none => return .date date
  | some c =>
    (Moment.of? date c.hour c.minute c.second (millionths c.fraction) c.offset).map .moment

end Stamp

end SparqlModel.Yaml
