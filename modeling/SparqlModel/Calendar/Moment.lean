import SparqlModel.Calendar.Date

/-!
# Moments

A moment is a date with a time of day, to the millionth of a second. It may have an offset from
universal time, in minutes; two moments with an offset are the same if they denote the same instant.
-/

namespace SparqlModel

structure Moment where
  date : Date
  hour : Nat
  minute : Nat
  second : Nat
  micro : Nat
  offset : Option Int
deriving DecidableEq, Inhabited

namespace Moment

/-- The moment with the given numbers, if there is one. An offset is less than a day. -/
def of? (date : Date) (hour minute second micro : Nat) (offset : Option Int) : Option Moment :=
  if hour < 24 && minute < 60 && second < 60 && micro < 1000000
      && offset.all fun m => m.natAbs < 24 * 60 then
    some ⟨date, hour, minute, second, micro, offset⟩
  else none

def minutes (m : Moment) : Int :=
  (((m.date.daysBefore * 24 + m.hour) * 60 + m.minute : Nat) : Int) - m.offset.getD 0

/-- A moment with an offset is never the same as one without. -/
def isSame (a b : Moment) : Bool :=
  a.offset.isSome == b.offset.isSome && a.minutes == b.minutes && a.second == b.second
    && a.micro == b.micro

def offsetText (minutes : Int) : String :=
  (if minutes < 0 then "-" else "+") ++ Date.padded 2 (minutes.natAbs / 60) ++ ":"
    ++ Date.padded 2 (minutes.natAbs % 60)

/-- The date, the time of day, the fraction of the second if it is not zero, and the offset, with
a given mark between the date and the time. -/
def textWith (mark : String) (m : Moment) : String :=
  m.date.text ++ mark ++ Date.padded 2 m.hour ++ ":" ++ Date.padded 2 m.minute ++ ":"
    ++ Date.padded 2 m.second
    ++ (if m.micro = 0 then "" else "." ++ Date.padded 6 m.micro)
    ++ (m.offset.map offsetText).getD ""

def text (m : Moment) : String :=
  m.textWith " "

/-- The numbers of a moment. Seconds and millionths are left out from the end while they are
zero. -/
def numbers (m : Moment) : List Nat :=
  [m.date.year, m.date.month, m.date.day, m.hour, m.minute]
    ++ (if m.micro = 0 then if m.second = 0 then [] else [m.second] else [m.second, m.micro])

end Moment

end SparqlModel
