import SparqlModel.Number.Shortest
import SparqlModel.Text.Digit
import SparqlModel.Text.Quoted
import SparqlModel.Value.Basic

/-!
# Text of configuration data

A scalar that stands alone is shown plainly. Inside a list or a mapping, text is quoted and a date
or moment is written as a constructor call; lists stand in square brackets, pairs in round ones,
mappings and sets in braces. A collection inside of itself is shown as its brackets with dots
between them.

A whole number with more digits than can be read back has no text, nor has a collection that holds
one.
-/

namespace SparqlModel

/-- Texts in order, divided by a comma and a space. -/
def commaList (parts : List String) : String :=
  ", ".intercalate parts

def numberList (numbers : List Nat) : String :=
  commaList (numbers.map fun n => toString n)

/-- The constructor call of an offset in minutes. A negative offset is a day less and the seconds of
the rest. -/
def zoneText (minutes : Int) : String :=
  if minutes = 0 then "datetime.timezone.utc"
  else
    "datetime.timezone(datetime.timedelta("
      ++ (if minutes < 0 then "days=-1, seconds=" ++ toString (86400 + 60 * minutes)
        else "seconds=" ++ toString (60 * minutes)) ++ "))"

namespace Scalar

def display : Scalar → String
  | null => "None"
  | bool b => if b then "True" else "False"
  | int n => toString n
  | float x => x.text
  | date d => d.text
  | moment m => m.text
  | bytes bs => Text.quotedBytes bs
  | text s => s

/-- The form of a scalar inside a collection. -/
def quoted : Scalar → String
  | date d => "datetime.date(" ++ numberList [d.year, d.month, d.day] ++ ")"
  | moment m =>
    "datetime.datetime(" ++ numberList m.numbers
      ++ (m.offset.map fun minutes => ", tzinfo=" ++ zoneText minutes).getD "" ++ ")"
  | text s => Text.quoted s
  | s => s.display

/-- The scalars other than whole numbers with too many digits. -/
def hasText : Scalar → Bool
  | int n => n.natAbs < Nat.pow 10 Text.digitLimit
  | _ => true

def display? (s : Scalar) : Option String :=
  if s.hasText then some s.display else none

end Scalar

namespace Value

def dots : Value → String
  | map _ => "\x7b...\x7d"
  | pair .. => "(...)"
  | _ => "[...]"

mutual

/-- The form of a value inside a collection. The knots around it are given by their numbers, with
their dots. -/
def quotedIn (around : List (Nat × String)) : Value → String
  | scalar s => s.quoted
  | list items => "[" ++ commaList (quotedItems around items) ++ "]"
  | map entries => "\x7b" ++ commaList (quotedEntries around entries) ++ "\x7d"
  | set [] => "set()"
  | set members => "\x7b" ++ commaList (members.map Scalar.quoted) ++ "\x7d"
  | pair first second =>
    "(" ++ commaList [quotedIn around first, quotedIn around second] ++ ")"
  | knot number content =>
    if (around.lookup number).isSome then content.dots
    else quotedIn ((number, content.dots) :: around) content
  | again number => (around.lookup number).getD "..."

def quotedItems (around : List (Nat × String)) : List Value → List String
  | [] => []
  | v :: rest => quotedIn around v :: quotedItems around rest

def quotedEntries (around : List (Nat × String)) : List (Scalar × Value) → List String
  | [] => []
  | (k, v) :: rest => (k.quoted ++ ": " ++ quotedIn around v) :: quotedEntries around rest

end

def quoted (v : Value) : String :=
  quotedIn [] v

def display : Value → String
  | scalar s => s.display
  | v => v.quoted

mutual

def hasText : Value → Bool
  | scalar s => s.hasText
  | list items => itemsHaveText items
  | map entries => entriesHaveText entries
  | set members => members.all Scalar.hasText
  | pair first second => first.hasText && second.hasText
  | knot _ content => content.hasText
  | again _ => true

def itemsHaveText : List Value → Bool
  | [] => true
  | v :: rest => v.hasText && itemsHaveText rest

def entriesHaveText : List (Scalar × Value) → Bool
  | [] => true
  | (k, v) :: rest => k.hasText && v.hasText && entriesHaveText rest

end

def display? (v : Value) : Option String :=
  if v.hasText then some v.display else none

end Value

end SparqlModel
