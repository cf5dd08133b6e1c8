import SparqlModel.Text.Split
import SparqlModel.Yaml.Property
import SparqlModel.Yaml.Stamp

/-!
# Types of nodes

A tag names the type of a node. Without a tag, a quoted scalar is text, and a plain one has the
type of its form: a truth value, null, a number, a date, and otherwise text. Whole numbers may be
binary, octal, decimal, hexadecimal or counted in sixties, and underscores may stand among their
digits. The forms `<<` and `=` are reserved. One line feed at the end of a scalar does not change
its form.
-/

namespace SparqlModel.Yaml

inductive Kind
  | text
  | null
  | truth
  | int
  | float
  | date
  | bytes
  | merge
  | value
  | sequence
  | pairs
  | mapping
  | set
  | unknown
deriving DecidableEq

def truths : List String := ["yes", "Yes", "YES", "true", "True", "TRUE", "on", "On", "ON"]

def falsehoods : List String := ["no", "No", "NO", "false", "False", "FALSE", "off", "Off", "OFF"]

def nulls : List String := ["", "~", "null", "Null", "NULL"]

def infinities : List String := [".inf", ".Inf", ".INF"]

def nans : List String := [".nan", ".NaN", ".NAN"]

/-- A minus sign, and the text without its sign. -/
def splitSign : List Char → Bool × List Char
  | '-' :: cs => (true, cs)
  | '+' :: cs => (false, cs)
  | cs => (false, cs)

/-- A non-empty run over an alphabet to which the underscore belongs. -/
def isRun (alphabet : Char → Bool) (cs : List Char) : Bool :=
  !cs.isEmpty && cs.all fun c => alphabet c || c == '_'

/-- A run of digits that does not start with an underscore. -/
def isNumeral : List Char → Bool
  | [] => false
  | c :: cs => c.isDigit && cs.all fun c => c.isDigit || c == '_'

/-- A number below sixty, of one or two digits. -/
def isSixtieth : List Char → Bool
  | [c] => c.isDigit
  | [c, d] => '0' ≤ c && c ≤ '5' && d.isDigit
  | _ => false

def isOctal (c : Char) : Bool :=
  '0' ≤ c && c ≤ '7'

def isBinary (c : Char) : Bool :=
  c == '0' || c == '1'

/-- The form of a whole number without its sign. -/
def isMagnitude : List Char → Bool
  | ['0'] => true
  | '0' :: 'b' :: ds => isRun isBinary ds
  | '0' :: 'x' :: ds => isRun (fun c => (hexValue? c).isSome) ds
  | '0' :: ds => isRun isOctal ds
  | cs =>
    match Text.splitOn ':' cs with
    | head :: rest => isNumeral head && rest.all isSixtieth
    | [] => false

def isInt (cs : List Char) : Bool :=
  isMagnitude (splitSign cs).2

/-- An exponent, which needs a sign, or nothing. -/
def isExponent : List Char → Bool
  | [] => true
  | c :: d :: ds =>
    (c == 'e' || c == 'E') && (d == '-' || d == '+') && !ds.isEmpty && ds.all Char.isDigit
  | _ => false

/-- What may follow the point of a decimal fraction: digits and an exponent. -/
def isFraction (cs : List Char) : Bool :=
  isExponent (cs.dropWhile fun c => c.isDigit || c == '_')

/-- A decimal fraction without its sign. A sign is allowed only before a digit. -/
def isDecimal (hasSign : Bool) (cs : List Char) : Bool :=
  match cs.dropWhile fun c => c.isDigit || c == '_' with
  | '.' :: rest =>
    if cs.head?.any Char.isDigit then isFraction rest
    else !hasSign && cs.head? == some '.' && rest.head?.any Char.isDigit && isFraction rest
  | _ => false

/-- A fraction that counts in sixties: whole parts, a point and digits. -/
def isSixtiesFraction (cs : List Char) : Bool :=
  match cs.dropWhile (· != '.') with
  | '.' :: rest =>
    match Text.splitOn ':' (cs.takeWhile (· != '.')) with
    | head :: next :: more =>
      isNumeral head && (next :: more).all isSixtieth && rest.all fun c => c.isDigit || c == '_'
    | _ => false
  | _ => false

def isFloat (cs : List Char) : Bool :=
  let (_, body) := splitSign cs
  let hasSign := body.length != cs.length
  let text := String.ofList body
  infinities.contains text || (!hasSign && nans.contains text) || isDecimal hasSign body
    || isSixtiesFraction body

/-- A date alone needs two digits for the month and the day. -/
def isDate (cs : List Char) : Bool :=
  (Stamp.read? cs).any fun s => s.isPadded || s.clock.isSome

/-- A text without a line feed at its end. A line feed alone is kept. -/
def dropFinalBreak (cs : List Char) : List Char :=
  match cs.reverse with
  | '\n' :: c :: rest => (c :: rest).reverse
  | _ => cs

namespace Kind

def ofPlain (s : String) : Kind :=
  let cs := dropFinalBreak s.toList
  let word := String.ofList cs
  if truths.contains word || falsehoods.contains word then truth
  else if isFloat cs then float
  else if isInt cs then int
  else if word == "<<" then merge
  else if nulls.contains word then null
  else if isDate cs then date
  else if word == "=" then value
  else text

def tags : List (String × Kind) :=
  [("str", text), ("null", null), ("bool", truth), ("int", int), ("float", float),
    ("timestamp", date), ("binary", bytes), ("merge", merge), ("value", value), ("seq", sequence),
    ("omap", pairs), ("pairs", pairs), ("map", mapping), ("set", set)]

def ofTag (tag : String) : Kind :=
  ((tags.find? fun e => standardTag e.1 == tag).map (·.2)).getD unknown

end Kind

end SparqlModel.Yaml
