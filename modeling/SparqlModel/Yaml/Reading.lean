import SparqlModel.Number.Shortest
import SparqlModel.Text.Base64
import SparqlModel.Text.Digit
import SparqlModel.Yaml.Kind

/-!
# Values of scalars

The value of a scalar of a given type. The form of the scalar decides nothing any more: white space
may stand around a number, and digits may be those of any script. A text that denotes no value of
the type is refused.
-/

namespace SparqlModel.Yaml

def dropUnderscores (cs : List Char) : List Char :=
  cs.filter (· != '_')

/-- A number without white space around it, and with the digits of the basic alphabet. -/
def normalNumber (cs : List Char) : List Char :=
  (Text.trimBy Text.isNumberBlank cs).map fun c =>
    match Text.digitValue? c with
    | some d => Char.ofNat (48 + d)
    | none => c

def signed (negative : Bool) (n : Int) : Int :=
  if negative then -n else n

/-! ## Whole numbers -/

/-- The digits after the mark of a base, which may be left out. -/
def afterMark (mark : Char) : List Char → List Char
  | '0' :: c :: ds => if c.toLower == mark then ds else '0' :: c :: ds
  | ds => ds

/-- A number with an optional sign in a base of at most sixteen, whose mark is a letter. -/
def inBase (base : Nat) (mark : Char) (cs : List Char) : Except Error Int :=
  let (negative, body) := splitSign (normalNumber cs)
  match (afterMark mark body).mapM hexValue? with
  | none | some [] => .error .unreadable
  | some ds =>
    let n : Nat := ds.foldl (fun n d => base * n + d) 0
    if ds.all (· < base) then .ok (signed negative n) else .error .unreadable

/-- A decimal number with an optional sign. -/
def decimal (cs : List Char) : Except Error Int :=
  match Text.readInt? (normalNumber cs) with
  | some n => .ok n
  | none => .error .unreadable

/-- A number whose parts count in sixties. -/
def sixties (parts : List (List Char)) : Except Error Int := do
  let ns ← parts.mapM decimal
  return ns.foldl (fun n d => 60 * n + d) 0

/-- A whole number after its first sign. A zero before further digits stands for the base eight. -/
def readMagnitude (cs : List Char) : Except Error Int :=
  match cs with
  | [] => .error .emptyNumber
  | ['0'] => .ok 0
  | '0' :: 'b' :: ds => inBase 2 'b' ds
  | '0' :: 'x' :: ds => inBase 16 'x' ds
  | '0' :: _ => inBase 8 'o' cs
  | cs => if cs.contains ':' then sixties (Text.splitOn ':' cs) else decimal cs

def readInt (s : String) : Except Error Int :=
  let (negative, body) := splitSign (dropUnderscores s.toList)
  (readMagnitude body).map (signed negative)

/-! ## Numbers with a fraction -/

def withSign (negative : Bool) (x : Binary64) : Binary64 :=
  if negative then x.negate else x

/-- A number with an optional sign, in small letters. -/
def fraction (cs : List Char) : Except Error Binary64 :=
  let (negative, body) := splitSign (normalNumber cs)
  let text := String.ofList body
  if text == "inf" || text == "infinity" then .ok (.infinite negative)
  else if text == "nan" then .ok .nan
  else
    match Binary64.readMagnitude? body with
    | some x => .ok (withSign negative x)
    | none => .error .unreadable

/-- Add up numbers that count in sixties, the last of them first, from a weight on. A weight beyond
all floating-point numbers cannot be applied. -/
def addWeighted (sum : Binary64) (weight : Nat) : List Binary64 → Except Error Binary64
  | [] => .ok sum
  | x :: rest =>
    let factor := Binary64.ofNat weight
    if factor.isFinite then addWeighted (sum.add (x.mulPositive factor)) (60 * weight) rest
    else .error .overflow

/-- Add up parts that count in sixties. -/
def addSixties (parts : List (List Char)) : Except Error Binary64 := do
  let xs ← parts.mapM fraction
  addWeighted (.finite false 0 (-1074)) 1 xs.reverse

/-- A minus sign, and the rest of a number in small letters. -/
def splitFloat (s : String) : Bool × List Char :=
  splitSign ((dropUnderscores s.toList).map Char.toLower)

def isNanWord (s : String) : Bool :=
  String.ofList (splitFloat s).2 == ".nan"

def readFloat (s : String) : Except Error Binary64 :=
  let (negative, body) := splitFloat s
  if (dropUnderscores s.toList).isEmpty then .error .emptyNumber
  else if String.ofList body == ".inf" then .ok (.infinite negative)
  else if isNanWord s then .ok .nan
  else
    let parts := Text.splitOn ':' body
    (if 1 < parts.length then addSixties parts else fraction body).map (withSign negative)

/-! ## Other types -/

/-- The words for truth values in any case. -/
def readTruth (s : String) : Except Error Bool :=
  let word := s.map Char.toLower
  if truths.contains word then .ok true
  else if falsehoods.contains word then .ok false
  else .error .unknownTruth

/-- A date, whether or not its month and day have two digits, or a moment. -/
def readDate (s : String) : Except Error Scalar :=
  match Stamp.read? (dropFinalBreak s.toList) with
  | none => .error .formlessDate
  | some stamp =>
    match stamp.value? with
    | some v => .ok v
    | none => .error .unreadable

/-- Bytes are written in the basic alphabet. -/
def readBytes (s : String) : Except Error (List UInt8) :=
  match Text.base64? s with
  | some bs => if s.toList.all fun c => c.toNat < 128 then .ok bs else .error .malformed
  | none => .error .malformed

/-- The value of a scalar of a type. The reserved types and those of collections have none. -/
def Kind.read (kind : Kind) (s : String) : Except Error Scalar :=
  match kind with
  | .text => .ok (.text s)
  | .null => .ok .null
  | .truth => (readTruth s).map .bool
  | .int => (readInt s).map .int
  | .float => (readFloat s).map .float
  | .date => readDate s
  | .bytes => (readBytes s).map .bytes
  | _ => .error .malformed

end SparqlModel.Yaml
