import SparqlModel.Record.Issue
import SparqlModel.Text.Digit

/-!
# Whole numbers in text fields

A text is first read as it stands, as a number in its shortest decimal form. A text that is not in
this form is simplified once, by leaving out white space, zeros and underscores that do not change
the number, and then has to be in it.
-/

namespace SparqlModel.Record

open Check

/-- The parts of a text in which a number in shortest form would stand: the minus sign, the digits,
and what follows them. A zero is never followed by further digits. -/
def splitShortest (cs : List Char) : Bool × List Char × List Char :=
  let (negative, rest) := match cs with
    | '-' :: rest => (true, rest)
    | _ => (false, cs)
  match rest with
  | '0' :: rest => (negative, ['0'], rest)
  | _ => (negative, rest.takeWhile Char.isDigit, rest.dropWhile Char.isDigit)

/-- Read a number in shortest form. Too many digits are a fault of their own, whatever follows
them. -/
def readShortest (cs : List Char) : Except Fault Int :=
  let (negative, digits, rest) := splitShortest cs
  if Text.digitLimit < digits.length then .error .oversizedNumber
  else if digits.isEmpty || !rest.isEmpty then .error .unreadableNumber
  else
    let n : Int := Text.ofDigits (digits.map fun c => c.toNat - 48)
    .ok (if negative then -n else n)

/-- The end of a number after at least one zero, `last` being the character before it. Zeros and
underscores are left out up to a digit or a sign; before a point the last of them stays. -/
def afterZeros? (last : Char) : List Char → Option (List Char)
  | [] => some [last]
  | c :: cs =>
    if c == '0' || c == '_' then afterZeros? c cs
    else if c.isDigit || c == '-' then some (c :: cs)
    else if c == '.' then some (last :: c :: cs)
    else none

/-- Leave out leading zeros. A number starts with a digit. -/
def dropZeros? : List Char → Option (List Char)
  | [] => none
  | c :: cs =>
    if c == '0' then afterZeros? c cs else if c.isDigit then some (c :: cs) else none

/-- Leave out a fraction that consists of zeros, of which there is at least one. -/
def dropZeroFraction (cs : List Char) : List Char :=
  match cs.dropWhile (· != '.') with
  | _ :: '0' :: zeros => if zeros.all (· == '0') then cs.takeWhile (· != '.') else cs
  | _ => cs

/-- Two underscores stand next to each other. -/
def hasDoubleUnderscore : List Char → Bool
  | c :: d :: cs => (c == '_' && d == '_') || hasDoubleUnderscore (d :: cs)
  | _ => false

/-- Leave out the underscores if each of them stands alone between two other characters. -/
def dropUnderscores (cs : List Char) : List Char :=
  if cs.head? == some '_' || cs.getLast? == some '_' || hasDoubleUnderscore cs then cs
  else cs.filter (· != '_')

def simplifyDigits? (cs : List Char) : Option (List Char) :=
  (dropZeros? cs).map fun cs => dropUnderscores (dropZeroFraction cs)

/-- Simplify a number with an optional sign. A plus sign may not be followed by another sign. -/
def simplify? (cs : List Char) : Option (List Char) :=
  match Text.trimBy Text.isNumberBlank cs with
  | '+' :: rest => simplifyDigits? rest
  | '-' :: rest => (simplifyDigits? rest).map ('-' :: ·)
  | rest => simplifyDigits? rest

def readWhole (s : String) : Except Fault Int :=
  match readShortest s.toList with
  | .error .unreadableNumber =>
    match simplify? s.toList with
    | none => .error .unreadableNumber
    | some cs => (readShortest cs).mapError fun _ => .unreadableNumber
  | result => result

end SparqlModel.Record
