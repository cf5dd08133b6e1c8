import SparqlModel.Record.Whole

/-!
# Fields of records

Text fields take only text, or the bytes of one. Number fields also take truth values, numbers
without a fraction and decimal text; truth fields also take zero, one and the usual words. A
number with a point is only taken as whole if it fits into 64 bits.
-/

namespace SparqlModel.Record

open Check

def checkText : Value → Check String
  | .scalar (.text s) => .ok s
  | .scalar (.bytes bs) =>
    match String.fromUTF8? ⟨bs.toArray⟩ with
    | some s => .ok s
    | none => fail .undecodableText
  | _ => fail .notText

def checkOptionalText : Value → Check (Option String)
  | .scalar .null => .ok none
  | v => (checkText v).map some

def requiredText (name : String) (es : Entries) : Check String :=
  underField name <| match es.field? name with
    | none => fail .missing
    | some v => checkText v

def optionalText (name : String) (es : Entries) : Check (Option String) :=
  underField name <| match es.field? name with
    | none => .ok none
    | some v => checkOptionalText v

def checkNatural (n : Int) : Check Nat :=
  if n < 0 then fail .negative else .ok n.toNat

/-- The numbers with a point that are taken as whole numbers: those below `2 ^ 63` without their
sign. -/
def isBelowMachineLimit (n : Int) : Bool :=
  n.natAbs < 9223372036854775808

def checkWhole : Value → Check Nat
  | .scalar (.bool b) => .ok (if b then 1 else 0)
  | .scalar (.int n) => checkNatural n
  | .scalar (.float x) =>
    if !x.isFinite then fail .notFinite
    else match x.toInt? with
      | some n => if isBelowMachineLimit n then checkNatural n else fail .oversizedNumber
      | none => fail .notWhole
  | .scalar (.text s) =>
    match readWhole s with
    | .ok n => checkNatural n
    | .error fault => fail fault
  | _ => fail .notNumber

/-- A bound may be absent. -/
def optionalWhole (name : String) (es : Entries) : Check (Option Nat) :=
  underField name <| match es.field? name with
    | none => .ok none
    | some (.scalar .null) => .ok none
    | some v => (checkWhole v).map some

/-- The words for truth values, in any case. -/
def readTruth? (s : String) : Option Bool :=
  let w := s.map Char.toLower
  if ["1", "true", "t", "yes", "y", "on"].contains w then some true
  else if ["0", "false", "f", "no", "n", "off"].contains w then some false
  else none

def numberTruth (n : Int) : Check Bool :=
  if n = 0 then .ok false else if n = 1 then .ok true else fail .unreadableTruth

def checkTruth : Value → Check Bool
  | .scalar (.bool b) => .ok b
  | .scalar (.int n) => if isMachineSize n then numberTruth n else fail .notTruth
  | .scalar (.float x) =>
    match x.toInt? with
    | some n => if isBelowMachineLimit n then numberTruth n else fail .notTruth
    | none => fail .notTruth
  | .scalar (.text s) =>
    match readTruth? s with
    | some b => .ok b
    | none => fail .unreadableTruth
  | _ => fail .notTruth

def defaultTruth (name : String) (default : Bool) (es : Entries) : Check Bool :=
  underField name <| match es.field? name with
    | none => .ok default
    | some v => checkTruth v

end SparqlModel.Record
