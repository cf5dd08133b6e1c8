import SparqlModel.Value.Display

/-!
# Issues of records

Checking a record collects every issue, each with the fields and positions that lead to it. Two
parts of a record are checked independently, and the issues of the first come first.
-/

namespace SparqlModel.Record

/-- One item of the way to an issue. -/
inductive Locus
  | field (name : String)
  | position (i : Int)
deriving DecidableEq

inductive Fault
  | missing
  | notRecord
  | notText
  | undecodableText
  | notList
  | notMapping
  | notObject
  | noKind
  | unknownKind
  | notWhole
  | notFinite
  | notNumber
  | unreadableNumber
  | oversizedNumber
  | negative
  | notTruth
  | unreadableTruth
  | refused
  | unknownField
  | badKey
deriving DecidableEq

def Fault.code : Fault → String
  | missing => "missing"
  | notRecord => "model_type"
  | notText => "string_type"
  | undecodableText => "string_unicode"
  | notList => "list_type"
  | notMapping => "dict_type"
  | notObject => "model_attributes_type"
  | noKind => "union_tag_not_found"
  | unknownKind => "union_tag_invalid"
  | notWhole => "int_from_float"
  | notFinite => "finite_number"
  | notNumber => "int_type"
  | unreadableNumber => "int_parsing"
  | oversizedNumber => "int_parsing_size"
  | negative => "greater_than_equal"
  | notTruth => "bool_type"
  | unreadableTruth => "bool_parsing"
  | refused => "value_error"
  | unknownField => "extra_forbidden"
  | badKey => "invalid_key"

structure Issue where
  loci : List Locus
  fault : Fault
deriving DecidableEq

abbrev Check (α : Type) := Except (List Issue) α

namespace Check

variable {α β : Type}

def fail (fault : Fault) : Check α :=
  .error [⟨[], fault⟩]

def under (locus : Locus) : Check α → Check α
  | .ok a => .ok a
  | .error issues => .error (issues.map fun i => { i with loci := locus :: i.loci })

def underField (name : String) (c : Check α) : Check α :=
  under (.field name) c

/-- Check two parts and collect the issues of both. -/
def both (a : Check α) (b : Check β) : Check (α × β) :=
  match a, b with
  | .ok a, .ok b => .ok (a, b)
  | .error e, .ok _ => .error e
  | .ok _, .error f => .error f
  | .error e, .error f => .error (e ++ f)

end Check

/-- Numbers of at most 64 bits with their sign. -/
def isMachineSize (n : Int) : Bool :=
  -9223372036854775808 ≤ n && n ≤ 9223372036854775807

/-- A key of a mapping as an item of the way. Truth values and whole numbers of machine size are
positions, any other key is shown as text, if it has one. -/
def keyLocus : Scalar → Locus
  | .text s => .field s
  | .bool b => .position (if b then 1 else 0)
  | .int n =>
    if isMachineSize n then .position n
    else .field ((Scalar.int n).display?.getD "<unprintable int object>")
  | s => .field s.quoted

end SparqlModel.Record
