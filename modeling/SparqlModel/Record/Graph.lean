import SparqlModel.Graph.Basic
import SparqlModel.Record.Field

/-!
# Records of graphs

The record form of cardinalities, objects, predicates and subjects. The kind of an object decides
which fields are read, and fields that are not read are ignored. A field of a record is smaller than
the record, so nested records are checked by recursion on their size.
-/

namespace SparqlModel.Record

open Check

/-- The value of a field, with the fact that it is smaller than the record. -/
def part? (name : String) : (es : Entries) → Option { v : Value // sizeOf v < sizeOf es }
  | [] => none
  | (k, v) :: rest =>
    if k.sameKey (.text name) then some ⟨v, by simp; omega⟩
    else (part? name rest).map fun p => ⟨p.1, by have := p.2; simp; omega⟩

def checkCardinality : Value → Check Cardinality
  | .map es =>
    (both (optionalWhole "min" es) (optionalWhole "max" es)).map fun (min, max) => ⟨min, max⟩
  | _ => fail .notRecord

def optionalCardinality (es : Entries) : Check (Option Cardinality) :=
  underField "cardinality" <| match es.field? "cardinality" with
    | none => .ok none
    | some (.scalar .null) => .ok none
    | some v => (checkCardinality v).map some

/-- A subject needs a name with a character other than blanks. -/
def subjectName (es : Entries) : Check String :=
  match requiredText "name" es with
  | .ok name => if (Text.strip name).isEmpty then underField "name" (fail .refused) else .ok name
  | .error issues => .error issues

/-- Any value, null if the field is absent. -/
def anyValue (name : String) (es : Entries) : Value :=
  (es.field? name).getD .null

def checkLiteral (es : Entries) : Check Object :=
  (both (requiredText "name" es) (both (optionalText "lang" es) (optionalText "datatype" es))).map
    fun (name, lang, datatype) => .literal name (anyValue "value" es) lang datatype

/-- The kinds of object records that hold no further records. -/
def checkLeaf (kind : String) (es : Entries) : Check Object :=
  match kind with
  | "variable" => (requiredText "name" es).map .var
  | "literal" => checkLiteral es
  | "uri" =>
    (both (requiredText "name" es) (requiredText "value" es)).map fun (name, value) =>
      .uri name value
  | "subject" =>
    (both (requiredText "name" es) (requiredText "subject" es)).map fun (name, subject) =>
      .reference name subject
  | _ => fail .unknownKind

def leafKinds : List String := ["variable", "literal", "uri", "subject"]

mutual

def checkObject : Value → Check Object
  | .map es =>
    match Entries.field? "kind" es with
    | none => fail .noKind
    | some (.scalar (.text "bnode")) =>
      underField "bnode" <| underField "subject" <| match part? "subject" es with
        | none => fail .missing
        | some ⟨v, _⟩ => (checkSubject v).map .blank
    | some (.scalar (.text "values")) =>
      underField "values" <|
        (both (requiredText "name" es) (underField "values" <| match part? "values" es with
          | none => .ok []
          | some ⟨v, _⟩ => checkObjects v)).map fun (name, members) => .choice name members
    | some (.scalar (.text kind)) =>
      if leafKinds.contains kind then underField kind (checkLeaf kind es) else fail .unknownKind
    | some _ => fail .unknownKind
  | _ => fail .notObject
termination_by v => sizeOf v

def checkObjects : Value → Check (List Object)
  | .list items => checkObjectItems 0 items
  | _ => fail .notList
termination_by v => sizeOf v

def checkObjectItems (i : Nat) : List Value → Check (List Object)
  | [] => .ok []
  | v :: rest =>
    (both (under (.position i) (checkObject v)) (checkObjectItems (i + 1) rest)).map fun (o, os) =>
      o :: os
termination_by items => sizeOf items

def checkPredicate : Value → Check Predicate
  | .map es =>
    (both (requiredText "uri" es) (both (optionalCardinality es)
      (underField "objects" <| match part? "objects" es with
        | none => .ok []
        | some ⟨v, _⟩ => checkObjects v))).map fun (uri, cardinality, objects) =>
          ⟨uri, cardinality, objects⟩
  | _ => fail .notRecord
termination_by v => sizeOf v

def checkPredicates : Value → Check (List Predicate)
  | .list items => checkPredicateItems 0 items
  | _ => fail .notList
termination_by v => sizeOf v

def checkPredicateItems (i : Nat) : List Value → Check (List Predicate)
  | [] => .ok []
  | v :: rest =>
    (both (under (.position i) (checkPredicate v)) (checkPredicateItems (i + 1) rest)).map
      fun (p, ps) => p :: ps
termination_by items => sizeOf items

def checkSubject : Value → Check Subject
  | .map es =>
    (both (subjectName es) (both (optionalText "value" es)
      (both (defaultTruth "blank_node" false es)
        (underField "predicates" <| match part? "predicates" es with
          | none => .ok []
          | some ⟨v, _⟩ => checkPredicates v)))).map fun (name, value, isBlank, predicates) =>
            ⟨name, value, isBlank, predicates⟩
  | _ => fail .notRecord
termination_by v => sizeOf v

end

def checkSubjectItems (i : Nat) : List Value → Check (List Subject)
  | [] => .ok []
  | v :: rest =>
    (both (under (.position i) (checkSubject v)) (checkSubjectItems (i + 1) rest)).map
      fun (s, ss) => s :: ss

def checkSubjects : Value → Check (List Subject)
  | .list items => checkSubjectItems 0 items
  | _ => fail .notList

end SparqlModel.Record
