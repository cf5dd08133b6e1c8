import SparqlModel.Cardinality
import SparqlModel.Value.Basic

/-!
# Subject graphs

A model is a list of subjects. A subject has predicates, and a predicate has objects: variables,
literals, URIs, references to other subjects, blank nodes with a nested subject, and lists of
alternatives under one name. Every predicate and object is told apart by its place in the graph, not
by its content.
-/

namespace SparqlModel

mutual

inductive Object
  | var (name : String)
  | literal (name : String) (value : Value) (lang datatype : Option String)
  | uri (name value : String)
  | reference (name subject : String)
  | blank (subject : Subject)
  | choice (name : String) (members : List Object)

structure Predicate where
  uri : String
  cardinality : Option Cardinality
  objects : List Object

/-- A subject of the model, or the nested subject of a blank node. -/
structure Subject where
  name : String
  value : Option String
  isBlank : Bool
  predicates : List Predicate

end

def blankName : String := "[]"

/-- Keep the first occurrence of each element. -/
def distinct {α : Type} [BEq α] (xs : List α) : List α :=
  xs.foldl (fun seen x => if seen.contains x then seen else seen ++ [x]) []

/-- The predicates that state the class of a subject. -/
def isTypeUri (uri : String) : Bool :=
  uri == "a" || uri == "rdf:type"

namespace Predicate

def isType (p : Predicate) : Bool :=
  isTypeUri p.uri

/-- A predicate is optional only if it has a cardinality whose least number is absent or zero. -/
def isOptional (p : Predicate) : Bool :=
  match p.cardinality with
  | some c => c.isOptional
  | none => false

end Predicate

namespace Object

/-- The name of an object; a blank node has the name of its nested subject. -/
def name : Object → String
  | var n => n
  | literal n _ _ _ => n
  | uri n _ => n
  | reference n _ => n
  | blank s => s.name
  | choice n _ => n

def isBlankNode : Object → Bool
  | blank _ => true
  | _ => false

/-- A literal without a language tag and a datatype. -/
def isPlainLiteral : Object → Bool
  | literal _ _ lang datatype => lang.isNone && datatype.isNone
  | _ => false

mutual

def subjectNames : Object → List String
  | reference _ s => [s]
  | choice _ members => distinct (memberSubjectNames members)
  | _ => []

def memberSubjectNames : List Object → List String
  | [] => []
  | o :: rest => o.subjectNames ++ memberSubjectNames rest

end

end Object

namespace Subject

/-- The classes of a subject, in the order in which they are declared. -/
def types (s : Subject) : List String :=
  (s.predicates.filter (·.isType)).flatMap fun p => p.objects.map (·.name)

def objects (s : Subject) : List Object :=
  s.predicates.flatMap (·.objects)

end Subject

end SparqlModel
