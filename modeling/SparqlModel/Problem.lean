import SparqlModel.Graph.Basic
import SparqlModel.Table
import SparqlModel.Term.Uri

/-!
# Problems of a model

A model is reviewed as a whole, and every problem is reported in the order in which it is met:
root subjects without a class, prefixes that have no namespace, each once, then subject names and
variable names that occur more than once.
-/

namespace SparqlModel

abbrev PrefixTable := Table String

inductive Problem
  | untyped (subject : String)
  | undefinedPrefix (label : String)
  | duplicateSubject (name : String)
  | duplicateVariable (name : String)
deriving DecidableEq

def Problem.message : Problem → String
  | untyped subject => "Subject (" ++ subject ++ ") has no rdf:type."
  | undefinedPrefix label =>
    "Prefix (" ++ label ++ ") used but not defined in prefix.yaml file."
  | duplicateSubject name => "Duplicate subject name (" ++ name ++ ") in model.yaml file."
  | duplicateVariable name => "Duplicate variable (" ++ name ++ ") in model.yaml file."

/-- The messages of a list of problems, one per line. -/
def Problem.summary (problems : List Problem) : String :=
  "\n".intercalate (problems.map (·.message))

/-- What a review has found so far: the problems, the prefixes reported among them, and the variable
names with their repetitions. -/
structure Review where
  problems : List Problem
  reported : List String
  variableNames : List String

namespace Review

def empty : Review := ⟨[], [], []⟩

/-- Report the prefix of a URI if it has no namespace and was not reported before. -/
def useUri (table : PrefixTable) (uri : String) (r : Review) : Review :=
  match Uri.prefixOf? uri with
  | none => r
  | some label =>
    if table.contains label || r.reported.contains label then r
    else { r with
      problems := r.problems ++ [.undefinedPrefix label]
      reported := r.reported ++ [label] }

def useValue (table : PrefixTable) (uri : Option String) (r : Review) : Review :=
  match uri with
  | none => r
  | some uri => r.useUri table uri

def useVariable (name : String) (r : Review) : Review :=
  { r with variableNames := r.variableNames ++ [name] }

/-- A subject that is not a blank node needs a class. -/
def enter (s : Subject) (r : Review) : Review :=
  if !s.isBlank && s.types.isEmpty then { r with problems := r.problems ++ [.untyped s.name] }
  else r

/-- The URIs that stand directly in a list of alternatives. -/
def members (table : PrefixTable) : List Object → Review → Review
  | [], r => r
  | .uri _ value :: rest, r => members table rest (r.useUri table value)
  | _ :: rest, r => members table rest r

/-- The names of the objects of a type predicate are class names. -/
def classes (table : PrefixTable) (objects : List Object) (r : Review) : Review :=
  objects.foldl (fun r o => r.useUri table o.name) r

mutual

def subject (table : PrefixTable) : Subject → Review → Review
  | s@⟨_, value, _, ps⟩, r => predicates table ps ((r.enter s).useValue table value)

def predicates (table : PrefixTable) : List Predicate → Review → Review
  | [], r => r
  | p@⟨uri, _, os⟩ :: rest, r =>
    let r := r.useUri table uri
    predicates table rest (if p.isType then r.classes table os else objects table os r)

def objects (table : PrefixTable) : List Object → Review → Review
  | [], r => r
  | o :: rest, r => objects table rest (object table o r)

/-- A blank node is reviewed as a subject, a reference needs no review, and any other object gives
its variable. -/
def object (table : PrefixTable) : Object → Review → Review
  | .blank s, r => subject table s r
  | .reference _ _, r => r
  | .uri name value, r => (r.useVariable name).useUri table value
  | .choice name ms, r => members table ms (r.useVariable name)
  | .var name, r => r.useVariable name
  | .literal name _ _ _, r => r.useVariable name

end

end Review

/-- The names that occur more than once, in the order of their first occurrence. -/
def repeated (names : List String) : List String :=
  (distinct names).filter fun n => 1 < names.count n

def problems (subjects : List Subject) (table : PrefixTable) : List Problem :=
  let r := subjects.foldl (fun r s => r.subject table s) Review.empty
  r.problems ++ (repeated (subjects.map (·.name))).map .duplicateSubject
    ++ (repeated r.variableNames).map .duplicateVariable

end SparqlModel
