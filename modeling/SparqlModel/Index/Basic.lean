import SparqlModel.Graph.Triple

/-!
# Looking up names in a flattened graph

An index holds the root subjects of a graph with its triples and blank nodes. Names are looked up in
the order of the triples, and the first match wins. A subject that an object of another subject
refers to is addressed through the name of that object.
-/

namespace SparqlModel

structure Index where
  subjects : List Subject
  triples : List Triple
  blanks : List BlankSite

namespace Index

def ofSubjects (subjects : List Subject) : Index :=
  let w := Walk.empty.flatten subjects
  ⟨subjects, w.triples, w.blanks⟩

def findSubject? (ix : Index) (name : String) : Option Subject :=
  ix.subjects.find? fun s => s.name == name

def isSubject (ix : Index) (name : String) : Bool :=
  ix.subjects.any fun s => s.name == name

/-- The name of the first object that refers to a subject from another subject. -/
def asObject? (ix : Index) (subject : String) : Option String :=
  ix.triples.findSome? fun t =>
    if t.object.subjectNames.contains subject && t.subject.name != subject then some t.object.name
    else none

/-- The variable for a name: a subject that is used as an object takes the name of that object. -/
def variableFor (ix : Index) (name : String) : String :=
  if ix.isSubject name then (ix.asObject? name).getD name else name

/-- The first object that has a name or refers to the subject of that name. -/
def findObject? (ix : Index) (name : String) : Option Object :=
  (ix.triples.find? fun t => t.object.name == name || t.object.subjectNames.contains name).map
    (·.object)

/-- The first triple that produces a name. The name of a subject is produced by an object that
refers to it, any other name by an object that has it. -/
def producer? (ix : Index) (name : String) : Option Triple :=
  if ix.isSubject name then ix.triples.find? fun t => t.object.subjectNames.contains name
  else ix.triples.find? fun t => t.object.name == name

def objectNames (ix : Index) : List String :=
  distinct ((ix.triples.filter fun t => !t.predicate.isType).map fun t => t.object.name)

/-- The triple at a place, counted from the end when the number is negative. -/
def triple? (ix : Index) (i : Int) : Option Triple :=
  if 0 ≤ i then ix.triples[i.toNat]?
  else if (-i).toNat ≤ ix.triples.length then ix.triples[ix.triples.length - (-i).toNat]?
  else none

end Index

end SparqlModel
