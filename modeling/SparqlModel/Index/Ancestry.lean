import SparqlModel.Index.Basic

/-!
# Ancestors and property paths

From any name the graph is climbed towards its root. One chain collects the names above a name.
The other collects the triples by which a name is reached, each found through the object that
stands for the subject of the triple before it. Both chains end before they use a name twice, so
they are finite in cyclic graphs too.
-/

namespace SparqlModel.Index

/-- One step up. A subject leads to the object that stands for it, and any other name to the
subject of the triple that produces it. A subject that is referred to under its own name leads at
once to the subject that refers to it. -/
def parent? (ix : Index) (name : String) : Option String :=
  if ix.isSubject name then
    match ix.asObject? name with
    | none => none
    | some variableName =>
      if variableName != name then some variableName
      else
        (ix.triples.find? fun t =>
          t.object.subjectNames.contains name && t.subject.name != name).map (·.subject.name)
  else (ix.producer? name).map (·.subject.name)

/-- All names that a step up can lead to. -/
def parentNames (ix : Index) : List String :=
  distinct (ix.triples.flatMap fun t => [t.object.name, t.subject.name])

/-- Climb from a name while the steps lead to names that are still free, nearest name first. -/
def climb (ix : Index) (free : List String) (name : String) : List String :=
  match ix.parent? name with
  | none => []
  | some up => if up ∈ free then up :: climb ix (free.erase up) up else []
termination_by free.length
decreasing_by
  rename_i h
  have := List.length_pos_of_mem h
  rw [List.length_erase_of_mem h]
  omega

/-- All ancestors of a name, the most remote first. -/
def ancestors (ix : Index) (name : String) : List String :=
  (ix.climb (ix.parentNames.erase name) name).reverse

def ancestorSubjects (ix : Index) (name : String) : List String :=
  (ix.ancestors name).filter ix.isSubject

def leafNames (ix : Index) : List String :=
  distinct (ix.triples.map fun t => t.object.name)

/-- The triples by which a name is reached, nearest first. Each next one produces the object that
stands for the subject of the one before. -/
def trail (ix : Index) (free : List String) (name : String) : List Triple :=
  match ix.producer? name with
  | none => []
  | some t =>
    match ix.asObject? t.subject.name with
    | none => [t]
    | some up => if up ∈ free then t :: trail ix (free.erase up) up else [t]
termination_by free.length
decreasing_by
  rename_i h
  have := List.length_pos_of_mem h
  rw [List.length_erase_of_mem h]
  omega

/-- The part of a trail up to and including the first triple of a subject. -/
def stopAt (subject : String) : List Triple → List Triple
  | [] => []
  | t :: rest => if t.subject.name == subject then [t] else t :: stopAt subject rest

/-- The predicate URIs from the root of a trail, or from a subject on it, down to a name. -/
def propertyPath (ix : Index) (name : String) (stop : Option String) : List String :=
  let trail := ix.trail (ix.leafNames.erase name) name
  let trail := match stop with
    | none => trail
    | some subject => stopAt subject trail
  trail.reverse.flatMap (·.uris)

/-- Another candidate is reached by the same property path as a name, and the path is not empty. -/
def samePathExists (ix : Index) (name : String) (candidates : List String) : Bool :=
  let path := ix.propertyPath name none
  !path.isEmpty && candidates.any fun other => other != name && ix.propertyPath other none == path

end SparqlModel.Index
