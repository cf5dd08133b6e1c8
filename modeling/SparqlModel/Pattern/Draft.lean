import SparqlModel.Event
import SparqlModel.Index.Ancestry
import SparqlModel.Index.BlankTypes
import SparqlModel.Pattern.Node
import SparqlModel.Table

/-!
# Drafting a pattern

A draft collects the triples of a pattern for a list of requested variables. A variable is reached
by one property path from the nearest requested subject above it, or from the root of its chain.
If its route crosses blank nodes and another requested variable is reached by the same path, the
blank nodes at which classes are declared become nodes of the pattern.

Blank nodes are numbered from one in the order of their creation; two places of the graph share a
number if they have the same predicate URIs above them and the same classes. Type triples for all
nodes that have classes are put in front at the end.
-/

namespace SparqlModel.Pattern

def pathSeparator : String := " / "

/-- What identifies a blank node of a pattern: the predicate URIs that lead to it from the root
subject, and its classes. -/
structure BlankKey where
  route : List String
  types : List String
deriving DecidableEq

structure Draft where
  required : List Triple
  optional : List Triple
  /-- The classes of the variables that have been given any. -/
  types : Table (List String)
  /-- The blank nodes in the order of their numbers. -/
  blanks : List BlankKey
  events : List Event

namespace Draft

def empty : Draft := ⟨[], [], [], [], []⟩

/-- The classes of a node. -/
def typesOf (d : Draft) : Node → List String
  | .var n => (d.types.get? n).getD []
  | .blank k => if k < 1 then [] else ((d.blanks[(k - 1).toNat]?).map (·.types)).getD []

def report (d : Draft) (e : Event) : Draft :=
  { d with events := d.events ++ [e] }

def setTypes (d : Draft) (name : String) (types : List String) : Draft :=
  { d with types := d.types.insert name (distinct types) }

def push (t : Triple) (buffer : List Triple) : List Triple :=
  if buffer.any fun u => u.key == t.key then buffer else buffer ++ [t]

/-- Add a triple to one of the buffers unless its key is there. -/
def add (d : Draft) (t : Triple) (isOptional : Bool) : Draft :=
  if isOptional then { d with optional := push t d.optional }
  else { d with required := push t d.required }

def subjectNode (ix : Index) (s : Subject) (d : Draft) : Node × Draft :=
  let name := ix.variableFor s.name
  (.var name, if s.types.isEmpty then d else d.setTypes name s.types)

def blankPlace? (d : Draft) (key : BlankKey) : Option Nat :=
  d.blanks.findIdx? (· == key)

/-- The blank node of a key, which is created on first use. -/
def blankNode (key : BlankKey) (d : Draft) : Node × Draft :=
  match d.blankPlace? key with
  | some i => (.blank (i + 1), d)
  | none => (.blank (d.blanks.length + 1), { d with blanks := d.blanks ++ [key] })

/-- The subject from which a variable is reached: climbing from the nearest ancestor, the first one
that is requested, or else the last one of the climb. -/
def anchorName? (isRequested : String → Bool) : List String → Option String
  | [] => none
  | [name] => some name
  | name :: rest => if isRequested name then some name else anchorName? isRequested rest

/-- A subject is requested through its variable or through the object that produces it. -/
def isRequested (ix : Index) (variableNames : List String) (name : String) : Bool :=
  variableNames.contains (ix.variableFor name) ||
    match ix.producer? name with
    | some t => variableNames.contains t.object.name
    | none => false

def anchor (ix : Index) (variableNames : List String) (t : SparqlModel.Triple) : Subject :=
  let above := (ix.ancestorSubjects t.object.name).reverse
  match (anchorName? (isRequested ix variableNames) above).bind ix.findSubject? with
  | some s => s
  | none => t.subject

/-- Reach a variable by one property path from its anchor. -/
def addCompressed (ix : Index) (variableNames : List String) (name : String)
    (t : SparqlModel.Triple) (d : Draft) : Draft :=
  let subject := anchor ix variableNames t
  let path := ix.propertyPath t.object.name (some subject.name)
  let (node, d) := d.subjectNode ix subject
  d.add ⟨node, pathSeparator.intercalate path, .var name⟩ t.predicate.isOptional

def addWholeRoute (ix : Index) (name : String) (t : SparqlModel.Triple) (d : Draft) : Draft :=
  let d := d.report (.untypedPath name)
  let (node, d) := d.subjectNode ix t.subject
  d.add ⟨node, t.path pathSeparator, .var name⟩ t.predicate.isOptional

/-- Follow the hops of a route from a node. A hop without declared classes only lengthens the
pending path; any other hop ends it at a blank node. The result is the node reached and the path
that is still pending. -/
def followHops (node : Node) (route pending : List String) :
    List (Step × Option (List String)) → Draft → Node × List String × Draft
  | [], d => (node, pending, d)
  | (step, types) :: rest, d =>
    let uri := step.predicate.uri
    let route := route ++ [uri]
    let pending := pending ++ [uri]
    match types with
    | none => followHops node route pending rest d
    | some types =>
      let (blank, d) := d.blankNode ⟨route, distinct types⟩
      let d := d.add ⟨node, pathSeparator.intercalate pending, blank⟩ false
      followHops blank route [] rest d

/-- Reach a variable through the blank nodes of its route that have declared classes. -/
def addExpanded (ix : Index) (name : String) (t : SparqlModel.Triple)
    (types : List (Option (List String))) (d : Draft) : Draft :=
  let (node, d) := d.subjectNode ix t.subject
  let (node, pending, d) := followHops node [] [] (t.hops.zip types) d
  let path := pathSeparator.intercalate (pending ++ [t.predicate.uri])
  d.add ⟨node, path, .var name⟩ t.predicate.isOptional

/-- Add the triples for one requested variable. A subject that nothing refers to needs none, and
neither does a variable that its own subject produces. -/
def addVariable (ix : Index) (variableNames : List String) (name : String) (d : Draft) : Draft :=
  match ix.producer? name with
  | none => if ix.isSubject name then d else d.report (.unknownVariable name)
  | some t =>
    if t.subject.name == name then d
    else if t.crossesBlank && ix.samePathExists t.object.name variableNames then
      let types := ix.blankTypes t
      if types.all Option.isNone then d.addWholeRoute ix name t
      else d.addExpanded ix name t types
    else d.addCompressed ix variableNames name t

/-- The nodes that are subjects of triples, the first one of each name. -/
def subjects (d : Draft) : List Node :=
  (d.required ++ d.optional).foldl
    (fun nodes t =>
      if nodes.any fun n => n.name == t.subject.name then nodes else nodes ++ [t.subject])
    []

def directReferences : Object → List String
  | .reference _ s => [s]
  | .choice _ members => members.filterMap fun
    | .reference _ s => some s
    | _ => none
  | _ => []

/-- The classes of a variable that is not the subject of a triple: those of the subjects that the
object producing it refers to. -/
def referencedTypes (ix : Index) (name : String) : List String :=
  match ix.producer? name with
  | none => []
  | some t =>
    (directReferences t.object).flatMap fun s => ((ix.findSubject? s).map (·.types)).getD []

/-- Type triples for the given variables, as far as they have classes. -/
def typeVariables (ix : Index) : List String → List Triple → Draft → List Triple × Draft
  | [], triples, d => (triples, d)
  | name :: rest, triples, d =>
    let types := referencedTypes ix name
    if types.isEmpty then typeVariables ix rest triples d
    else typeVariables ix rest (triples ++ [⟨.var name, "a", .var name⟩]) (d.setTypes name types)

/-- Put the type triples in front of the required triples: first those of the subjects, then those
of the requested variables that are no subjects. -/
def addTypes (ix : Index) (variableNames : List String) (d : Draft) : Draft :=
  let subjects := d.subjects
  let own := (subjects.filter fun n => !(d.typesOf n).isEmpty).map fun n => (⟨n, "a", n⟩ : Triple)
  let others := variableNames.filter fun v => !subjects.any fun n => n.name == v
  let (triples, d) := typeVariables ix others own d
  { d with required := triples ++ d.required }

def ofVariables (ix : Index) (variableNames : List String) : Draft :=
  let d := variableNames.foldl (fun d name => d.addVariable ix variableNames name) empty
  d.addTypes ix variableNames

end Draft

end SparqlModel.Pattern
