/-!
# Nodes and triples of a pattern

A pattern node is a variable or a numbered blank node. A pattern triple joins two nodes by a
property path. A type triple has its subject as its object too, and the classes of the object
decide what is written: the class itself if there is just one, otherwise the class variable of the
node.
-/

namespace SparqlModel.Pattern

inductive Node
  | var (name : String)
  | blank (number : Int)
deriving DecidableEq, Inhabited

namespace Node

def name : Node → String
  | var n => n
  | blank k => "_b" ++ toString k

def render : Node → String
  | var n => "?" ++ n
  | blank k => "_:b" ++ toString k

def classVariable (n : Node) : String :=
  "?" ++ n.name ++ "Class"

end Node

structure Triple where
  subject : Node
  predicate : String
  object : Node
deriving DecidableEq

namespace Triple

def isType (t : Triple) : Bool :=
  t.predicate == "a" || t.predicate == "rdf:type"

/-- Two triples of one buffer with the same key are the same triple. -/
def key (t : Triple) : String × String × String :=
  (t.subject.name, t.predicate, t.object.name)

/-- Predicate and object, where the classes of the object are given. -/
def renderTail (t : Triple) (objectTypes : List String) : String :=
  if t.isType then
    match objectTypes with
    | [c] => "a " ++ c
    | _ => "a " ++ t.object.classVariable
  else t.predicate ++ " " ++ t.object.render

/-- One line of a group of triples with the same subject. The first line shows the subject, the
others are indented twice, and the last one ends with a full stop. -/
def render (t : Triple) (objectTypes : List String) (indent : String) (isFirst isLast : Bool) :
    String :=
  (if isFirst then indent ++ t.subject.render ++ " " else indent ++ indent)
    ++ t.renderTail objectTypes ++ (if isLast then " ." else " ;")

end Triple

end SparqlModel.Pattern
