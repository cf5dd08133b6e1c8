import SparqlModel.Graph.Basic

/-!
# Flattened triples

Flattening a subject graph lists its leaf objects. Each leaf is a triple of the root subject, the
predicates on the way to the leaf and the leaf itself; blank nodes on the way leave only their
predicates. Every step of a route records its place, so that two predicates with the same content
stay different.

The walk keeps the steps above the current subject on a stack. It collects the triples and the blank
nodes in the order in which it meets them.
-/

namespace SparqlModel

/-- One predicate of a route, with its place among the predicates of its subject and the place of
the object that the route takes among its objects. -/
structure Step where
  predicate : Predicate
  slot : Nat
  entry : Nat

def Step.place (s : Step) : Nat × Nat :=
  (s.slot, s.entry)

def places (steps : List Step) : List (Nat × Nat) :=
  steps.map (·.place)

/-- A leaf object with its root subject and its route: the steps that enter blank nodes, and the
last step, which reaches the leaf. -/
structure Triple where
  root : Nat
  subject : Subject
  hops : List Step
  last : Step
  object : Object

namespace Triple

def predicate (t : Triple) : Predicate :=
  t.last.predicate

def steps (t : Triple) : List Step :=
  t.hops ++ [t.last]

/-- The predicate URIs of the route, from the root to the leaf. -/
def uris (t : Triple) : List String :=
  t.steps.map (·.predicate.uri)

def crossesBlank (t : Triple) : Bool :=
  !t.hops.isEmpty

def path (t : Triple) (separator : String) : String :=
  separator.intercalate t.uris

end Triple

/-- A blank node that the walk has met, with the steps that lead to it. -/
structure BlankSite where
  root : Nat
  steps : List Step
  subject : Subject

structure Walk where
  stack : List Step
  triples : List Triple
  blanks : List BlankSite

namespace Walk

def empty : Walk := ⟨[], [], []⟩

mutual

def predicates (root : Nat) (owner : Subject) : Nat → List Predicate → Walk → Walk
  | _, [], w => w
  | slot, p@⟨_, _, os⟩ :: rest, w =>
    predicates root owner (slot + 1) rest (objects root owner p slot 0 os w)

def objects (root : Nat) (owner : Subject) (p : Predicate) (slot : Nat) :
    Nat → List Object → Walk → Walk
  | _, [], w => w
  | entry, o :: rest, w =>
    objects root owner p slot (entry + 1) rest (object root owner ⟨p, slot, entry⟩ o w)

/-- A blank node is recorded and walked with its step on the stack; any other object is a leaf. -/
def object (root : Nat) (owner : Subject) (step : Step) : Object → Walk → Walk
  | .blank s@⟨_, _, _, ps⟩, w =>
    let entered := w.stack ++ [step]
    let w := predicates root owner 0 ps
      { w with stack := entered, blanks := w.blanks ++ [⟨root, entered, s⟩] }
    { w with stack := w.stack.dropLast }
  | o, w => { w with triples := w.triples ++ [⟨root, owner, w.stack, step, o⟩] }

end

/-- Walk the root subjects in order. -/
def roots : Nat → List Subject → Walk → Walk
  | _, [], w => w
  | root, s :: rest, w => roots (root + 1) rest (predicates root s 0 s.predicates w)

/-- Flatten a list of subjects. Earlier results of the walk are dropped, its stack is used as it
is. -/
def flatten (w : Walk) (subjects : List Subject) : Walk :=
  roots 0 subjects { w with triples := [], blanks := [] }

end Walk

end SparqlModel
