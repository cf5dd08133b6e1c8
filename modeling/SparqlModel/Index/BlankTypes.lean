import SparqlModel.Index.Basic

/-!
# Classes of blank nodes on a route

For each blank node that a triple crosses, the index tells whether classes are declared at that
point of the route. Classes count for the blank node that declares them if it holds the object of
the triple or nests a further blank node.
-/

namespace SparqlModel.Index

/-- Two triples use the same predicates up to hop `i`. Above that predicate they have to take the
same objects as well. -/
def sameRouteTo (i : Nat) (t u : Triple) : Bool :=
  t.root == u.root && places (t.hops.take i) == places (u.hops.take i)
    && (t.hops[i]?.map (·.slot)) == (u.hops[i]?.map (·.slot))

/-- The triples that declare a class for a blank node under the predicate at hop `i`. -/
def typeTriples (ix : Index) (t : Triple) (i : Nat) : List Triple :=
  ix.triples.filter fun u =>
    u.hops.length == i + 1 && sameRouteTo i u t && u.predicate.isType

/-- A blank node holds the last predicate and the object of a triple. -/
def holds (b : BlankSite) (t : Triple) : Bool :=
  b.root == t.root && places b.steps == places t.hops

/-- The classes at hop `i`: `none` when no class is declared there, otherwise those that count for
the route, each once. -/
def typesAtHop (ix : Index) (t : Triple) (i : Nat) : Option (List String) :=
  match ix.typeTriples t i with
  | [] => none
  | declared =>
    some (distinct (declared.flatMap fun u =>
      (ix.blanks.filter fun b =>
        holds b u && (b.subject.objects.any (·.isBlankNode) || holds b t)).map
          fun _ => u.object.name))

/-- The classes at every hop of a triple. -/
def blankTypes (ix : Index) (t : Triple) : List (Option (List String)) :=
  (List.range t.hops.length).map (ix.typesAtHop t)

end SparqlModel.Index
