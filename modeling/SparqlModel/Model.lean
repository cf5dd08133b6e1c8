import SparqlModel.Index.Ancestry
import SparqlModel.Index.BlankTypes
import SparqlModel.Problem

/-!
# Models

A model is an indexed subject graph with its prefixes, in which a review has found no problem.
-/

namespace SparqlModel

structure Model where
  subjects : List Subject
  prefixes : PrefixTable
  accepted : problems subjects prefixes = []

namespace Model

/-- A graph with problems is not a model; all of its problems are returned. -/
def build (subjects : List Subject) (prefixes : PrefixTable) : Except (List Problem) Model :=
  if h : problems subjects prefixes = [] then .ok ⟨subjects, prefixes, h⟩
  else .error (problems subjects prefixes)

def index (m : Model) : Index :=
  Index.ofSubjects m.subjects

end Model

end SparqlModel
