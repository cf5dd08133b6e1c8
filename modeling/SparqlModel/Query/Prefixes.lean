import SparqlModel.Problem
import SparqlModel.Text.Word

/-!
# Prefix declarations

A prefix is declared if its label occurs before a colon somewhere in the query. The label must not
continue a longer name, a variable, or an IRI. Declarations follow the order of the prefix table.
-/

namespace SparqlModel.Query

/-- A label cannot start right after a character of this class. -/
def continuesName (c : Char) : Bool :=
  Text.isWord c || ['?', '$', '.', ':', '/', '#', '<', '-'].contains c

/-- The mark occurs in a text at a place where a name may start, given the character before the
text. -/
def occursAfter (mark : List Char) : Option Char → List Char → Bool
  | before, [] => mark.isEmpty && !(before.any continuesName)
  | before, c :: cs =>
    (!(before.any continuesName) && mark.isPrefixOf (c :: cs)) || occursAfter mark (some c) cs

def usesPrefix (text : List Char) (label : String) : Bool :=
  occursAfter (label.toList ++ [':']) none text

def usedPrefixes (lines : List String) (table : PrefixTable) : List String :=
  table.names.filter (usesPrefix ("\n".intercalate lines).toList)

def prefixLines (lines : List String) (table : PrefixTable) : List String :=
  (usedPrefixes lines table).filterMap fun label =>
    (table.get? label).map fun iri =>
      "PREFIX " ++ label ++ ": <" ++ Uri.namespaceIri iri ++ ">"

end SparqlModel.Query
