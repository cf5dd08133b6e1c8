import SparqlModel.Model
import SparqlModel.Pattern.Where
import SparqlModel.Query.Prefixes

/-!
# Queries

A query declares the prefixes that its pattern uses, selects the requested variables, and may limit
the number of results.
-/

namespace SparqlModel.Query

def selectLine (ix : Index) (request : Option (List String)) : String :=
  "SELECT " ++ " ".intercalate ((Pattern.requestedVariables ix request).map ("?" ++ ·))

/-- A limit of zero is no limit. -/
def limitLines : Option Int → List String
  | none => []
  | some n => if n = 0 then [] else ["LIMIT " ++ toString n]

def generate (m : Model) (request : Option (List String)) (parameters : Pattern.Parameters)
    (options : Pattern.Options) (limit : Option Int) : List String × List Event :=
  let block := Pattern.generate m.index request parameters options
  let declarations := prefixLines block.lines m.prefixes
  let lines := declarations ++ (if declarations.isEmpty then [] else [""])
    ++ [selectLine m.index (some block.variableNames)] ++ block.lines ++ limitLines limit
  (lines, block.events ++ [.queryGenerated lines.length])

end SparqlModel.Query
