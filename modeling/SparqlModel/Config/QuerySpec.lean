import SparqlModel.Config.Error
import SparqlModel.Pattern.Where
import SparqlModel.Record.Field
import SparqlModel.Text.Blank
import SparqlModel.Value.Knot

/-!
# Named queries

A query file maps names to requested variables, bound parameters and a description, all of which may
be left out. Variables are a list, or one text that is divided into words.
-/

namespace SparqlModel.Config

structure QuerySpec where
  name : String
  description : Option String
  variableNames : List String
  parameters : Pattern.Parameters

/-- The text of a name. A whole number with too many digits has none. -/
def nameText (v : Value) : Except Error String :=
  match v.display? with
  | some s => .ok s
  | none => .error (.data .unreadable)

/-- The requested variables. Of a collection they are its elements; a number has none. -/
def readVariables (v : Value) : Except Error (List String) :=
  if v.isAbsent then .ok []
  else
    match v.unfold with
    | .scalar (.text s) => .ok (Text.words s)
    | v =>
      match v.elements? with
      | some items => items.mapM nameText
      | none => .error .variablesNotIterable

open Record Check in
def checkName (key : Scalar) : Check String :=
  under (keyLocus key) (underField "[key]" (checkText (.scalar key)))

open Record Check in
/-- Parameters are a mapping from names; every other key is an issue. -/
def checkParameters (v : Value) : Check Pattern.Parameters :=
  underField "parameters" <|
    if v.isAbsent then .ok []
    else
      match v.unfold with
      | .map entries =>
        entries.foldr
          (fun e rest => (both (checkName e.1) rest).map fun (name, ps) => (name, e.2) :: ps)
          (.ok [])
      | _ => fail .notMapping

open Record Check in
def readQuery (key : Scalar) (v : Value) : Except Error QuerySpec :=
  match if v.isAbsent then .map [] else v.unfold with
  | .map entries => do
    let name ← nameText (.scalar key)
    let variableNames ← readVariables ((Entries.field? "variables" entries).getD .null)
    match both (optionalText "description" entries)
        (checkParameters ((Entries.field? "parameters" entries).getD .null)) with
    | .ok (description, parameters) => return ⟨name, description, variableNames, parameters⟩
    | .error issues => .error (.issues issues)
  | _ => .error .queryNotMapping

/-- All entries of a query file, by their names. -/
def readQueries : List (Scalar × Value) → Except Error (List (String × QuerySpec))
  | [] => .ok []
  | (key, v) :: rest => do
    let q ← readQuery key v
    return (q.name, q) :: (← readQueries rest)

end SparqlModel.Config
