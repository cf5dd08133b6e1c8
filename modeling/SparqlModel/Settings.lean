import SparqlModel.Table
import SparqlModel.Text.Digit

/-!
# Settings

Default widths and limits come from the environment. A variable that is not set has a default of its
own; one that is no whole number is an error.
-/

namespace SparqlModel

structure Settings where
  indent : Int
  limit : Int

namespace Settings

def indentName : String := "RDFPATTERN_INDENT"

def limitName : String := "RDFPATTERN_LIMIT"

def names : List String := [indentName, limitName]

/-- A whole number, white space at its ends aside. -/
def wholeNumber? (s : String) : Option Int :=
  Text.readInt? (Text.trimBy Text.isNumberBlank s.toList)

def read? (environment : Table String) : Option Settings := do
  let indent ← wholeNumber? ((environment.get? indentName).getD "4")
  let limit ← wholeNumber? ((environment.get? limitName).getD "0")
  return ⟨indent, limit⟩

end Settings

end SparqlModel
