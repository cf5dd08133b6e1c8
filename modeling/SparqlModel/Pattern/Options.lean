/-!
# Options of pattern generation
-/

namespace SparqlModel.Pattern

structure Options where
  /-- Write `VALUES` lines for parameters and for nodes with several classes. -/
  emitValues : Bool := true
  /-- Write a placeholder for each parameter instead of its value. -/
  templateMode : Bool := false
  /-- Blanks of one level of indentation. -/
  indentUnit : String := "    "

end SparqlModel.Pattern
