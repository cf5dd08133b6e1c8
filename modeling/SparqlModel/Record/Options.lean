import SparqlModel.Pattern.Options
import SparqlModel.Record.Field

/-!
# Records of generation options

All fields have defaults, and no other field may be present.
-/

namespace SparqlModel.Record

open Check

def optionFields : List String := ["emit_values_lines", "template_mode", "indent_unit"]

/-- An indent unit has blanks only. -/
def checkIndent (es : Entries) : Check String :=
  underField "indent_unit" <| match es.field? "indent_unit" with
    | none => .ok { : Pattern.Options }.indentUnit
    | some v =>
      match checkText v with
      | .ok s => if (Text.strip s).isEmpty then .ok s else fail .refused
      | .error issues => .error issues

def unknownFields (es : Entries) : List Issue :=
  es.filterMap fun e =>
    match e.1 with
    | .text s => if optionFields.contains s then none else some ⟨[.field s], .unknownField⟩
    | k => some ⟨[keyLocus k], .badKey⟩

def noUnknownFields (es : Entries) : Check Unit :=
  if (unknownFields es).isEmpty then .ok () else .error (unknownFields es)

def checkOptions : Value → Check Pattern.Options
  | .map es =>
    (both (defaultTruth "emit_values_lines" true es) (both (defaultTruth "template_mode" false es)
      (both (checkIndent es) (noUnknownFields es)))).map
        fun (emitValues, templateMode, indentUnit, _) => ⟨emitValues, templateMode, indentUnit⟩
  | _ => fail .notRecord

end SparqlModel.Record
