import SparqlModel.Pattern.Draft
import SparqlModel.Pattern.Options
import SparqlModel.Term.Literal
import SparqlModel.Value.Display

/-!
# The `WHERE` block

A block starts with the `VALUES` lines of the parameters and of the nodes with several classes. The
required triples follow, grouped by subject, and then each optional triple in a group of its own.
-/

namespace SparqlModel.Pattern

abbrev Parameters := Table Value

/-- The variables of a request, each once. Without a request all objects of the model are meant. -/
def requestedVariables (ix : Index) (request : Option (List String)) : List String :=
  distinct ((request.getD ix.objectNames).map ix.variableFor)

def valuesLine (indent variableName value : String) : String :=
  indent ++ "VALUES " ++ variableName ++ " \x7b " ++ value ++ " \x7d"

def pushLine (line : String) (lines : List String) : List String :=
  if lines.contains line then lines else lines ++ [line]

/-- The value that is written for a parameter. Plain literals are quoted. -/
def parameterText (options : Options) (object : Object) (name : String) (value : Value) : String :=
  let text := if options.templateMode then "\x7b\x7b" ++ name ++ "\x7d\x7d" else value.display
  if object.isPlainLiteral then Literal.encode text else text

def parameterLines (ix : Index) (options : Options) :
    Parameters → List String → List String × List Event
  | [], lines => (lines, [])
  | (name, value) :: rest, lines =>
    match ix.findObject? name with
    | none =>
      let (lines, events) := parameterLines ix options rest lines
      (lines, .unknownParameter name :: events)
    | some object =>
      let text := parameterText options object name value
      let line := valuesLine options.indentUnit ("?" ++ ix.variableFor name) text
      parameterLines ix options rest (pushLine line lines)

def classLines (options : Options) (d : Draft) (lines : List String) : List String :=
  (d.subjects.filter fun n => 1 < (d.typesOf n).length).foldl
    (fun lines n =>
      let classes := " ".intercalate (d.typesOf n)
      pushLine (valuesLine options.indentUnit n.classVariable classes) lines)
    lines

/-- Triples by subject name, in the order of the first triple of each subject. -/
def groups (triples : List Triple) : List (String × List Triple) :=
  triples.foldl
    (fun table t =>
      Table.insert t.subject.name (((Table.get? t.subject.name table).getD []) ++ [t]) table)
    []

def groupLines (d : Draft) (indent : String) : Bool → List Triple → List String
  | _, [] => []
  | isFirst, t :: rest =>
    t.render (d.typesOf t.object) indent isFirst rest.isEmpty :: groupLines d indent false rest

def requiredLines (d : Draft) (indent : String) : List String :=
  (groups d.required).flatMap fun g => groupLines d indent true g.2

def optionalLines (d : Draft) (indent : String) : List String :=
  d.optional.map fun t =>
    indent ++ "OPTIONAL \x7b " ++ t.render (d.typesOf t.object) "" true true ++ " \x7d"

/-- A generated block with the draft that it shows and the events of its generation. -/
structure Where where
  variableNames : List String
  draft : Draft
  lines : List String
  events : List Event

def generate (ix : Index) (request : Option (List String)) (parameters : Parameters)
    (options : Options) : Where :=
  let variableNames := requestedVariables ix request
  let d := Draft.ofVariables ix variableNames
  let (values, events) :=
    if options.emitValues then
      let (lines, events) := parameterLines ix options parameters []
      (classLines options d lines, events)
    else ([], [])
  { variableNames, draft := d
    lines :=
      "WHERE \x7b" :: values ++ requiredLines d options.indentUnit
        ++ optionalLines d options.indentUnit ++ ["\x7d"]
    events :=
      d.events ++ events
        ++ [.patternGenerated d.required.length d.optional.length variableNames.length] }

/-- The warnings before the first parameter of an object whose value has no text. -/
def warningsBeforeTextless? (ix : Index) : Parameters → Option (List Event)
  | [] => none
  | (name, value) :: rest =>
    match ix.findObject? name with
    | none => (warningsBeforeTextless? ix rest).map (.unknownParameter name :: ·)
    | some _ => if value.hasText then warningsBeforeTextless? ix rest else some []

/-- A block cannot be written if it has to show a value without a text. These are the events up to
that value; `none` means that the block can be written. -/
def obstacle? (ix : Index) (request : Option (List String)) (parameters : Parameters)
    (options : Options) : Option (List Event) :=
  if options.emitValues && !options.templateMode then
    (warningsBeforeTextless? ix parameters).map fun events =>
      (Draft.ofVariables ix (requestedVariables ix request)).events ++ events
  else none

end SparqlModel.Pattern
