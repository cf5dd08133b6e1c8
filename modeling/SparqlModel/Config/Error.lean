import SparqlModel.Graph.Builder
import SparqlModel.Problem
import SparqlModel.Record.Issue
import SparqlModel.Yaml.Source

/-!
# Errors of a configuration

What can go wrong while a configuration directory is read. Errors in the layout of the files have a
message, and a path if they belong to one file. The others arise from single values.
-/

namespace SparqlModel.Config

/-- The path of a file in a directory. A file with a path from the root is found there. -/
def joinPath (directory file : String) : String :=
  if file.startsWith "/" then file
  else if directory.isEmpty || directory.endsWith "/" then directory ++ file
  else directory ++ "/" ++ file

inductive Error
  | fileMissing (file directory : String)
  | notMapping (file directory : String)
  | malformed (path : String)
  | build (error : BuildError)
  | noQueries
  | unknownQuery (name : String)
  | rejected (problems : List Problem)
  /-- A file without data. -/
  | data (error : Yaml.Error)
  | isDirectory
  | notDirectory
  | directoryMissing
  | pathTooLong
  | queryNotMapping
  | variablesNotIterable
  | issues (issues : List Record.Issue)

/-- A message about the layout of a configuration, with the path of the file. -/
structure Report where
  message : String
  path : Option String

/-- The report on an error in the subject keys and object entries of a model. A number with too many
digits has none. -/
def buildReport? : BuildError → Option Report
  | .emptySubjectName => some ⟨"Empty subject name in model.yaml", none⟩
  | .severalNames names =>
    some ⟨"Object must be a single 'name: value' pair, got [" ++ commaList (names.map Text.quoted)
      ++ "]", none⟩
  | .oversizedNumber => none

def Error.report? : Error → Option Report
  | fileMissing file directory =>
    some ⟨file ++ " not found in " ++ directory, some (joinPath directory file)⟩
  | notMapping file directory =>
    some ⟨file ++ " must be a mapping", some (joinPath directory file)⟩
  | malformed path => some ⟨"Invalid YAML in " ++ path, some path⟩
  | build error => buildReport? error
  | noQueries => some ⟨"No queries defined in sparql.yaml", none⟩
  | unknownQuery name => some ⟨"Query '" ++ name ++ "' not found in sparql.yaml", none⟩
  | rejected problems => some ⟨Problem.summary problems, none⟩
  | _ => none

end SparqlModel.Config
