import SparqlModel.Config.BlankKeys
import SparqlModel.Config.Files
import SparqlModel.Config.QuerySpec
import SparqlModel.Model

/-!
# Reading a configuration directory

A session reads the files of one directory. The prefixes, the model data and the queries are kept
once they have been read; later changes of the files do not affect what is kept. A reading that
fails keeps nothing.
-/

namespace SparqlModel.Config

def prefixFile : String := "prefix.yaml"

def modelFile : String := "model.yaml"

def queryFile : String := "sparql.yaml"

/-- An entry of a prefix file; its key and its value need a text. -/
def readPrefix (e : Scalar × Value) : Except Error (String × String) :=
  match e.1.display?, e.2.display? with
  | some label, some iri => .ok (label, iri)
  | _, _ => .error (.data .unreadable)

def loadPrefixes (directory : String) (files : Files) (reader : Reader := .yaml) :
    Except Error PrefixTable := do
  match (← loadFile directory files prefixFile false reader).unfold with
  | .scalar .null => return []
  | .map entries => return Table.ofPairs (← entries.mapM readPrefix)
  | _ => .error (.notMapping prefixFile directory)

def loadQueries (directory : String) (files : Files) (reader : Reader := .yaml) :
    Except Error (Table QuerySpec) := do
  let v ← loadFile directory files queryFile false reader
  match if v.isAbsent then .map [] else v.unfold with
  | .map entries => return Table.ofPairs (← readQueries entries)
  | _ => .error (.notMapping queryFile directory)

/-- The model data in a file as it is now, always as a list. The file is read as a whole, and its
data may not contain itself. -/
def loadModelData (directory : String) (files : Files) (reader : Reader := .yaml) :
    Except Error (List Value) := do
  match files.get? modelFile with
  | none => .error (.fileMissing modelFile directory)
  | some bytes =>
    match Text.ofBytes? bytes with
    | none => .error (.data .undecodable)
    | some text =>
      let v ← located (joinPath directory modelFile) (reader.ofText (markBlankKeys text))
      if v.isEndless then .error (.data .tooDeep)
      else return Graph.asItems (unmarkBlankKeys (if v.isAbsent then .list [] else v))

/-- What has been read so far. -/
structure Session where
  directory : String
  reader : Reader
  prefixes : Option PrefixTable
  modelData : Option (List Value)
  queries : Option (Table QuerySpec)

namespace Session

def start (directory : String) (reader : Reader := .yaml) : Session :=
  ⟨directory, reader, none, none, none⟩

def readPrefixes (s : Session) (files : Files) : Except Error PrefixTable × Session :=
  match s.prefixes with
  | some table => (.ok table, s)
  | none =>
    match loadPrefixes s.directory files s.reader with
    | .ok table => (.ok table, { s with prefixes := some table })
    | .error e => (.error e, s)

def readQueries (s : Session) (files : Files) : Except Error (Table QuerySpec) × Session :=
  match s.queries with
  | some table => (.ok table, s)
  | none =>
    match loadQueries s.directory files s.reader with
    | .ok table => (.ok table, { s with queries := some table })
    | .error e => (.error e, s)

def readModelData (s : Session) (files : Files) : Except Error (List Value) × Session :=
  match s.modelData with
  | some data => (.ok data, s)
  | none =>
    match loadModelData s.directory files s.reader with
    | .ok data => (.ok data, { s with modelData := some data })
    | .error e => (.error e, s)

def findQuery (table : Table QuerySpec) : Option String → Except Error QuerySpec
  | none =>
    match table with
    | [] => .error .noQueries
    | (_, q) :: _ => .ok q
  | some name =>
    match table.get? name with
    | some q => .ok q
    | none => .error (.unknownQuery name)

def query (s : Session) (files : Files) (name : Option String) : Except Error QuerySpec × Session :=
  match s.readQueries files with
  | (.ok table, s) => (findQuery table name, s)
  | (.error e, s) => (.error e, s)

def buildSubjects (s : Session) (files : Files) : Except Error (List Subject) × Session :=
  match s.readModelData files with
  | (.ok data, s) => ((Graph.build data).mapError .build, s)
  | (.error e, s) => (.error e, s)

end Session

def buildEvents (subjects : List Subject) (table : PrefixTable) : List Event :=
  let ix := Index.ofSubjects subjects
  .flattened subjects.length ix.triples.length ix.blanks.length ::
    match problems subjects table with
    | [] => [.modelBuilt subjects.length ix.triples.length]
    | found => [.problemsFound found.length]

/-- A result with the events that led to it and the session after it. -/
structure Outcome (α : Type) where
  result : Except Error α
  events : List Event
  session : Session

namespace Session

def model (s : Session) (files : Files) : Outcome Model :=
  match s.buildSubjects files with
  | (.error e, s) => ⟨.error e, [], s⟩
  | (.ok subjects, s) =>
    let loaded := Event.subjectsLoaded subjects.length s.directory
    match s.readPrefixes files with
    | (.error e, s) => ⟨.error e, [loaded], s⟩
    | (.ok table, s) =>
      ⟨(Model.build subjects table).mapError .rejected, loaded :: buildEvents subjects table, s⟩

end Session

end SparqlModel.Config
