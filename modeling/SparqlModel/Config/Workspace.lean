import SparqlModel.Config.Session

/-!
# A directory and its session over time

Files are written and deleted while one session reads them. Each action has a reply and leaves a new
state.
-/

namespace SparqlModel.Config

structure Workspace where
  files : Files
  session : Session

inductive Action
  /-- Write a file, or delete it when there is no content. -/
  | write (file : String) (content : Option ByteArray)
  /-- The kept prefixes. -/
  | prefixes
  /-- The prefixes in the file as it is now. -/
  | loadPrefixes
  | queries
  | loadQueries
  | query (name : Option String)
  | modelData
  | subjects
  | model

inductive Reply
  | done
  | prefixes (table : PrefixTable)
  | queries (table : Table QuerySpec)
  | query (spec : QuerySpec)
  | modelData (data : List Value)
  | subjects (subjects : List Subject)
  | model (model : Model)

namespace Workspace

def start (directory : String) (files : Files) (reader : Reader := .yaml) : Workspace :=
  ⟨files, .start directory reader⟩

/-- A reply from a part of the session, with the session that results. -/
def answer {α : Type} (w : Workspace) (wrap : α → Reply) (r : Except Error α × Session) :
    Except Error Reply × Workspace :=
  (r.1.map wrap, { w with session := r.2 })

def perform (w : Workspace) : Action → Except Error Reply × Workspace
  | .write file content =>
    match writeFile w.session.directory w.files file content with
    | .ok files => (.ok .done, { w with files })
    | .error e => (.error e, w)
  | .prefixes => w.answer .prefixes (w.session.readPrefixes w.files)
  | .loadPrefixes => ((loadPrefixes w.session.directory w.files w.session.reader).map .prefixes, w)
  | .queries => w.answer .queries (w.session.readQueries w.files)
  | .loadQueries => ((loadQueries w.session.directory w.files w.session.reader).map .queries, w)
  | .query name => w.answer .query (w.session.query w.files name)
  | .modelData => w.answer .modelData (w.session.readModelData w.files)
  | .subjects => w.answer .subjects (w.session.buildSubjects w.files)
  | .model =>
    let o := w.session.model w.files
    w.answer .model (o.result, o.session)

end Workspace

end SparqlModel.Config
