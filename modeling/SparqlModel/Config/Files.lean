import SparqlModel.Config.Error
import SparqlModel.Config.Tree
import SparqlModel.Yaml.Document

/-!
# Files of a configuration directory

A file is named by its path from the directory. What its data is depends on the reader, which takes
the content of a file piece by piece or a text as a whole. A file that is written has to lie in a
directory that exists.
-/

namespace SparqlModel.Config

def directoryNames (directory : String) : List String :=
  (pathNames directory).filter fun name => !staysHere name

def treeOf (directory : String) (files : Files) : Tree :=
  [(directoryNames directory, files)]

def locate (directory : String) (files : Files) (file : String) : Place :=
  match files.get? file with
  | some bytes => .file bytes
  | none => (treeOf directory files).place (joinPath directory file)

/-- The data of the content of a file, and of a text. -/
structure Reader where
  ofBytes : ByteArray → Except Yaml.Error Value
  ofText : String → Except Yaml.Error Value

def Reader.yaml : Reader where
  ofBytes bytes := Yaml.load (.ofBytes bytes)
  ofText text := Yaml.load (.ofText text)

/-- Data that was read, with the path of its file in the error. -/
def located (path : String) (data : Except Yaml.Error Value) : Except Error Value :=
  data.mapError fun e => if e = .malformed then .malformed path else .data e

/-- The data of a file, null if the file may be absent and is. -/
def loadFile (directory : String) (files : Files) (file : String) (isRequired : Bool)
    (reader : Reader := .yaml) : Except Error Value :=
  match locate directory files file with
  | .file bytes => located (joinPath directory file) (reader.ofBytes bytes)
  | .directory _ => .error .isDirectory
  | _ => if isRequired then .error (.fileMissing file directory) else .ok .null

/-- The name of the file that a path from the directory leads to when it is written; `none` means
another directory. -/
def writtenName (directory : String) (files : Files) (file : String) :
    Except Error (Option String) :=
  let t := treeOf directory files
  let path := joinPath directory file
  let names := pathNames path
  let name := names.getLast?.getD ""
  let follow := t.follow (Tree.origin path)
  if !Tree.isPath path then .error (.data .unreadable)
  else if Tree.isTooLong path then .error .pathTooLong
  else if staysHere name || name == ".." then
    match follow names with
    | .directory _ => .error .isDirectory
    | .file _ => .error .notDirectory
    | .nowhere => .error (if name == "" then .isDirectory else .directoryMissing)
  else
    match follow names.dropLast with
    | .directory here =>
      .ok (if here == some (directoryNames directory) then some name else none)
    | .file _ => .error .notDirectory
    | .nowhere => .error .directoryMissing

def writeFile (directory : String) (files : Files) (file : String) (content : Option ByteArray) :
    Except Error Files :=
  match files.get? file, content with
  | some _, some bytes => .ok (files.insert file bytes)
  | some _, none => .ok (List.filter (fun e => e.1 != file) files)
  | none, content => do
    match ← writtenName directory files file, content with
    | none, _ => return files
    | some name, some bytes => return files.insert name bytes
    | some name, none => return List.filter (fun e => e.1 != name) files

end SparqlModel.Config
