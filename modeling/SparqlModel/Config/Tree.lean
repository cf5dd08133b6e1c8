import SparqlModel.Table
import SparqlModel.Text.Split

/-!
# Places in a file tree

A tree holds the files of directories below a base. A path leads to a directory, to a file or
nowhere; every name on the way has to be a directory. Nothing is known of what lies outside the
base, so a path that leaves it reaches a directory without files and goes no further down. A text
with a null character is no path at all, and one that is too long leads nowhere.
-/

namespace SparqlModel.Config

/-- The files of a directory by name, with their bytes. -/
abbrev Files := Table ByteArray

/-- What a path leads to. -/
inductive Place
  | missing
  | impossible
  | file (bytes : ByteArray)
  | directory (files : Files)

/-- The directories below the base by the names that lead to them. -/
abbrev Tree := List (List String × Files)

/-- Where a path ends: in a directory, where `none` is outside the base, at a file, or nowhere. -/
inductive Reached
  | directory (names : Option (List String))
  | file (bytes : ByteArray)
  | nowhere

def pathNames (path : String) : List String :=
  (Text.splitOn '/' path.toList).map String.ofList

/-- A name that leads from a directory to itself. -/
def staysHere (name : String) : Bool :=
  name == "" || name == "."

namespace Tree

def files? (t : Tree) (names : List String) : Option Files :=
  if names.isEmpty then some [] else List.lookup names t

def file? (t : Tree) (names : List String) (name : String) : Option ByteArray :=
  (t.files? names).bind fun files => files.get? name

/-- The directory above; `none` is outside the base. -/
def parent : Option (List String) → Option (List String)
  | none => none
  | some [] => none
  | some names => some names.dropLast

def follow (t : Tree) : Option (List String) → List String → Reached
  | here, [] => .directory here
  | here, name :: rest =>
    if staysHere name then follow t here rest
    else if name == ".." then follow t (parent here) rest
    else
      match here with
      | none => .nowhere
      | some names =>
        if (t.files? (names ++ [name])).isSome then follow t (some (names ++ [name])) rest
        else
          match t.file? names name with
          | some bytes => if rest.isEmpty then .file bytes else .nowhere
          | none => .nowhere

def isPath (path : String) : Bool :=
  !path.toList.contains '\x00'

/-- A path has less than 4096 bytes, and a name on it at most 255. -/
def isTooLong (path : String) : Bool :=
  4096 ≤ path.utf8ByteSize || (pathNames path).any fun name => 255 < name.utf8ByteSize

def origin (path : String) : Option (List String) :=
  if path.startsWith "/" then none else some []

def place (t : Tree) (path : String) : Place :=
  if !isPath path then .impossible
  else if path.isEmpty || isTooLong path then .missing
  else
    match t.follow (origin path) (pathNames path) with
    | .nowhere => .missing
    | .file bytes => .file bytes
    | .directory none => .directory []
    | .directory (some names) => .directory ((t.files? names).getD [])

end Tree

end SparqlModel.Config
