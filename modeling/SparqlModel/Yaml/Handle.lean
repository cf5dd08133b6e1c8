import SparqlModel.Table
import SparqlModel.Yaml.Token

/-!
# Handles of tags

The handle of a tag stands for the start of its name. One exclamation mark stands for itself and two
for the standard types, unless the directives before the document say otherwise. Any other handle
has to be declared there.
-/

namespace SparqlModel.Yaml

def standardHandles : Table String :=
  [("!", "!"), ("!!", standardTag "")]

def declaredHandles : List Token → Table String
  | .directive (.handle name meaning) :: rest => (name, meaning) :: declaredHandles rest
  | .directive _ :: rest => declaredHandles rest
  | _ => []

def WrittenTag.complete? (handles : Table String) (tag : WrittenTag) : Option WrittenTag :=
  match tag.handle with
  | none => some tag
  | some handle => (handles.get? handle).map fun meaning => ⟨none, meaning ++ tag.name⟩

/-- Write all tags in full. After a handle without a meaning there is a fault, but one that stands
there already counts first, unless an anchor stands before the tag. -/
def completeTags (handles : Table String) : List Token → List Token
  | [] => []
  | .anchor name :: .tag tag :: rest =>
    match tag.complete? handles with
    | some tag => .anchor name :: .tag tag :: completeTags handles rest
    | none => [.anchor name, .tag tag, .fault .malformed]
  | .tag tag :: rest =>
    match tag.complete? handles, rest with
    | some tag, rest => .tag tag :: completeTags handles rest
    | none, .fault e :: _ => [.tag tag, .fault e]
    | none, _ => [.tag tag, .fault .malformed]
  | t :: rest => t :: completeTags handles rest

/-- Write all tags of a document in full, by the handles that it declares. -/
def withHandles (ts : List Token) : List Token :=
  completeTags (declaredHandles ts ++ standardHandles) ts

end SparqlModel.Yaml
