import SparqlModel.Yaml.Token

/-!
# Names of nodes

An alias stands for the node that an anchor has named before it in the document. A name is given
only once.
-/

namespace SparqlModel.Yaml

/-- The properties of a node are followed by a fault. -/
def isBrokenOff : List Token → Bool
  | .tag _ :: .fault _ :: _ => true
  | .fault _ :: _ => true
  | _ => false

/-- Put a fault in the place of an alias without an anchor before it, and after an anchor whose name
is taken. The known names are given. -/
def checkAnchors (known : List String) : List Token → List Token
  | [] => []
  | .aliasOf name :: rest =>
    if known.contains name then .aliasOf name :: checkAnchors known rest else [.fault .malformed]
  | .anchor name :: rest =>
    if known.contains name && !isBrokenOff rest then [.anchor name, .fault .malformed]
    else .anchor name :: checkAnchors (name :: known) rest
  | t :: rest => t :: checkAnchors known rest

end SparqlModel.Yaml
