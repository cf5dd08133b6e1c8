import SparqlModel.Table
import SparqlModel.Yaml.Kind
import SparqlModel.Yaml.Node

/-!
# Nets of nodes

The nodes of a document by number, in the order of the text. A collection holds the numbers of its
parts, so an alias is nothing but the number of a node before it: a node may be a part of several
collections, and also of itself.
-/

namespace SparqlModel.Yaml

/-- The entries of a mapping: the numbers of keys and values. -/
abbrev Links := List (Nat × Nat)

inductive Content
  | scalar (text : String)
  | sequence (items : List Nat)
  | mapping (entries : Links)

structure Item where
  kind : Kind
  content : Content

abbrev Net := Array Item

namespace Net

/-- The type of a node; what is not there has none. -/
def kind (net : Net) (n : Nat) : Kind :=
  (net[n]?.map Item.kind).getD .unknown

def content (net : Net) (n : Nat) : Content :=
  (net[n]?.map Item.content).getD (.scalar "")

/-- The entries of a mapping; other nodes have none. -/
def entries (net : Net) (n : Nat) : Links :=
  match net.content n with
  | .mapping entries => entries
  | _ => []

def setContent (net : Net) (n : Nat) (content : Content) : Net :=
  net.modify n fun item => { item with content }

def setKind (net : Net) (n : Nat) (kind : Kind) : Net :=
  net.modify n fun item => { item with kind }

end Net

/-- The nodes that have been numbered, and the numbers of those with names. -/
structure Numbering where
  net : Net
  named : Table Nat

namespace Numbering

def empty : Numbering := ⟨#[], []⟩

/-- Give the next number to a node. -/
def push (s : Numbering) (kind : Kind) (content : Content) : Numbering :=
  { s with net := s.net.push ⟨kind, content⟩ }

def setContent (s : Numbering) (n : Nat) (content : Content) : Numbering :=
  { s with net := s.net.setContent n content }

def nameNext (s : Numbering) (name : String) : Numbering :=
  { s with named := (name, s.net.size) :: s.named }

mutual

/-- Number a node and its parts. A tag before the node decides its type. -/
def add (s : Numbering) (tag : Option Kind) : Node → Nat × Numbering
  | .plain text => (s.net.size, s.push (tag.getD (Kind.ofPlain text)) (.scalar text))
  | .quoted text => (s.net.size, s.push (tag.getD .text) (.scalar text))
  | .sequence items =>
    let n := s.net.size
    let (ns, s) := addItems (s.push (tag.getD .sequence) (.sequence [])) items
    (n, s.setContent n (.sequence ns))
  | .mapping entries =>
    let n := s.net.size
    let (links, s) := addEntries (s.push (tag.getD .mapping) (.mapping [])) entries
    (n, s.setContent n (.mapping links))
  | .tagged name node => add s (some (Kind.ofTag name)) node
  | .anchored name node => add (s.nameNext name) tag node
  | .aliasOf name => ((s.named.get? name).getD 0, s)

def addItems (s : Numbering) : List Node → List Nat × Numbering
  | [] => ([], s)
  | node :: rest =>
    let (n, s) := add s none node
    let (ns, s) := addItems s rest
    (n :: ns, s)

def addEntries (s : Numbering) : List (Node × Node) → Links × Numbering
  | [] => ([], s)
  | (key, value) :: rest =>
    let (k, s) := add s none key
    let (v, s) := add s none value
    let (links, s) := addEntries s rest
    ((k, v) :: links, s)

end

end Numbering

def Net.ofNode (node : Node) : Net :=
  (Numbering.empty.add none node).2.net

end SparqlModel.Yaml
