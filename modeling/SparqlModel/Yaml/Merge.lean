import SparqlModel.Yaml.Net

/-!
# Merge keys

A merge key puts the entries of other mappings before those of its own mapping: the entries of the
mapping under it, or of a sequence of mappings, the last one first. The merge keys of those mappings
are resolved before. A value key in a mapping whose merge keys have been resolved is an ordinary
text.

A merge key is taken out of its mapping before the mappings under it are looked at, so a mapping may
also be merged into itself.
-/

namespace SparqlModel.Yaml.Net

/-- Steps from a node to the node that it stands for may form a chain up to this length. -/
def chainLimit : Nat := 970

def isMerge (net : Net) (entry : Nat × Nat) : Bool :=
  net.kind entry.1 == .merge

def isValue (net : Net) (entry : Nat × Nat) : Bool :=
  net.kind entry.1 == .value

/-- Put entries before those of a mapping. -/
def prepend (net : Net) (n : Nat) (merged : Links) : Net :=
  net.setContent n (.mapping (merged ++ net.entries n))

/-- Turn the value keys of a mapping into text. -/
def settleValues (net : Net) (n : Nat) : Net :=
  ((net.entries n).filter net.isValue).foldl (fun net e => net.setKind e.1 .text) net

/-- The entries of mappings, each of which is resolved first. -/
def resolvedParts (resolve : Net → Nat → Except Error Net) (net : Net) :
    List Nat → Except Error (List Links × Net)
  | [] => .ok ([], net)
  | n :: rest =>
    match net.content n with
    | .mapping _ => do
      let net ← resolve net n
      let part := net.entries n
      let (parts, net) ← resolvedParts resolve net rest
      return (part :: parts, net)
    | _ => .error .malformed

/-- The entries that a merge key stands for, by the node under it. -/
def mergedEntries (resolve : Net → Nat → Except Error Net) (net : Net) (n : Nat) :
    Except Error (Links × Net) := do
  let sources := match net.content n with
    | .sequence items => items
    | _ => [n]
  let (parts, net) ← resolvedParts resolve net sources
  return (parts.reverse.flatten, net)

/-- Take the merge keys out of a mapping one after the other, at most a given number of them, and
put what they stand for before its entries. -/
def mergeKeys (resolve : Net → Nat → Except Error Net) (n : Nat) :
    Nat → Links → Net → Except Error Net
  | 0, merged, net => .ok (net.prepend n merged)
  | count + 1, merged, net =>
    match (net.entries n).span fun e => !net.isMerge e with
    | (before, (_, value) :: after) => do
      let net := net.setContent n (.mapping (before ++ after))
      let (more, net) ← mergedEntries resolve net value
      mergeKeys resolve n count (merged ++ more) net
    | _ => .ok (net.prepend n merged)

/-- Resolve the merge keys of a mapping, within a bound on the length of chains. -/
def resolveWithin : Nat → Net → Nat → Except Error Net
  | 0, _, _ => .error .tooDeep
  | bound + 1, net, n =>
    let net := net.settleValues n
    mergeKeys (resolveWithin bound) n ((net.entries n).countP net.isMerge) [] net

def resolve (net : Net) (n : Nat) : Except Error Net :=
  net.resolveWithin chainLimit n

end SparqlModel.Yaml.Net
