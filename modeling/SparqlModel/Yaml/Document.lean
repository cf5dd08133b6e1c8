import SparqlModel.Value.Knot
import SparqlModel.Value.Members
import SparqlModel.Yaml.Alias
import SparqlModel.Yaml.Handle
import SparqlModel.Yaml.Merge
import SparqlModel.Yaml.Reading

/-!
# Documents

The data of a document. A key is a scalar; of two entries with equal keys the later value counts, at
the place of the earlier one. A tag may also ask for a set, which is a mapping whose values do not
count, or for pairs, which are mappings of one entry in a sequence. The tag of a scalar may stand
before a mapping if it has a scalar under a value key.

The data of a node is made once. A collection is made empty, and its parts follow when all
collections that were made before it are complete. So of several faults the one that lies in the
fewest collections is reported, and of those the first.
-/

namespace SparqlModel.Yaml

/-- What is told apart as a key. What is not a number is one key where it is written as a word, and
otherwise a key of its own for each node, whose number is given. -/
structure Key where
  scalar : Scalar
  origin : Option Nat
deriving DecidableEq

def Key.same (a b : Key) : Bool :=
  a == b || a.scalar.sameKey b.scalar

/-- The data of a node. The parts of a collection are given by number. -/
inductive Datum
  | scalar (key : Key)
  | list (items : List Nat)
  | pairs (pairs : Links)
  | map (entries : List (Key × Nat))
  | set (members : List Key)

namespace Net

/-- The text of a node where a scalar is asked for, within a bound on the length of chains. A
mapping stands for what is under its first value key. -/
def scalarText (net : Net) : Nat → Nat → Except Error String
  | 0, _ => .error .tooDeep
  | bound + 1, n =>
    match net.content n with
    | .scalar text => .ok text
    | .sequence _ => .error .malformed
    | .mapping entries =>
      match entries.find? net.isValue with
      | some (_, value) => net.scalarText bound value
      | none => .error .malformed

/-- A node as a scalar of its type. A date cannot be taken from a mapping. -/
def readScalar (net : Net) (n : Nat) : Except Error Key := do
  let text ← net.scalarText chainLimit n
  match net.kind n, net.content n with
  | .date, .mapping _ => .error .dateMapping
  | kind, _ =>
    let s ← kind.read text
    return ⟨s, if s == .float .nan && !isNanWord text then some n else none⟩

end Net

/-- Data in the making: the nodes, the data of those that have been reached, and the collections
whose parts are missing, the last one first. -/
structure Making where
  net : Net
  data : Array (Option Datum)
  waiting : List Nat

namespace Making

def ofNet (net : Net) : Making :=
  ⟨net, Array.replicate net.size none, []⟩

def datum? (m : Making) (n : Nat) : Option Datum :=
  m.data[n]?.join

def record (m : Making) (n : Nat) (d : Datum) : Making :=
  { m with data := m.data.setIfInBounds n (some d) }

/-- A collection that waits for its parts. -/
def await (m : Making) (n : Nat) (d : Datum) : Making :=
  { m.record n d with waiting := n :: m.waiting }

/-- Make the data of a node, unless there is some. -/
def make (m : Making) (n : Nat) : Except Error Making :=
  if (m.datum? n).isSome then .ok m
  else
    match m.net.kind n with
    | .sequence => .ok (m.await n (.list []))
    | .pairs => .ok (m.await n (.pairs []))
    | .mapping => .ok (m.await n (.map []))
    | .set => .ok (m.await n (.set []))
    | .merge | .value | .unknown => .error .malformed
    | _ => do return m.record n (.scalar (← m.net.readScalar n))

def makeKey (m : Making) (n : Nat) : Except Error (Key × Making) := do
  let m ← m.make n
  match m.datum? n with
  | some (.scalar key) => return (key, m)
  | _ => .error .malformed

/-- Write an entry. An entry of the same key keeps its key and its place and takes the value. -/
def insertEntry (key : Key) (value : Nat) : List (Key × Nat) → List (Key × Nat)
  | [] => [(key, value)]
  | (k, v) :: rest =>
    if k.same key then (k, value) :: rest else (k, v) :: insertEntry key value rest

/-- Make the keys and values of a mapping and add them to the entries that it has. -/
def makeEntries (m : Making) (entries : List (Key × Nat)) :
    Links → Except Error (List (Key × Nat) × Making)
  | [] => .ok (entries, m)
  | (k, v) :: rest => do
    let (key, m) ← m.makeKey k
    let m ← m.make v
    makeEntries m (insertEntry key v entries) rest

/-- Make the entries of a mapping, after its merge keys have been resolved. -/
def makeMapping (m : Making) (n : Nat) : Except Error (List (Key × Nat) × Making) := do
  let net ← m.net.resolve n
  makeEntries { m with net } [] (net.entries n)

/-- Make the keys and values of mappings with one entry. -/
def makePairs (m : Making) : List Nat → Except Error (Links × Making)
  | [] => .ok ([], m)
  | n :: rest =>
    match m.net.content n with
    | .mapping [(k, v)] => do
      let m ← m.make k
      let m ← m.make v
      let (pairs, m) ← makePairs m rest
      return ((k, v) :: pairs, m)
    | _ => .error .malformed

/-- Make the parts of a collection. -/
def complete (m : Making) (n : Nat) : Except Error Making :=
  match m.net.kind n, m.net.content n with
  | .sequence, .sequence items => do
    let m ← items.foldlM make m
    return m.record n (.list items)
  | .pairs, .sequence items => do
    let (pairs, m) ← m.makePairs items
    return m.record n (.pairs pairs)
  | .mapping, .mapping _ => do
    let (entries, m) ← m.makeMapping n
    return m.record n (.map entries)
  | .set, .mapping _ => do
    let (entries, m) ← m.makeMapping n
    return m.record n (.set (entries.map (·.1)))
  | _, _ => .error .malformed

/-- Complete the collections that wait, then those that have been made meanwhile, and so on up to a
number of rounds. -/
def completeAll : Nat → Making → Except Error Making
  | 0, m => .ok m
  | rounds + 1, m =>
    if m.waiting.isEmpty then .ok m
    else do completeAll rounds (← m.waiting.reverse.foldlM complete { m with waiting := [] })

end Making

/-- A collection with its number, if it contains itself or an outer one. -/
def knotted (n : Nat) (v : Value) : Value :=
  if v.isEndless then .knot n v else v

/-- The value of a node, by the data of all nodes. The collections around it are given, and their
number is bounded. -/
def valueOf (data : Array (Option Datum)) : Nat → List Nat → Nat → Value
  | 0, _, _ => .null
  | bound + 1, around, n =>
    let part := valueOf data bound (n :: around)
    if around.contains n then .again n
    else
      match data[n]?.join with
      | none => .null
      | some (.scalar key) => .scalar key.scalar
      | some (.list items) => knotted n (.list (items.map part))
      | some (.pairs pairs) => knotted n (.list (pairs.map fun p => .pair (part p.1) (part p.2)))
      | some (.map entries) => knotted n (.map (entries.map fun e => (e.1.scalar, part e.2)))
      | some (.set members) => .ofMembers (members.map Key.scalar)

/-- The value of the first node of a net. -/
def dataOf (net : Net) : Except Error Value := do
  let m ← (Making.ofNet net).make 0
  let m ← m.completeAll net.size
  return valueOf m.data (net.size + 1) [] 0

/-- The data of a source that holds at most one document. An empty one is null. -/
def load (source : Source) : Except Error Value :=
  match Node.ofTokens (Node.limitNesting 0 (checkAnchors [] (withHandles (tokens source)))) with
  | .error e => .error e
  | .ok none => .ok .null
  | .ok (some node) => dataOf (Net.ofNode node)

end SparqlModel.Yaml
