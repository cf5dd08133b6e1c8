import SparqlModel.Calendar.Moment
import SparqlModel.Number.Binary64

/-!
# Configuration data

The data that a configuration file or a record holds: scalars, lists, and mappings with scalar keys
in the order in which the keys were first written. Truth values and numbers are equal as keys when
they are equal as numbers, so `1`, `1.0` and `true` name the same entry. The value that is not a
number is equal to no key.

A file may also hold sets of scalars, pairs, and collections that contain themselves. Such a
collection is a knot with a number, and inside of it the number stands for the whole.
-/

namespace SparqlModel

inductive Scalar
  | null
  | bool (b : Bool)
  | int (n : Int)
  | float (x : Binary64)
  | date (d : Date)
  | moment (m : Moment)
  | bytes (bs : List UInt8)
  | text (s : String)
deriving DecidableEq, Inhabited

namespace Scalar

/-- Truth values count as zero and one, and numbers without a fraction as whole numbers. -/
def toInt? : Scalar → Option Int
  | bool b => some (if b then 1 else 0)
  | int n => some n
  | float x => x.toInt?
  | _ => none

/-- Two scalars name the same entry of a mapping. -/
def sameKey (a b : Scalar) : Bool :=
  match a.toInt?, b.toInt? with
  | some m, some n => m == n
  | none, none =>
    match a, b with
    | moment m, moment n => m.isSame n
    | a, b => a == b && a != .float .nan
  | _, _ => false

/-- Null, false, zero, and no text or bytes count as absent. -/
def isAbsent : Scalar → Bool
  | null => true
  | bool b => !b
  | int n => n == 0
  | float x => x.isZero
  | date _ => false
  | moment _ => false
  | bytes bs => bs.isEmpty
  | text s => s.isEmpty

end Scalar

inductive Value
  | scalar (s : Scalar)
  | list (items : List Value)
  | map (entries : List (Scalar × Value))
  | set (members : List Scalar)
  | pair (first second : Value)
  /-- A collection that contains itself. -/
  | knot (number : Nat) (content : Value)
  /-- The knot of that number, inside of itself. -/
  | again (number : Nat)
deriving Inhabited

/-- The entries of a mapping, in the order of their keys. -/
abbrev Entries := List (Scalar × Value)

namespace Entries

/-- Write an entry. An entry of the same key keeps its key and its place and takes the value. -/
def insert (key : Scalar) (value : Value) : Entries → Entries
  | [] => [(key, value)]
  | (k, v) :: rest =>
    if k.sameKey key then (k, value) :: rest else (k, v) :: insert key value rest

/-- Write the pairs one after the other into an empty mapping. -/
def ofPairs (pairs : List (Scalar × Value)) : Entries :=
  pairs.foldl (fun es p => insert p.1 p.2 es) []

def get? (key : Scalar) (entries : Entries) : Option Value :=
  (entries.find? fun e => e.1.sameKey key).map (·.2)

def field? (name : String) (entries : Entries) : Option Value :=
  get? (.text name) entries

end Entries

namespace Value

def null : Value := .scalar .null

def text (s : String) : Value := .scalar (.text s)

def isAbsent : Value → Bool
  | scalar s => s.isAbsent
  | list items => items.isEmpty
  | map entries => entries.isEmpty
  | set members => members.isEmpty
  | _ => false

def isNull : Value → Bool
  | scalar .null => true
  | _ => false

/-- The elements of a collection: the items of a list or pair, the keys of a mapping, the members of
a set, the characters of a text, the numbers of bytes. Other scalars have none, nor has a knot. -/
def elements? : Value → Option (List Value)
  | list items => some items
  | map entries => some (entries.map fun e => .scalar e.1)
  | set members => some (members.map .scalar)
  | pair first second => some [first, second]
  | scalar (.text s) => some (s.toList.map fun c => text (String.singleton c))
  | scalar (.bytes bs) => some (bs.map fun b => .scalar (.int b.toNat))
  | _ => none

end Value

end SparqlModel
