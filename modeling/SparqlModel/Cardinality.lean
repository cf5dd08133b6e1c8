import SparqlModel.Text.Blank
import SparqlModel.Text.Digit
import SparqlModel.Text.Split

/-!
# Cardinalities and predicate keys

A cardinality bounds how often a predicate occurs. In a predicate key it is a suffix of the URI:
`?`, `*`, `+`, or bounds between braces, either of which may be left out. Blanks may stand around
the suffix and around the numbers.
-/

namespace SparqlModel

structure Cardinality where
  min : Option Nat
  max : Option Nat
deriving DecidableEq, Inhabited

namespace Cardinality

def isOptional (c : Cardinality) : Bool :=
  c.min == none || c.min == some 0

/-- The digits of the two bounds in a suffix with braces. The second entry is absent when there is
no comma. -/
def boundDigits? : List Char → Option (List Char × Option (List Char))
  | '\x7b' :: rest =>
    let rest := rest.dropWhile Text.isBlank
    let low := rest.takeWhile Text.isDigit
    match (rest.dropWhile Text.isDigit).dropWhile Text.isBlank with
    | ['\x7d'] => some (low, none)
    | ',' :: rest =>
      let rest := rest.dropWhile Text.isBlank
      let high := rest.takeWhile Text.isDigit
      match (rest.dropWhile Text.isDigit).dropWhile Text.isBlank with
      | ['\x7d'] => some (low, some high)
      | _ => none
    | _ => none
  | _ => none

/-- A bound that is left out is absent; `none` means that it has too many digits to be read. -/
def readBound? (ds : List Char) : Option (Option Nat) :=
  if ds.isEmpty then some none else (Text.readNat? ds).map some

/-- A single number is both bounds. -/
def ofBounds? (low : List Char) (high : Option (List Char)) : Option Cardinality := do
  let min ← readBound? low
  match high with
  | none => return ⟨min, min⟩
  | some ds => return ⟨min, ← readBound? ds⟩

def ofMark? : Char → Option Cardinality
  | '?' => some ⟨some 0, some 1⟩
  | '*' => some ⟨some 0, none⟩
  | '+' => some ⟨some 1, none⟩
  | _ => none

/-- A suffix of one character after something that is not empty. -/
def splitMark? (cs : List Char) : Option (List Char × Cardinality) :=
  match cs.reverse with
  | c :: d :: before => (ofMark? c).map fun k => ((d :: before).reverse, k)
  | _ => none

/-- Divide a predicate key into its URI and its cardinality. At most one suffix is removed, and
never all of the key. `none` means that a bound has too many digits to be read. -/
def splitKey? (key : String) : Option (String × Option Cardinality) :=
  let cs := Text.trimBy Text.isBlank key.toList
  match Text.splitLast? boundDigits? cs with
  | some (c :: before, (low, high)) =>
    (ofBounds? low high).map fun k =>
      (String.ofList (Text.trimBy Text.isBlank (c :: before)), some k)
  | _ =>
    match splitMark? cs with
    | some (before, k) => some (String.ofList (Text.trimBy Text.isBlank before), some k)
    | none => some (String.ofList cs, none)

end Cardinality

end SparqlModel
