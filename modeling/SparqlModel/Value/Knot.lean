import SparqlModel.Value.Basic

/-!
# Collections that contain themselves

A value is closed if every number in it stands inside of its knot. The parts of a knot are closed
only after the number has been replaced by the knot, which is done before a part is looked at alone.
-/

namespace SparqlModel.Value

mutual

/-- Replace a number by a value, except where it belongs to an inner knot. -/
def replace (number : Nat) (whole : Value) : Value → Value
  | scalar s => scalar s
  | list items => list (replaceItems number whole items)
  | map entries => map (replaceEntries number whole entries)
  | set members => set members
  | pair first second => pair (replace number whole first) (replace number whole second)
  | knot n content => if n == number then knot n content else knot n (replace number whole content)
  | again n => if n == number then whole else again n

def replaceItems (number : Nat) (whole : Value) : List Value → List Value
  | [] => []
  | v :: rest => replace number whole v :: replaceItems number whole rest

def replaceEntries (number : Nat) (whole : Value) :
    List (Scalar × Value) → List (Scalar × Value)
  | [] => []
  | (k, v) :: rest => (k, replace number whole v) :: replaceEntries number whole rest

end

def unfold : Value → Value
  | knot number content => replace number (knot number content) content
  | v => v

mutual

/-- A value contains itself, or a part of it does. -/
def isEndless : Value → Bool
  | list items => itemsEndless items
  | map entries => entriesEndless entries
  | pair first second => first.isEndless || second.isEndless
  | knot _ content => content.isEndless
  | again _ => true
  | _ => false

def itemsEndless : List Value → Bool
  | [] => false
  | v :: rest => v.isEndless || itemsEndless rest

def entriesEndless : List (Scalar × Value) → Bool
  | [] => false
  | (_, v) :: rest => v.isEndless || entriesEndless rest

end

end SparqlModel.Value
