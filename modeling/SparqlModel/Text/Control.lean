/-!
# Control sequences

A control sequence tells a terminal how to show the text around it. It starts with an escape
character and a bracket; parameters and intermediate marks may follow, and one more character ends
it. A text that does not go to a terminal is written without them.
-/

namespace SparqlModel.Text

/-- Code points between two bounds. -/
def isBetween (first last : Nat) (c : Char) : Bool :=
  first ≤ c.toNat && c.toNat ≤ last

def afterControl? : List Char → Option (List Char)
  | '\x1b' :: '[' :: rest =>
    match (rest.dropWhile (isBetween 0x30 0x3f)).dropWhile (isBetween 0x20 0x2f) with
    | last :: rest => if isBetween 0x40 0x7e last then some rest else none
    | [] => none
  | _ => none

/-- Leave out the control sequences of a text. The bound is its length. -/
def dropControls : Nat → List Char → List Char
  | 0, cs => cs
  | _ + 1, [] => []
  | fuel + 1, c :: cs =>
    match afterControl? (c :: cs) with
    | some rest => dropControls fuel rest
    | none => c :: dropControls fuel cs

def withoutControls (s : String) : String :=
  String.ofList (dropControls s.length s.toList)

end SparqlModel.Text
