import SparqlModel.Text.Quoted

/-!
# Suggestions for unknown names

A name that is not known may be a slip for one that is. The similarity of two names counts the
characters in the blocks that they share: their longest common block, and then the blocks on either
side of it. A known name is suggested if the shared characters are at least three fifths of all
characters of both names, counted on both sides.
-/

namespace SparqlModel.CommandLine

/-- A block that two texts share: where it starts in each of them, and how long it is. -/
structure Block where
  first : Nat
  second : Nat
  length : Nat

/-- The number of characters in which two texts agree from their start. -/
def agreement : List Char → List Char → Nat
  | c :: cs, d :: ds => if c == d then agreement cs ds + 1 else 0
  | _, _ => 0

/-- The longest block that two texts share. Of several it is the one that starts first in the first
text, and of those the one that starts first in the second. -/
def longestBlock (a b : List Char) : Block :=
  (List.range a.length).foldl
    (fun best i =>
      (List.range b.length).foldl
        (fun best j =>
          let n := agreement (a.drop i) (b.drop j)
          if best.length < n then ⟨i, j, n⟩ else best)
        best)
    ⟨0, 0, 0⟩

/-- The characters in all shared blocks. Each block shortens the first text, so its length bounds
the number of steps. -/
def sharedWithin : Nat → List Char → List Char → Nat
  | 0, _, _ => 0
  | fuel + 1, a, b =>
    let block := longestBlock a b
    if block.length = 0 then 0
    else
      sharedWithin fuel (a.take block.first) (b.take block.second) + block.length
        + sharedWithin fuel (a.drop (block.first + block.length))
            (b.drop (block.second + block.length))

def shared (a b : List Char) : Nat :=
  sharedWithin a.length a b

/-- A known name with its similarity to an unknown one: the shared characters out of all
characters. -/
structure Candidate where
  name : String
  shared : Nat
  total : Nat

namespace Candidate

def of (word name : String) : Candidate :=
  ⟨name, CommandLine.shared name.toList word.toList, name.length + word.length⟩

/-- Counted on both sides, at least three fifths are shared. -/
def isClose (c : Candidate) : Bool :=
  3 * c.total ≤ 10 * c.shared

/-- The more similar candidate comes first, and of two equally similar ones the greater name. -/
def precedes (c d : Candidate) : Bool :=
  d.shared * c.total < c.shared * d.total
    || (d.shared * c.total == c.shared * d.total && d.name ≤ c.name)

end Candidate

/-- The three known names closest to a word, in alphabetical order. -/
def suggestions (word : String) (known : List String) : List String :=
  let close := (known.map (Candidate.of word)).filter (·.isClose)
  (((close.mergeSort Candidate.precedes).take 3).map (·.name)).mergeSort fun a b => a ≤ b

/-- The question that follows the message about an unknown name. -/
def suggestionText : List String → String
  | [] => ""
  | [name] => " Did you mean " ++ Text.quoted name ++ "?"
  | names => " (Did you mean one of: " ++ ", ".intercalate (names.map Text.quoted) ++ "?)"

end SparqlModel.CommandLine
