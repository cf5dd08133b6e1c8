import SparqlModel.Text.Range

/-!
# Blanks

Blanks are the white space of all scripts together with the four information separators. Text is
stripped of blanks at both ends, and divided into words at runs of blanks.
-/

namespace SparqlModel.Text

def blankRanges : List (Nat × Nat) :=
  [(0x09, 0x0d), (0x1c, 0x20), (0x85, 0x85), (0xa0, 0xa0), (0x1680, 0x1680), (0x2000, 0x200a),
    (0x2028, 0x2029), (0x202f, 0x202f), (0x205f, 0x205f), (0x3000, 0x3000)]

def isBlank (c : Char) : Bool :=
  inRanges blankRanges c.toNat

/-- Remove the characters of a class from both ends. -/
def trimBy (drop : Char → Bool) (cs : List Char) : List Char :=
  ((cs.dropWhile drop).reverse.dropWhile drop).reverse

def strip (s : String) : String :=
  String.ofList (trimBy isBlank s.toList)

/-- The word that stands at the very start of a text, which is empty before a blank, and the words
after it. -/
def leadingWord : List Char → List Char × List (List Char)
  | [] => ([], [])
  | c :: cs =>
    let (w, ws) := leadingWord cs
    if isBlank c then ([], if w.isEmpty then ws else w :: ws) else (c :: w, ws)

/-- The words of a text: its maximal runs of characters other than blanks. -/
def words (s : String) : List String :=
  let (w, ws) := leadingWord s.toList
  (if w.isEmpty then ws else w :: ws).map String.ofList

end SparqlModel.Text
