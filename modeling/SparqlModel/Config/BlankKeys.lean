import SparqlModel.Graph.Basic
import SparqlModel.Text.Blank
import SparqlModel.Text.Split

/-!
# Blank-node keys in model files

A list cannot be the key of a mapping, so the key `[]` of a blank node is replaced by a marker
before a model file is read, and the marker by the key in the data. A key is replaced if only blanks
stand before it, from the start of a line on, and only blanks behind it, up to the end of a line.
These blanks may run over several lines. The keys behind a list mark are replaced first, then the
others.
-/

namespace SparqlModel.Config

def blankMarker : String := "__BLANK_NODE__"

/-- What stands before the first key of a list item. -/
def listMark : List Char := ['-', ' ']

def lineEnd? : List Char → Option (List Char)
  | [] => some []
  | '\n' :: rest => some ('\n' :: rest)
  | _ => none

def behindKey? (mark : List Char) (cs : List Char) : Option (List Char) :=
  let key := mark ++ blankName.toList ++ [':']
  if key.isPrefixOf cs then some (cs.drop key.length) else none

/-- A key in the line that starts here, or in one after blank lines: the blanks before it, those
behind it, and the text after these. -/
def keyAt? (mark : List Char) : List Char → Option (List Char × List Char × List Char) :=
  Text.splitRun? Text.isBlank fun cs =>
    (behindKey? mark cs).bind (Text.splitRun? Text.isBlank lineEnd?)

theorem behindKey?_eq_some {mark cs rest : List Char} (h : behindKey? mark cs = some rest) :
    cs = mark ++ blankName.toList ++ ':' :: rest := by
  rw [behindKey?] at h
  split at h
  · rename_i hkey
    obtain ⟨after, rfl⟩ := List.isPrefixOf_iff_prefix.mp hkey
    cases h
    simp
  · cases h

theorem lineEnd?_eq_some {cs rest : List Char} (h : lineEnd? cs = some rest) :
    rest = cs ∧ ∀ c ∈ cs.head?, c = '\n' := by
  unfold lineEnd? at h
  split at h <;> cases h <;> simp

/-- A key that was found stands between blanks and ends a line. -/
theorem keyAt?_eq_some {mark cs lead tail rest : List Char}
    (h : keyAt? mark cs = some (lead, tail, rest)) :
    cs = lead ++ (mark ++ blankName.toList ++ ':' :: (tail ++ rest)) ∧
      (∀ c ∈ lead, Text.isBlank c = true) ∧ (∀ c ∈ tail, Text.isBlank c = true) ∧
      ∀ c ∈ rest.head?, c = '\n' := by
  obtain ⟨hlead, keyed, rfl, hkeyed⟩ := Text.splitRun?_eq_some h
  obtain ⟨behind, hbehind, htail⟩ := Option.bind_eq_some_iff.mp hkeyed
  obtain ⟨hblank, stop, rfl, hstop⟩ := Text.splitRun?_eq_some htail
  obtain ⟨rfl, hend⟩ := lineEnd?_eq_some hstop
  exact ⟨by rw [behindKey?_eq_some hbehind], hlead, hblank, hend⟩

/-- Replace the keys behind a mark, from left to right. The flag tells whether a line starts
here. -/
def markKeys (mark : List Char) (atStart : Bool) (cs : List Char) : List Char :=
  match _ : if atStart then keyAt? mark cs else none with
  | some (lead, tail, rest) =>
    lead ++ (mark ++ blankMarker.toList ++ ':' :: tail)
      ++ markKeys mark (tail.getLast? == some '\n') rest
  | none =>
    match cs with
    | [] => []
    | c :: cs => c :: markKeys mark (c == '\n') cs
termination_by cs.length
decreasing_by
  · rename_i hkey
    cases atStart with
    | false => cases hkey
    | true =>
      rw [(keyAt?_eq_some hkey).1]
      simp
      omega
  · simp

def markBlankKeys (text : String) : String :=
  String.ofList (markKeys [] true (markKeys listMark true text.toList))

def unmarkKey (key : Scalar) : Scalar :=
  if key == .text blankMarker then .text blankName else key

mutual

/-- Put the blank-node key back in the place of the marker, at every depth of lists and
mappings. -/
def unmarkBlankKeys : Value → Value
  | .list items => .list (unmarkItems items)
  | .map entries => .map (Entries.ofPairs (unmarkPairs entries))
  | v => v

def unmarkItems : List Value → List Value
  | [] => []
  | v :: rest => unmarkBlankKeys v :: unmarkItems rest

def unmarkPairs : List (Scalar × Value) → List (Scalar × Value)
  | [] => []
  | (k, v) :: rest => (unmarkKey k, unmarkBlankKeys v) :: unmarkPairs rest

end

end SparqlModel.Config
