/-!
# Splitting a text at its last accepted remainder

Several notations end in a mark with a tail of a given form. The mark is sought from the end, so the
part before it is as long as possible. The part before it may be limited to characters of a class.
-/

namespace SparqlModel.Text

/-- The longest part of a text after which the remainder is accepted, and what was read from the
remainder. -/
def splitLast? {α : Type} (accept : List Char → Option α) : List Char → Option (List Char × α)
  | [] => (accept []).map ([], ·)
  | c :: cs =>
    match splitLast? accept cs with
    | some (before, a) => some (c :: before, a)
    | none => (accept (c :: cs)).map ([], ·)

/-- The longest part at the start of a text that has characters of a class only and after which the
remainder is accepted, and what was read from the remainder. -/
def splitRun? {α : Type} (inRun : Char → Bool) (accept : List Char → Option α) :
    List Char → Option (List Char × α)
  | [] => (accept []).map ([], ·)
  | c :: cs =>
    match if inRun c then splitRun? inRun accept cs else none with
    | some (run, a) => some (c :: run, a)
    | none => (accept (c :: cs)).map ([], ·)

/-- The parts of a division: characters of the class, and a remainder that is accepted. -/
theorem splitRun?_eq_some {α : Type} {inRun : Char → Bool} {accept : List Char → Option α}
    {cs run : List Char} {a : α} (h : splitRun? inRun accept cs = some (run, a)) :
    (∀ c ∈ run, inRun c = true) ∧ ∃ rest, cs = run ++ rest ∧ accept rest = some a := by
  induction cs generalizing run with
  | nil =>
    obtain ⟨b, hb, heq⟩ := Option.map_eq_some_iff.mp h
    cases heq
    exact ⟨by simp, [], rfl, hb⟩
  | cons c cs ih =>
    rw [splitRun?] at h
    split at h
    · rename_i more b hmore
      cases h
      split at hmore
      · rename_i hc
        obtain ⟨hrun, rest, rfl, hrest⟩ := ih hmore
        exact ⟨by simpa [hc] using hrun, rest, rfl, hrest⟩
      · cases hmore
    · obtain ⟨b, hb, heq⟩ := Option.map_eq_some_iff.mp h
      cases heq
      exact ⟨by simp, c :: cs, rfl, hb⟩

/-- The parts of a text between the occurrences of a character. -/
def splitOn (mark : Char) : List Char → List (List Char)
  | [] => [[]]
  | c :: cs =>
    if c == mark then [] :: splitOn mark cs
    else
      match splitOn mark cs with
      | [] => [[c]]
      | part :: parts => (c :: part) :: parts

/-- Replace the occurrences of a pattern that is not empty, from left to right. -/
def replaceAll (pattern replacement : List Char) (cs : List Char) : List Char :=
  go cs.length cs
where
  go : Nat → List Char → List Char
    | 0, cs => cs
    | _ + 1, [] => []
    | fuel + 1, c :: cs =>
      if pattern.isPrefixOf (c :: cs) then replacement ++ go fuel ((c :: cs).drop pattern.length)
      else c :: go fuel cs

def occursIn (pattern : List Char) : List Char → Bool
  | [] => pattern.isEmpty
  | c :: cs => pattern.isPrefixOf (c :: cs) || occursIn pattern cs

end SparqlModel.Text
