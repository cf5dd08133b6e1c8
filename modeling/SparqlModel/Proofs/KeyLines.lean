import Mathlib.Data.List.TakeWhile
import Mathlib.Tactic
import SparqlModel.Config.BlankKeys
import SparqlModel.Proofs.TextParts

/-!
# Blank-node keys line by line

The blanks around a key may run over several lines, so that what is replaced at once may be more
than a line. All the same the replacement acts on each line by itself: a line that holds a key and
nothing else has the marker in its place, and every other line is kept.
-/

namespace SparqlModel

namespace Text

theorem splitRun?_eq_none_iff {α : Type} {inRun : Char → Bool} {accept : List Char → Option α}
    {cs : List Char} : splitRun? inRun accept cs = none ↔
      ∀ run rest, cs = run ++ rest → (∀ c ∈ run, inRun c = true) → accept rest = none := by
  induction cs with
  | nil => simp [splitRun?]
  | cons c cs ih =>
    rw [splitRun?]
    constructor
    · intro h run rest hcs hrun
      split at h
      · cases h
      · rename_i hmore
        cases run with
        | nil => simpa [hcs] using h
        | cons d run =>
          obtain ⟨rfl, rfl⟩ := List.cons.inj hcs
          rw [if_pos (hrun c List.mem_cons_self)] at hmore
          exact ih.mp hmore run rest rfl fun e he => hrun e (List.mem_cons_of_mem c he)
    · intro h
      have hmore : (if inRun c = true then splitRun? inRun accept cs else none) = none := by
        split_ifs with hc
        · refine ih.mpr fun run rest hcs hrun => h (c :: run) rest (by rw [hcs]; rfl) ?_
          simpa [hc] using hrun
        · rfl
      rw [hmore, h [] (c :: cs) rfl (by simp)]
      rfl

end Text

namespace Config

/-- The blanks around a key that stands behind a mark. -/
structure KeyFrame (mark : List Char) where
  lead : List Char
  tail : List Char
  blank_lead : ∀ c ∈ lead, Text.isBlank c = true
  blank_tail : ∀ c ∈ tail, Text.isBlank c = true

def KeyFrame.line {mark : List Char} (k : KeyFrame mark) (key : String) : List Char :=
  k.lead ++ (mark ++ key.toList ++ ':' :: k.tail)

/-- A line that holds nothing but a blank-node key behind a mark. -/
def HoldsKey (mark line : List Char) : Prop :=
  ∃ k : KeyFrame mark, line = k.line blankName

inductive MarksLine : List Char → List Char → Prop
  | key {mark : List Char} (hmark : mark = [] ∨ mark = listMark) (k : KeyFrame mark) :
    MarksLine (k.line blankName) (k.line blankMarker)
  | other {line : List Char} (hplain : ¬ HoldsKey [] line) (hlisted : ¬ HoldsKey listMark line) :
    MarksLine line line

def markLine (mark line : List Char) : List Char :=
  match behindKey? mark (line.dropWhile Text.isBlank) with
  | some tail =>
    if tail.all Text.isBlank then
      line.takeWhile Text.isBlank ++ (mark ++ blankMarker.toList ++ ':' :: tail)
    else line
  | none => line

def markedLine (line : List Char) : List Char :=
  markLine [] (markLine listMark line)

variable {mark line : List Char}

theorem behindKey?_append (mark rest : List Char) :
    behindKey? mark (mark ++ blankName.toList ++ ':' :: rest) = some rest := by
  have hcs : mark ++ blankName.toList ++ ':' :: rest =
      (mark ++ blankName.toList ++ [':']) ++ rest := by simp
  rw [hcs, behindKey?, if_pos (List.isPrefixOf_iff_prefix.mpr (List.prefix_append _ _)),
    List.drop_left]

theorem KeyFrame.blanks_line (hmark : mark = [] ∨ mark = listMark) (k : KeyFrame mark)
    {key : String} {c : Char} (hkey : key.toList.head? = some c) (hc : Text.isBlank c = false) :
    (k.line key).dropWhile Text.isBlank = mark ++ key.toList ++ ':' :: k.tail ∧
      (k.line key).takeWhile Text.isBlank = k.lead := by
  have hhyphen : Text.isBlank '-' = false := by decide
  have hhead : ∀ d ∈ (mark ++ key.toList ++ ':' :: k.tail).head?, Text.isBlank d = false := by
    rcases hmark with rfl | rfl
    · simpa [hkey] using hc
    · simpa [listMark] using hhyphen
  exact (Text.span_append k.blank_lead hhead).symm

theorem blanks_key (hmark : mark = [] ∨ mark = listMark) (k : KeyFrame mark) :
    (k.line blankName).dropWhile Text.isBlank = mark ++ blankName.toList ++ ':' :: k.tail ∧
      (k.line blankName).takeWhile Text.isBlank = k.lead := by
  have hkey : blankName.toList.head? = some '[' := by simp [blankName]
  exact k.blanks_line hmark hkey (by decide)

theorem markLine_key (hmark : mark = [] ∨ mark = listMark) (k : KeyFrame mark) :
    markLine mark (k.line blankName) = k.line blankMarker := by
  obtain ⟨hdrop, htake⟩ := blanks_key hmark k
  have htail : k.tail.all Text.isBlank = true := List.all_eq_true.mpr k.blank_tail
  rw [markLine, hdrop, htake, behindKey?_append]
  simp only [htail, if_true]
  rfl

theorem markLine_of_not_holdsKey (h : ¬ HoldsKey mark line) : markLine mark line = line := by
  unfold markLine
  split
  · rename_i tail hbehind
    rw [if_neg]
    intro htail
    refine h ⟨⟨line.takeWhile Text.isBlank, tail, fun c hc => List.mem_takeWhile_imp hc,
      List.all_eq_true.mp htail⟩, ?_⟩
    rw [KeyFrame.line, ← behindKey?_eq_some hbehind, List.takeWhile_append_dropWhile]
  · rfl

theorem not_holdsKey_marker {mark' : List Char} (hmark : mark = [] ∨ mark = listMark)
    (hmark' : mark' = [] ∨ mark' = listMark) (k : KeyFrame mark) :
    ¬ HoldsKey mark' (k.line blankMarker) := by
  rintro ⟨k', heq⟩
  have hmarker : blankMarker.toList.head? = some '_' := by simp [blankMarker]
  have hdrop := (k.blanks_line hmark hmarker (by decide)).1
  rw [heq, (blanks_key hmark' k').1] at hdrop
  rcases hmark with rfl | rfl <;> rcases hmark' with rfl | rfl <;>
    simp [listMark, blankName, blankMarker] at hdrop

theorem marksLine_markedLine (line : List Char) : MarksLine line (markedLine line) := by
  by_cases hlisted : HoldsKey listMark line
  · obtain ⟨k, rfl⟩ := hlisted
    rw [markedLine, markLine_key (Or.inr rfl) k,
      markLine_of_not_holdsKey (not_holdsKey_marker (Or.inr rfl) (Or.inl rfl) k)]
    exact .key (Or.inr rfl) k
  · rw [markedLine, markLine_of_not_holdsKey hlisted]
    by_cases hplain : HoldsKey [] line
    · obtain ⟨k, rfl⟩ := hplain
      rw [markLine_key (Or.inl rfl) k]
      exact .key (Or.inl rfl) k
    · rw [markLine_of_not_holdsKey hplain]
      exact .other hplain hlisted

theorem MarksLine.not_holdsKey {line' : List Char} (h : MarksLine line line')
    (hmark : mark = [] ∨ mark = listMark) : ¬ HoldsKey mark line' := by
  cases h with
  | key hmark' k => exact not_holdsKey_marker hmark' hmark k
  | other hplain hlisted =>
    rcases hmark with rfl | rfl
    · exact hplain
    · exact hlisted

/-- A line is marked once. -/
theorem markedLine_markedLine (line : List Char) :
    markedLine (markedLine line) = markedLine line := by
  have hmarked := marksLine_markedLine line
  rw [markedLine, markLine_of_not_holdsKey (hmarked.not_holdsKey (Or.inr rfl)),
    markLine_of_not_holdsKey (hmarked.not_holdsKey (Or.inl rfl))]

theorem notMem_of_mem_splitOn {cs line : List Char} (h : line ∈ cs.splitOn '\n') :
    '\n' ∉ line := by
  induction cs generalizing line with
  | nil =>
    rw [List.splitOn_nil, List.mem_singleton] at h
    simp [h]
  | cons c cs ih =>
    obtain ⟨next, later, hnext⟩ := List.exists_cons_of_ne_nil (List.splitOn_ne_nil '\n' cs)
    rw [List.splitOn_cons_eq_if_modifyHead, hnext, List.modifyHead_cons] at h
    split_ifs at h with hc
    · rcases List.mem_cons.mp h with rfl | h
      · simp
      · exact ih (hnext ▸ h)
    · rcases List.mem_cons.mp h with rfl | h
      · rw [List.mem_cons, not_or]
        refine ⟨?_, ih (hnext ▸ List.mem_cons_self)⟩
        rintro rfl
        exact hc (beq_self_eq_true _)
      · exact ih (hnext ▸ List.mem_cons_of_mem next h)

def onLines (f : List Char → List Char) (cs : List Char) : List Char :=
  ['\n'].intercalate ((cs.splitOn '\n').map f)

def onLaterLines (f : List Char → List Char) : List Char → List Char
  | [] => []
  | c :: cs => c :: if c = '\n' then onLines f cs else onLaterLines f cs

variable {f g : List Char → List Char} {cs rest : List Char}

theorem exists_firstLine (cs : List Char) :
    ∃ line rest, cs = line ++ rest ∧ '\n' ∉ line ∧ ∀ c ∈ rest.head?, c = '\n' := by
  refine ⟨cs.takeWhile (· ≠ '\n'), cs.dropWhile (· ≠ '\n'),
    List.takeWhile_append_dropWhile.symm, fun hc => ?_, fun c hc => ?_⟩
  · simpa using List.mem_takeWhile_imp hc
  · have hstop := List.head?_dropWhile_not (· ≠ '\n') cs
    rw [show (cs.dropWhile (· ≠ '\n')).head? = some c from hc] at hstop
    simpa using hstop

theorem onLaterLines_append (h : '\n' ∉ line) (rest : List Char) :
    onLaterLines f (line ++ rest) = line ++ onLaterLines f rest := by
  induction line with
  | nil => rfl
  | cons c line ih =>
    rw [List.mem_cons, not_or] at h
    rw [List.cons_append, onLaterLines, if_neg (Ne.symm h.1), ih h.2, List.cons_append]

theorem onLines_append (h : '\n' ∉ line) (hrest : ∀ c ∈ rest.head?, c = '\n') :
    onLines f (line ++ rest) = f line ++ onLaterLines f rest := by
  cases rest with
  | nil =>
    rw [List.append_nil, onLines, List.splitOn_eq_singleton h]
    simp [onLaterLines]
  | cons c rest =>
    obtain rfl : c = '\n' := hrest c rfl
    obtain ⟨next, later, hnext⟩ := List.exists_cons_of_ne_nil (List.splitOn_ne_nil '\n' rest)
    rw [onLines, List.splitOn_append_cons_self_of_not_mem h, hnext, onLaterLines, if_pos rfl,
      onLines, hnext, List.map_cons, List.map_cons, List.intercalate_cons_cons, List.append_assoc]
    rfl

theorem onLines_eq_onLaterLines (h : '\n' ∉ line) (hrest : ∀ c ∈ rest.head?, c = '\n')
    (hkept : f line = line) : onLines f (line ++ rest) = onLaterLines f (line ++ rest) := by
  rw [onLines_append h hrest, hkept, onLaterLines_append h]

theorem onLines_onLines (hf : ∀ line, '\n' ∉ line → '\n' ∉ f line) (cs : List Char) :
    onLines g (onLines f cs) = onLines (fun line => g (f line)) cs := by
  have hlines : ∀ line ∈ (cs.splitOn '\n').map f, '\n' ∉ line := by
    simp only [List.forall_mem_map]
    intro line hline
    exact hf line (notMem_of_mem_splitOn hline)
  have hne : (cs.splitOn '\n').map f ≠ [] := by simp [List.splitOn_ne_nil]
  rw [onLines, onLines, List.splitOn_intercalate '\n' hlines hne, List.map_map]
  rfl

theorem isBlank_of_firstLine {blanks : List Char} (hblanks : ∀ c ∈ blanks, Text.isBlank c = true)
    (hcs : ∀ c ∈ cs.head?, c = '\n') (heq : blanks ++ cs = line ++ rest) (h : '\n' ∉ line) :
    ∀ c ∈ line, Text.isBlank c = true := by
  rcases List.append_eq_append_iff.mp heq with ⟨more, rfl, rfl⟩ | ⟨more, rfl, -⟩
  · cases more with
    | nil => simpa using hblanks
    | cons c more =>
      obtain rfl : c = '\n' := hcs c rfl
      simp at h
  · intro c hc
    exact hblanks c (List.mem_append_left _ hc)

/-- Blanks that stop where a line ends have no line that is changed, if blank lines are kept. -/
theorem onLaterLines_blanks {blanks : List Char}
    (hkept : ∀ line, (∀ c ∈ line, Text.isBlank c = true) → f line = line)
    (hblanks : ∀ c ∈ blanks, Text.isBlank c = true) (hcs : ∀ c ∈ cs.head?, c = '\n') :
    onLaterLines f (blanks ++ cs) = blanks ++ onLaterLines f cs := by
  induction blanks with
  | nil => rfl
  | cons c blanks ih =>
    have hmore : ∀ d ∈ blanks, Text.isBlank d = true := fun d hd =>
      hblanks d (List.mem_cons_of_mem c hd)
    have hnext : onLines f (blanks ++ cs) = onLaterLines f (blanks ++ cs) := by
      obtain ⟨line, rest, heq, hline, hrest⟩ := exists_firstLine (blanks ++ cs)
      have hblank := isBlank_of_firstLine hmore hcs heq hline
      rw [heq]
      exact onLines_eq_onLaterLines hline hrest (hkept line hblank)
    rw [List.cons_append, onLaterLines, hnext, ite_self, ih hmore, List.cons_append]

variable {lead tail : List Char}

theorem markLine_of_blank (hline : ∀ c ∈ line, Text.isBlank c = true) :
    markLine mark line = line := by
  apply markLine_of_not_holdsKey
  rintro ⟨k, rfl⟩
  have hcolon : ':' ∈ k.line blankName := by simp [KeyFrame.line]
  exact absurd (hline ':' hcolon) (by decide)

theorem notMem_markLine (hmark : mark = [] ∨ mark = listMark) (h : '\n' ∉ line) :
    '\n' ∉ markLine mark line := by
  by_cases hkey : HoldsKey mark line
  · obtain ⟨k, rfl⟩ := hkey
    rw [markLine_key hmark k]
    have hmarker : '\n' ∉ blankMarker.toList := by decide
    simpa [KeyFrame.line, hmarker, blankName] using h
  · rwa [markLine_of_not_holdsKey hkey]

theorem not_holdsKey_of_keyAt? (h : keyAt? mark (line ++ rest) = none)
    (hrest : ∀ c ∈ rest.head?, c = '\n') : ¬ HoldsKey mark line := by
  rintro ⟨k, rfl⟩
  have hbehind := Text.splitRun?_eq_none_iff.mp h k.lead
    (mark ++ blankName.toList ++ ':' :: (k.tail ++ rest)) (by simp [KeyFrame.line]) k.blank_lead
  rw [behindKey?_append, Option.bind_some] at hbehind
  have hend := Text.splitRun?_eq_none_iff.mp hbehind k.tail rest rfl k.blank_tail
  cases rest with
  | nil => cases hend
  | cons c rest =>
    obtain rfl : c = '\n' := hrest c rfl
    cases hend

/-- Where a key is found, the blank lines around it are kept and its own line is marked. -/
theorem onLines_keyed (hmark : mark = [] ∨ mark = listMark)
    (hlead : ∀ c ∈ lead, Text.isBlank c = true) (htail : ∀ c ∈ tail, Text.isBlank c = true)
    (hrest : ∀ c ∈ rest.head?, c = '\n') :
    onLines (markLine mark) (lead ++ (mark ++ blankName.toList ++ ':' :: (tail ++ rest))) =
      lead ++ (mark ++ blankMarker.toList ++ ':' :: tail)
        ++ onLaterLines (markLine mark) rest := by
  -- the induction takes the blank lines before the key away, one by one
  induction hn : lead.length using Nat.strong_induction_on generalizing lead with
  | _ n ih =>
    by_cases hfeed : '\n' ∈ lead
    · obtain ⟨line, more, rfl, hline⟩ := List.eq_append_cons_of_mem hfeed
      have hmore := ih more.length (by simp at hn; omega)
        (fun c hc => hlead c (by simp [hc])) rfl
      have hkept : markLine mark line = line :=
        markLine_of_blank fun c hc => hlead c (List.mem_append_left _ hc)
      rw [List.append_assoc, List.cons_append, onLines_append hline (by simp), hkept, onLaterLines,
        if_pos rfl, hmore]
      simp
    · obtain ⟨after, later, heq, hafter, hlater⟩ := exists_firstLine (tail ++ rest)
      let k : KeyFrame mark :=
        ⟨lead, after, hlead, isBlank_of_firstLine htail hrest heq hafter⟩
      have hline : '\n' ∉ k.line blankName := by
        rcases hmark with rfl | rfl <;>
          simp [KeyFrame.line, k, hfeed, hafter, blankName, listMark]
      have hbehind : onLaterLines (markLine mark) (tail ++ rest) =
          tail ++ onLaterLines (markLine mark) rest :=
        onLaterLines_blanks (fun _ => markLine_of_blank) htail hrest
      calc onLines (markLine mark) (lead ++ (mark ++ blankName.toList ++ ':' :: (tail ++ rest)))
          = onLines (markLine mark) (k.line blankName ++ later) := by
            rw [heq]
            simp [KeyFrame.line, k]
        _ = k.line blankMarker ++ onLaterLines (markLine mark) later := by
            rw [onLines_append hline hlater, markLine_key hmark k]
        _ = lead ++ (mark ++ blankMarker.toList ++ ':' ::
              (after ++ onLaterLines (markLine mark) later)) := by
            simp [KeyFrame.line, k]
        _ = lead ++ (mark ++ blankMarker.toList ++ ':' :: tail)
              ++ onLaterLines (markLine mark) rest := by
            rw [← onLaterLines_append hafter, ← heq, hbehind]
            simp

/-- The replacement from left to right acts on each line by itself. -/
theorem markKeys_eq (hmark : mark = [] ∨ mark = listMark) (atStart : Bool) (cs : List Char) :
    markKeys mark atStart cs =
      if atStart then onLines (markLine mark) cs else onLaterLines (markLine mark) cs := by
  fun_induction markKeys mark atStart cs with
  | case1 atStart cs lead tail rest hkey ih =>
    cases atStart with
    | false => cases hkey
    | true =>
      obtain ⟨rfl, hlead, htail, hrest⟩ := keyAt?_eq_some hkey
      -- a line ends where the key ends, so it does not matter whether one starts there too
      have hnext : onLines (markLine mark) rest = onLaterLines (markLine mark) rest :=
        onLines_eq_onLaterLines List.not_mem_nil hrest (markLine_of_blank (by simp))
      rw [ih, hnext, ite_self, if_pos rfl, onLines_keyed hmark hlead htail hrest]
  | case2 atStart hkey =>
    have hnil : onLines (markLine mark) [] = [] := by
      rw [onLines, List.splitOn_nil, List.map_singleton, markLine_of_blank (by simp)]
      rfl
    rw [hnil, onLaterLines, ite_self]
  | case3 atStart c cs hkey ih =>
    have hstep : c :: markKeys mark (c == '\n') cs = onLaterLines (markLine mark) (c :: cs) := by
      rw [ih, onLaterLines]
      simp only [beq_iff_eq]
    rw [hstep]
    cases atStart with
    | false => rfl
    | true =>
      obtain ⟨line, rest, heq, hline, hrest⟩ := exists_firstLine (c :: cs)
      rw [heq] at hkey ⊢
      have hkept := markLine_of_not_holdsKey (not_holdsKey_of_keyAt? hkey hrest)
      rw [if_pos rfl, onLines_eq_onLaterLines hline hrest hkept]

theorem toList_markBlankKeys (text : String) :
    (markBlankKeys text).toList = onLines markedLine text.toList := by
  rw [markBlankKeys, String.toList_ofList, markKeys_eq (Or.inl rfl), markKeys_eq (Or.inr rfl),
    if_pos rfl, if_pos rfl, onLines_onLines fun _ => notMem_markLine (Or.inr rfl)]
  rfl

theorem splitOn_markBlankKeys (text : String) :
    (markBlankKeys text).toList.splitOn '\n' = (text.toList.splitOn '\n').map markedLine := by
  rw [toList_markBlankKeys, onLines, List.splitOn_intercalate]
  · simp only [List.forall_mem_map]
    intro line hline
    exact notMem_markLine (Or.inl rfl)
      (notMem_markLine (Or.inr rfl) (notMem_of_mem_splitOn hline))
  · simp [List.splitOn_ne_nil]

/-- Marking the keys of a text is marking each of its lines: a line of blanks, a list mark or none,
the key and blanks has the marker in the place of the key, and every other line is kept. So the
number of lines is kept, no key is left over, and a text that was marked is not changed again. -/
theorem markBlankKeys_lines (text : String) :
    markBlankKeys text =
        String.ofList (['\n'].intercalate ((text.toList.splitOn '\n').map markedLine)) ∧
      (∀ line, MarksLine line (markedLine line)) ∧
      ((markBlankKeys text).toList.splitOn '\n').length = (text.toList.splitOn '\n').length ∧
      (∀ line ∈ (markBlankKeys text).toList.splitOn '\n',
        ¬ HoldsKey [] line ∧ ¬ HoldsKey listMark line) ∧
      markBlankKeys (markBlankKeys text) = markBlankKeys text := by
  refine ⟨?_, marksLine_markedLine, ?_, ?_, ?_⟩
  · rw [← String.toList_inj, toList_markBlankKeys, String.toList_ofList, onLines]
  · rw [splitOn_markBlankKeys, List.length_map]
  · rw [splitOn_markBlankKeys]
    simp only [List.forall_mem_map]
    intro line _
    have hmarked := marksLine_markedLine line
    exact ⟨hmarked.not_holdsKey (Or.inl rfl), hmarked.not_holdsKey (Or.inr rfl)⟩
  · rw [← String.toList_inj, toList_markBlankKeys, onLines, splitOn_markBlankKeys, List.map_map,
      toList_markBlankKeys, onLines]
    congr 2
    exact funext markedLine_markedLine

end Config

end SparqlModel
