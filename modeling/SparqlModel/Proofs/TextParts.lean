import Mathlib.Data.List.TakeWhile
import Mathlib.Tactic
import SparqlModel.Text.Blank
import SparqlModel.Text.Split

/-!
# Parts of a text

What trimming, the division into words, the division at the last accepted remainder and the division
at a mark give for a text that was put together from known parts.
-/

namespace SparqlModel.Text

variable {drop : Char → Bool} {cs : List Char}

theorem dropWhile_eq_self_iff_head? :
    cs.dropWhile drop = cs ↔ ∀ c ∈ cs.head?, drop c = false := by
  cases cs with
  | nil => simp
  | cons c cs => simp [List.dropWhile_eq_self_iff]

theorem span_append {front rest : List Char} (hfront : ∀ c ∈ front, drop c = true)
    (hrest : ∀ c ∈ rest.head?, drop c = false) :
    (front ++ rest).takeWhile drop = front ∧ (front ++ rest).dropWhile drop = rest := by
  rw [List.takeWhile_append_of_pos hfront, List.dropWhile_append_of_pos hfront,
    dropWhile_eq_self_iff_head?.mpr hrest]
  refine ⟨?_, rfl⟩
  cases rest with
  | nil => simp
  | cons c rest => simp [hrest c rfl]

theorem trimBy_isInfix (drop : Char → Bool) (cs : List Char) : trimBy drop cs <:+: cs := by
  have hstart : trimBy drop cs <+: cs.dropWhile drop := by
    rw [← List.reverse_suffix, trimBy, List.reverse_reverse]
    exact List.dropWhile_suffix drop
  exact hstart.isInfix.trans (List.dropWhile_suffix drop).isInfix

/-- Trimming changes nothing if the ends are kept, and only then. -/
theorem trimBy_eq_self_iff : trimBy drop cs = cs ↔
    (∀ c ∈ cs.head?, drop c = false) ∧ ∀ c ∈ cs.getLast?, drop c = false := by
  rw [← List.head?_reverse, ← dropWhile_eq_self_iff_head?, ← dropWhile_eq_self_iff_head?]
  constructor
  · intro h
    have hfront : cs.dropWhile drop = cs := by
      apply (List.dropWhile_suffix drop).eq_of_length_le
      have hlen : (trimBy drop cs).length ≤ (cs.dropWhile drop).length := by
        simpa [trimBy] using List.length_dropWhile_le drop (cs.dropWhile drop).reverse
      rwa [h] at hlen
    refine ⟨hfront, ?_⟩
    rw [trimBy, hfront] at h
    exact List.reverse_eq_iff.mp h
  · rintro ⟨hfront, hback⟩
    rw [trimBy, hfront, hback, List.reverse_reverse]

theorem trimBy_around {front back : List Char} (hfront : ∀ c ∈ front, drop c = true)
    (hback : ∀ c ∈ back, drop c = true) (h : trimBy drop cs = cs) :
    trimBy drop (front ++ (cs ++ back)) = cs := by
  cases cs with
  | nil =>
    have hall : (front ++ back).dropWhile drop = [] := by
      rw [List.dropWhile_eq_nil_iff]
      intro c hc
      exact (List.mem_append.mp hc).elim (hfront c) (hback c)
    rw [List.nil_append, trimBy, hall]
    rfl
  | cons c cs =>
    obtain ⟨hhead, hlast⟩ := trimBy_eq_self_iff.mp h
    have hreverse : ∀ d ∈ back.reverse, drop d = true := fun d hd =>
      hback d (List.mem_reverse.mp hd)
    rw [trimBy, (span_append hfront (by simpa using hhead)).2, List.reverse_append,
      (span_append hreverse (by rwa [List.head?_reverse])).2, List.reverse_reverse]

theorem strip_eq_self_iff {s : String} : strip s = s ↔ trimBy isBlank s.toList = s.toList := by
  rw [strip, ← String.toList_inj, String.toList_ofList]

theorem trimBy_trimBy (drop : Char → Bool) (cs : List Char) :
    trimBy drop (trimBy drop cs) = trimBy drop cs := by
  have hkept : ∀ ds : List Char, ∀ c ∈ (ds.dropWhile drop).head?, drop c = false := by
    intro ds c hc
    simpa [show (ds.dropWhile drop).head? = some c from hc] using List.head?_dropWhile_not drop ds
  rw [trimBy_eq_self_iff]
  constructor
  · -- the start is that of the text without its dropped start
    intro c hc
    obtain ⟨rest, hrest⟩ : trimBy drop cs <+: cs.dropWhile drop := by
      rw [← List.reverse_suffix, trimBy, List.reverse_reverse]
      exact List.dropWhile_suffix drop
    apply hkept cs c
    rw [← hrest, List.head?_append_of_ne_nil _ (List.ne_nil_of_mem (List.mem_of_mem_head? hc))]
    exact hc
  · intro c hc
    rw [trimBy, List.getLast?_reverse] at hc
    exact hkept _ c hc

/-- What is left of a text when the characters of a class are taken off both ends. -/
structure IsTrimmed (drop : Char → Bool) (cs core : List Char) : Prop where
  split : ∃ front back, cs = front ++ (core ++ back) ∧ ∀ c ∈ front ++ back, drop c = true
  start : ∀ c ∈ core.head?, drop c = false
  stop : ∀ c ∈ core.getLast?, drop c = false

theorem isTrimmed_iff {core : List Char} : IsTrimmed drop cs core ↔ trimBy drop cs = core := by
  constructor
  · rintro ⟨⟨front, back, rfl, hall⟩, hstart, hstop⟩
    obtain ⟨hfront, hback⟩ := List.forall_mem_append.mp hall
    exact trimBy_around hfront hback (trimBy_eq_self_iff.mpr ⟨hstart, hstop⟩)
  · rintro rfl
    obtain ⟨hstart, hstop⟩ := trimBy_eq_self_iff.mp (trimBy_trimBy drop cs)
    refine ⟨⟨cs.takeWhile drop, ((cs.dropWhile drop).reverse.takeWhile drop).reverse, ?_, ?_⟩,
      hstart, hstop⟩
    · rw [trimBy, ← List.reverse_append, List.takeWhile_append_dropWhile, List.reverse_reverse,
        List.takeWhile_append_dropWhile]
    · refine List.forall_mem_append.mpr ⟨fun c hc => List.mem_takeWhile_imp hc, fun c hc => ?_⟩
      exact List.mem_takeWhile_imp (List.mem_reverse.mp hc)

theorem strip_strip (s : String) : strip (strip s) = strip s := by
  rw [strip_eq_self_iff, strip, String.toList_ofList, trimBy_trimBy]

theorem strip_around {s w w' : String} (hw : ∀ c ∈ w.toList, isBlank c = true)
    (hw' : ∀ c ∈ w'.toList, isBlank c = true) (h : strip s = s) : strip (w ++ s ++ w') = s := by
  rw [strip, String.toList_append, String.toList_append, List.append_assoc,
    trimBy_around hw hw' (strip_eq_self_iff.mp h), String.ofList_toList]

theorem strip_of_no_blanks {s : String} (h : ∀ c ∈ s.toList, isBlank c = false) : strip s = s := by
  rw [strip_eq_self_iff, trimBy_eq_self_iff]
  exact ⟨fun c hc => h c (List.mem_of_mem_head? hc), fun c hc => h c (List.mem_of_getLast? hc)⟩

variable {w : List Char}

theorem leadingWord_append (h : ∀ c ∈ w, isBlank c = false) (rest : List Char) :
    leadingWord (w ++ rest) = (w ++ (leadingWord rest).1, (leadingWord rest).2) := by
  induction w with
  | nil => rfl
  | cons c cs ih =>
    have hcs := ih fun d hd => h d (List.mem_cons_of_mem c hd)
    have hc : isBlank c = false := h c List.mem_cons_self
    simp [leadingWord, hcs, hc]

theorem leadingWord_of_no_blanks (h : ∀ c ∈ w, isBlank c = false) : leadingWord w = (w, []) := by
  simpa [leadingWord] using leadingWord_append h []

theorem words_of_no_blanks {s : String} (hne : s ≠ "") (h : ∀ c ∈ s.toList, isBlank c = false) :
    words s = [s] := by
  simp [words, leadingWord_of_no_blanks h, hne]

theorem leadingWord_spec (cs : List Char) :
    (∀ c ∈ (leadingWord cs).1, isBlank c = false) ∧
      ∀ w ∈ (leadingWord cs).2, w ≠ [] ∧ ∀ c ∈ w, isBlank c = false := by
  induction cs with
  | nil => simp [leadingWord]
  | cons c cs ih =>
    obtain ⟨hfirst, hrest⟩ := ih
    rw [leadingWord]
    dsimp only
    split_ifs with hc hempty
    · exact ⟨by simp, hrest⟩
    · refine ⟨by simp, List.forall_mem_cons.mpr ⟨⟨?_, hfirst⟩, hrest⟩⟩
      simpa using hempty
    · exact ⟨List.forall_mem_cons.mpr ⟨by simpa using hc, hfirst⟩, hrest⟩

theorem of_mem_words {s w : String} (h : w ∈ words s) :
    w ≠ "" ∧ ∀ c ∈ w.toList, isBlank c = false := by
  obtain ⟨hfirst, hrest⟩ := leadingWord_spec s.toList
  obtain ⟨cs, hcs, rfl⟩ := List.mem_map.mp h
  have hspec : cs ≠ [] ∧ ∀ c ∈ cs, isBlank c = false := by
    split_ifs at hcs with hempty
    · exact hrest cs hcs
    · rcases List.mem_cons.mp hcs with rfl | hcs
      · exact ⟨by simpa using hempty, hfirst⟩
      · exact hrest cs hcs
  simpa using hspec

theorem words_space {s t : String} (hs : s ≠ "") (hs' : ∀ c ∈ s.toList, isBlank c = false)
    (ht : t ≠ "") (ht' : ∀ c ∈ t.toList, isBlank c = false) : words (s ++ " " ++ t) = [s, t] := by
  have hspace : isBlank ' ' = true := by decide
  have htail : leadingWord (' ' :: t.toList) = ([], [t.toList]) := by
    simp [leadingWord, leadingWord_of_no_blanks ht', hspace, ht]
  have hlist : (s ++ " " ++ t).toList = s.toList ++ ' ' :: t.toList := by simp
  rw [words, hlist, leadingWord_append hs', htail]
  simp [hs]

variable {α : Type} {accept : List Char → Option α} {tail : List Char} {c : Char} {a : α}

theorem splitLast?_eq_none_iff :
    splitLast? accept cs = none ↔ ∀ s, s <:+ cs → accept s = none := by
  induction cs with
  | nil => simp [splitLast?]
  | cons d cs ih =>
    rw [splitLast?]
    cases hsplit : splitLast? accept cs with
    | some r =>
      simp only [reduceCtorEq, false_iff]
      intro h
      rw [ih.mpr fun s hs => h s (hs.trans (List.suffix_cons d cs))] at hsplit
      cases hsplit
    | none =>
      have hrest := ih.mp hsplit
      simp only [Option.map_eq_none_iff, List.suffix_cons_iff]
      constructor
      · rintro h s (rfl | hs)
        · exact h
        · exact hrest s hs
      · intro h
        exact h _ (Or.inl rfl)

/-- A text is divided at a remainder that is accepted, if no shorter one is. -/
theorem splitLast?_append (ha : accept (c :: tail) = some a)
    (hnone : ∀ s, s <:+ tail → accept s = none) (before : List Char) :
    splitLast? accept (before ++ c :: tail) = some (before, a) := by
  induction before with
  | nil => simp [splitLast?, splitLast?_eq_none_iff.mpr hnone, ha]
  | cons d before ih => rw [List.cons_append, splitLast?, ih]

theorem splitLast?_eq_some {before : List Char} (h : splitLast? accept cs = some (before, a)) :
    ∃ s, before ++ s = cs ∧ accept s = some a := by
  induction cs generalizing before with
  | nil =>
    obtain ⟨b, hb, heq⟩ := Option.map_eq_some_iff.mp h
    cases heq
    exact ⟨[], rfl, hb⟩
  | cons d cs ih =>
    rw [splitLast?] at h
    cases hsplit : splitLast? accept cs with
    | some r =>
      rw [hsplit] at h
      cases h
      obtain ⟨s, hs, ha⟩ := ih hsplit
      exact ⟨s, by rw [List.cons_append, hs], ha⟩
    | none =>
      rw [hsplit] at h
      obtain ⟨b, hb, heq⟩ := Option.map_eq_some_iff.mp h
      cases heq
      exact ⟨d :: cs, rfl, hb⟩

theorem accept_eq_none {mark : Char} (hmark : ∀ s a, accept s = some a → s.head? = some mark)
    (h : mark ∉ cs) : ∀ s, s <:+ cs → accept s = none := by
  intro s hs
  by_contra hne
  obtain ⟨a, ha⟩ := Option.ne_none_iff_exists'.mp hne
  exact h (hs.subset (List.mem_of_mem_head? (hmark s a ha)))

variable {mark : Char}

theorem splitOn_ne_nil (mark : Char) (cs : List Char) : splitOn mark cs ≠ [] := by
  cases cs with
  | nil => simp [splitOn]
  | cons c cs =>
    rw [splitOn]
    split_ifs
    · simp
    · split <;> simp

/-- The parts on both sides of a mark are found apart. -/
theorem splitOn_append (cs rest : List Char) :
    splitOn mark (cs ++ mark :: rest) = splitOn mark cs ++ splitOn mark rest := by
  induction cs with
  | nil => simp [splitOn]
  | cons c cs ih =>
    by_cases hc : c = mark
    · simp [splitOn, hc, ih]
    · obtain ⟨part, parts, hparts⟩ := List.exists_cons_of_ne_nil (splitOn_ne_nil mark cs)
      simp [splitOn, hc, ih, hparts]

theorem splitOn_of_notMem {cs : List Char} (h : mark ∉ cs) : splitOn mark cs = [cs] := by
  induction cs with
  | nil => rfl
  | cons c cs ih =>
    rw [List.mem_cons, not_or] at h
    simp [splitOn, Ne.symm h.1, ih h.2]

end SparqlModel.Text
