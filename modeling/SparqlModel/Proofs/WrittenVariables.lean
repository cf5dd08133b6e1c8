import SparqlModel.Proofs.Rows
import SparqlModel.Text.Word

/-!
# Variables in the text of a line

A variable is written in a text where its mark and its name stand and no word character follows. In
a triple line a node writes its own variable. Predicates, classes and the names of other nodes are
free text, so that they may write the variable as well.
-/

namespace SparqlModel.Pattern

/-- A text holds a question mark and the name of a variable, with no word character behind. -/
def HasVariable (v s : String) : Prop :=
  ∃ front back, s.toList = front ++ '?' :: (v.toList ++ back) ∧
    ∀ c ∈ back.head?, Text.isWord c = false

def findsVariable (v : List Char) : List Char → Bool
  | [] => false
  | c :: cs =>
    (c == '?' && v.isPrefixOf cs && (cs.drop v.length).head?.all fun c => !Text.isWord c)
      || findsVariable v cs

theorem findsVariable_iff {v cs : List Char} : findsVariable v cs = true ↔
    ∃ front back, cs = front ++ '?' :: (v ++ back) ∧ ∀ c ∈ back.head?, Text.isWord c = false := by
  induction cs with
  | nil => simp [findsVariable]
  | cons c cs ih =>
    rw [findsVariable, Bool.or_eq_true, ih]
    constructor
    · rintro (h | ⟨front, back, rfl, hback⟩)
      · simp only [Bool.and_eq_true, beq_iff_eq, List.isPrefixOf_iff_prefix] at h
        obtain ⟨⟨rfl, back, rfl⟩, hback⟩ := h
        refine ⟨[], back, rfl, fun c hc => ?_⟩
        rw [List.drop_left, Option.all_eq_true] at hback
        simpa using hback c hc
      · exact ⟨c :: front, back, rfl, hback⟩
    · rintro ⟨front, back, hcs, hback⟩
      cases front with
      | nil =>
        obtain ⟨rfl, rfl⟩ := List.cons.inj hcs
        left
        simp only [Bool.and_eq_true, beq_iff_eq, List.isPrefixOf_iff_prefix, List.drop_left,
          Option.all_eq_true]
        exact ⟨⟨trivial, List.prefix_append v back⟩, fun c hc => by simpa using hback c hc⟩
      | cons d front =>
        obtain ⟨rfl, rfl⟩ := List.cons.inj hcs
        exact Or.inr ⟨front, back, rfl, hback⟩

instance (v s : String) : Decidable (HasVariable v s) :=
  decidable_of_iff _ findsVariable_iff

variable {v s t indent : String}

theorem not_hasVariable (h : '?' ∉ s.toList) : ¬HasVariable v s := by
  rintro ⟨front, back, hs, -⟩
  simp [hs] at h

theorem hasVariable_append_iff (h : '?' ∉ s.toList) :
    HasVariable v (s ++ t) ↔ HasVariable v t := by
  constructor
  · rintro ⟨front, back, hst, hback⟩
    rw [String.toList_append, List.append_eq_append_iff] at hst
    rcases hst with ⟨rest, rfl, ht⟩ | ⟨rest, hs, hrest⟩
    · exact ⟨rest, back, ht, hback⟩
    · cases rest with
      | nil => exact ⟨[], back, hrest.symm, hback⟩
      | cons c rest =>
        obtain ⟨rfl, -⟩ := List.cons.inj hrest
        simp [hs] at h
  · rintro ⟨front, back, ht, hback⟩
    exact ⟨s.toList ++ front, back, by simp [ht], hback⟩

theorem isWord_space : Text.isWord ' ' = false := by
  decide +kernel

/-- A variable without a space is written before or behind a space. -/
theorem hasVariable_space_iff (hv : ' ' ∉ v.toList) :
    HasVariable v (s ++ " " ++ t) ↔ HasVariable v s ∨ HasVariable v t := by
  have htext : (s ++ " " ++ t).toList = s.toList ++ ' ' :: t.toList := by simp
  constructor
  · rintro ⟨front, back, hst, hback⟩
    rw [htext, List.append_eq_append_iff] at hst
    rcases hst with ⟨rest, rfl, ht⟩ | ⟨rest, hs, hrest⟩
    · cases rest with
      | nil => simp at ht
      | cons c rest => exact Or.inr ⟨rest, back, (List.cons.inj ht).2, hback⟩
    · left
      cases rest with
      | nil => simp at hrest
      | cons c rest =>
        obtain ⟨rfl, htail⟩ := List.cons.inj hrest
        rcases List.append_eq_append_iff.mp htail with ⟨more, hmore, rfl⟩ | ⟨more, hmore, hspace⟩
        · refine ⟨front, more, by rw [hs, hmore], fun c hc => hback c ?_⟩
          rw [Option.mem_def] at hc
          simp [List.head?_append, hc]
        · cases more with
          | nil => exact ⟨front, [], by simp [hs, hmore], by simp⟩
          | cons c more =>
            obtain ⟨rfl, -⟩ := List.cons.inj hspace
            simp [hmore] at hv
  · rintro (⟨front, back, hs, hback⟩ | ⟨front, back, ht, hback⟩)
    · refine ⟨front, back ++ ' ' :: t.toList, by simp [htext, hs], fun c hc => ?_⟩
      cases back with
      | nil =>
        obtain rfl : ' ' = c := Option.some.inj hc
        exact isWord_space
      | cons d back => exact hback c hc
    · exact ⟨s.toList ++ ' ' :: front, back, by simp [htext, ht], hback⟩

theorem hasVariable_node (s t : String) : HasVariable v (s ++ "?" ++ v ++ " " ++ t) := by
  refine ⟨s.toList, ' ' :: t.toList, by simp, fun c hc => ?_⟩
  obtain rfl : ' ' = c := Option.some.inj hc
  exact isWord_space

theorem hasVariable_render (v : String) : HasVariable v (Node.var v).render :=
  ⟨[], [], by simp [Node.render], by simp⟩

namespace Line

/-- A part of a line other than the node of a variable writes the variable: a predicate, a class, or
the name of another node. -/
def HasStray (v : String) (l : Line) : Prop :=
  ∃ p ∈ l, p ≠ .node (.var v) ∧ HasVariable v p.render

instance (v : String) (l : Line) : Decidable (l.HasStray v) :=
  inferInstanceAs (Decidable (∃ p ∈ l, p ≠ .node (.var v) ∧ HasVariable v p.render))

theorem exists_piece_iff {l : Line} :
    (∃ p ∈ l, HasVariable v p.render) ↔ .node (.var v) ∈ l ∨ l.HasStray v := by
  constructor
  · rintro ⟨p, hp, h⟩
    by_cases hnode : p = .node (.var v)
    · exact Or.inl (hnode ▸ hp)
    · exact Or.inr ⟨p, hp, hnode, h⟩
  · rintro (h | ⟨p, hp, -, h⟩)
    · exact ⟨_, h, hasVariable_render v⟩
    · exact ⟨p, hp, h⟩

end Line

theorem hasVariable_end_iff (hv : ' ' ∉ v.toList) (isLast : Bool) :
    HasVariable v (s ++ if isLast then " ." else " ;") ↔ HasVariable v s := by
  have hnone : ∀ mark : String, '?' ∉ mark.toList →
      (HasVariable v (s ++ " " ++ mark) ↔ HasVariable v s) := by
    intro mark hmark
    rw [hasVariable_space_iff hv, or_iff_left (not_hasVariable hmark)]
  cases isLast with
  | true => simpa [String.append_assoc] using hnone "." (by decide)
  | false => simpa [String.append_assoc] using hnone ";" (by decide)

namespace Triple

variable {u : Triple} {types : List String}

theorem hasVariable_tail_iff (hv : ' ' ∉ v.toList) :
    HasVariable v (u.renderTail types) ↔ ∃ p ∈ u.tailPieces types, HasVariable v p.render := by
  rw [← text_tailPieces]
  unfold tailPieces
  have hspace : HasVariable v (u.predicate ++ " ") ↔ HasVariable v u.predicate := by
    have h := hasVariable_space_iff (s := u.predicate) (t := "") hv
    rwa [String.append_empty, or_iff_left (not_hasVariable (by decide))] at h
  split_ifs
  · split
    · simp [Piece.render]
    · simp [Piece.render, hasVariable_append_iff (s := "a ") (by decide),
        not_hasVariable (s := "a ") (by decide)]
  · simp [Piece.render, hasVariable_space_iff hv, hspace]

/-- A variable is written in a triple line exactly if it is written in one of its pieces. -/
theorem hasVariable_line_iff (hv : ' ' ∉ v.toList) (hindent : '?' ∉ indent.toList)
    (isFirst isLast : Bool) :
    HasVariable v (u.line types indent isFirst isLast).text ↔
      ∃ p ∈ u.line types indent isFirst isLast, HasVariable v p.render := by
  have hstop : ¬HasVariable v (if isLast then " ." else " ;") := by
    cases isLast <;> exact not_hasVariable (by decide)
  have hdouble : '?' ∉ (indent ++ indent).toList := by simpa using hindent
  rw [text_line, render, hasVariable_end_iff hv, line]
  cases isFirst with
  | true =>
    rw [if_pos rfl, if_pos rfl, hasVariable_space_iff hv, hasVariable_append_iff hindent,
      hasVariable_tail_iff hv]
    simp [Piece.render, hstop, not_hasVariable hindent, not_hasVariable (s := " ") (by decide),
      or_and_right, exists_or]
  | false =>
    rw [if_neg Bool.false_ne_true, if_neg Bool.false_ne_true, hasVariable_append_iff hdouble,
      hasVariable_tail_iff hv]
    simp [Piece.render, hstop, not_hasVariable hdouble, or_and_right, exists_or]

theorem hasVariable_of_mem_line {isFirst isLast : Bool}
    (h : Piece.node (.var v) ∈ u.line types indent isFirst isLast) (s t : String) :
    HasVariable v (s ++ (u.line types indent isFirst isLast).text ++ t) := by
  have hstop : ∃ mark, (if isLast then " ." else " ;") = " " ++ mark := by
    cases isLast
    · exact ⟨";", rfl⟩
    · exact ⟨".", rfl⟩
  obtain ⟨mark, hstop⟩ := hstop
  rw [text_line, render, hstop]
  rcases var_mem_line_iff.mp h with ⟨rfl, hs⟩ | ⟨ht, ho⟩ | ⟨ht, hlen, rfl⟩
  · have hnode := hasVariable_node (v := v) (s ++ indent) (u.renderTail types ++ " " ++ mark ++ t)
    rw [if_pos rfl, hs, show (Node.var v).render = "?" ++ v from rfl]
    simpa only [String.append_assoc] using hnode
  · have hnode := hasVariable_node (v := v) (s ++ (if isFirst then indent ++ u.subject.render ++ " "
      else indent ++ indent) ++ u.predicate ++ " ") (mark ++ t)
    have htail : u.renderTail types = u.predicate ++ " " ++ ("?" ++ v) := by
      unfold renderTail
      rw [if_neg (by simp [ht]), ho]
      rfl
    rw [htail]
    simpa only [String.append_assoc] using hnode
  · have htail : u.renderTail types = "a " ++ u.object.classVariable := by
      unfold renderTail
      rcases types with _ | ⟨c, _ | ⟨c', rest⟩⟩
      · rw [if_pos ht]
      · simp at hlen
      · rw [if_pos ht]
    have hnode := hasVariable_node (v := u.object.name ++ "Class") (s ++ (if isFirst then
      indent ++ u.subject.render ++ " " else indent ++ indent) ++ "a ") (mark ++ t)
    rw [htail, Node.classVariable]
    simpa only [String.append_assoc] using hnode

end Triple

theorem hasVariable_line_iff {l : Line} {d : Draft} (hv : ' ' ∉ v.toList)
    (hindent : '?' ∉ indent.toList) (hl : l ∈ requiredPieces d indent ++ optionalPieces d indent) :
    HasVariable v l.text ↔ .node (.var v) ∈ l ∨ l.HasStray v := by
  rw [← Line.exists_piece_iff]
  rcases List.mem_append.mp hl with hl | hl
  · obtain ⟨r, -, rfl⟩ := List.mem_map.mp hl
    exact Triple.hasVariable_line_iff hv hindent _ _
  · obtain ⟨u, -, rfl⟩ := List.mem_map.mp hl
    have hopen : '?' ∉ (indent ++ "OPTIONAL \x7b ").toList := by simpa using hindent
    have hline : HasVariable v (u.line (d.typesOf u.object) "" true true).text ↔
        ∃ p ∈ u.line (d.typesOf u.object) "" true true, HasVariable v p.render :=
      Triple.hasVariable_line_iff hv (by decide) true true
    have hclose : HasVariable v ((Row.line d "" ⟨u, true, true⟩).text ++ " \x7d") ↔
        HasVariable v (Row.line d "" ⟨u, true, true⟩).text := by
      have h := hasVariable_space_iff (s := (Row.line d "" ⟨u, true, true⟩).text) (t := "\x7d") hv
      rwa [or_iff_left (not_hasVariable (by decide)), String.append_assoc] at h
    rw [optionalLine, List.cons_append, Line.text_cons_text, Line.text_append,
      hasVariable_append_iff hopen]
    simp only [Line.text_cons_text, Line.text_nil, String.append_empty, hclose]
    rw [Row.line, hline]
    simp [Piece.render, not_hasVariable hopen, not_hasVariable (s := " \x7d") (by decide),
      or_and_right, exists_or]

theorem hasVariable_of_mem {l : Line} {d : Draft}
    (hl : l ∈ requiredPieces d indent ++ optionalPieces d indent) (h : .node (.var v) ∈ l) :
    HasVariable v l.text := by
  rcases List.mem_append.mp hl with hl | hl
  · obtain ⟨r, -, rfl⟩ := List.mem_map.mp hl
    simpa [Row.line] using Triple.hasVariable_of_mem_line h "" ""
  · obtain ⟨u, -, rfl⟩ := List.mem_map.mp hl
    have hline : Piece.node (.var v) ∈ u.line (d.typesOf u.object) "" true true := by
      simpa [optionalLine, Row.line] using h
    have := Triple.hasVariable_of_mem_line hline (indent ++ "OPTIONAL \x7b ") " \x7d"
    simpa [optionalLine, Row.line, String.append_assoc] using this

end SparqlModel.Pattern
