import Mathlib
import SparqlModel.Proofs.Layout
import SparqlModel.Proofs.TextParts

/-!
# Reading the required lines

The required lines show the triples of one subject together. The first line of a group names the
subject, the last one ends with a full stop, and the lines between them with semicolons. A reader of
such lines takes the subject from a head line and holds it up to the full stop. It gives the triples
back, each once, as far as no name has a space; of a type triple it gives the class that is shown.
-/

namespace SparqlModel

theorem pairwise_idxOf_distinct {α : Type} [BEq α] [LawfulBEq α] (xs : List α) :
    (distinct xs).Pairwise fun x y => xs.idxOf x < xs.idxOf y := by
  induction xs using List.reverseRecOn with
  | nil => exact List.Pairwise.nil
  | append_singleton xs x ih =>
    have hold : (distinct xs).Pairwise fun y z => (xs ++ [x]).idxOf y < (xs ++ [x]).idxOf z := by
      apply ih.imp_of_mem
      intro y z hy hz hlt
      rwa [List.idxOf_append_of_mem (mem_distinct.mp hy),
        List.idxOf_append_of_mem (mem_distinct.mp hz)]
    rw [distinct_append_singleton]
    split_ifs with hx
    · exact hold
    · have hnew : x ∉ xs := mt mem_distinct.mpr hx
      refine List.pairwise_append.mpr ⟨hold, List.pairwise_singleton _ _, ?_⟩
      intro y hy z hz
      rw [List.mem_singleton.mp hz, List.idxOf_append_of_mem (mem_distinct.mp hy),
        List.idxOf_append_of_notMem hnew]
      have hlt := List.idxOf_lt_length_of_mem (mem_distinct.mp hy)
      omega

namespace Pattern

/-- The class that a type triple shows: the one class of its object, or the class variable. -/
def Draft.shownClass (d : Draft) (t : Triple) : String :=
  match d.typesOf t.object with
  | [c] => c
  | _ => t.object.classVariable

/-- What the line of a triple says of its subject. -/
def Draft.said (d : Draft) (t : Triple) : String :=
  if t.isType then "a " ++ d.shownClass t else t.predicate ++ " " ++ t.object.render

def lineEnd (isLast : Bool) : String :=
  if isLast then " ." else " ;"

/-- The triples of a list, divided by subject. The subjects stand in the order of their first
triples, so that no two groups have the same one, and the triples of each keep their order. -/
structure IsGrouping (ts : List Triple) (gs : List (List Triple)) : Prop where
  ne_nil : ∀ g ∈ gs, g ≠ []
  subject_eq : ∀ g ∈ gs, ∀ t ∈ g, ∀ t' ∈ g, t.subject = t'.subject
  ordered : gs.Pairwise fun g g' => ∀ t ∈ g, ∀ t' ∈ g',
    (ts.map (·.subject)).idxOf t.subject < (ts.map (·.subject)).idxOf t'.subject
  kept : ∀ n, gs.flatten.filter (·.subject = n) = ts.filter (·.subject = n)

/-- The lines of a group. Just the last one ends with a full stop. Just the first one starts with
the indent and the subject, unless there is no indent and a line happens to say what starts like the
subject. -/
structure IsBlock (d : Draft) (indent : String) (g : List Triple) (block : List String) : Prop where
  length_eq : block.length = g.length
  stop_iff : ∀ i line, block[i]? = some line →
    (" .".toList <:+ line.toList ↔ i + 1 = block.length)
  start_iff : ∀ i t line, g[i]? = some t → block[i]? = some line →
    ((indent ++ t.subject.render).toList <+: line.toList ↔
      i = 0 ∨ (indent = "" ∧
        t.subject.render.toList <+: (d.said t ++ lineEnd (i + 1 == g.length)).toList))

/-- What is read from a line: a triple, and the class if it is a type triple. -/
structure Reading where
  triple : Triple
  className : Option String

def Node.read? : List Char → Option Node
  | '?' :: name => some (.var (String.ofList name))
  | '_' :: ':' :: 'b' :: number => (String.ofList number).toInt?.map .blank
  | _ => none

def cutLast? (cs : List Char) : Option (List Char × List Char) :=
  match cs.reverse.dropWhile (· != ' ') with
  | [] => none
  | _ :: before => some (before.reverse, (cs.reverse.takeWhile (· != ' ')).reverse)

/-- Take the end off a line, and tell whether it is a full stop. -/
def cutEnd? (cs : List Char) : Option (List Char × Bool) :=
  match cs.reverse with
  | '.' :: ' ' :: rest => some (rest.reverse, true)
  | ';' :: ' ' :: rest => some (rest.reverse, false)
  | _ => none

/-- Read what a line says of its subject: a class, or a predicate and an object. -/
def readTail? (n : Node) (cs : List Char) : Option Reading :=
  (cutLast? cs).bind fun (predicate, object) =>
    if predicate = ['a'] then some ⟨⟨n, "a", n⟩, some (String.ofList object)⟩
    else (Node.read? object).map fun o => ⟨⟨n, String.ofList predicate, o⟩, none⟩

/-- Read a line without its end. A head line names a subject before its first space; any other line
is about the subject that is carried over to it. -/
def readBody? (indent : List Char) (cs : List Char) : Option Node → Option Reading
  | none =>
    (cs.dropPrefix? indent).bind fun text =>
      (Node.read? (text.takeWhile (· != ' '))).bind fun n =>
        readTail? n (text.dropWhile (· != ' ')).tail
  | some n => (cs.dropPrefix? (indent ++ indent)).bind (readTail? n)

/-- Read lines. A subject is carried over up to the line with a full stop. -/
def readLines? (indent : String) : Option Node → List String → Option (List Reading)
  | none, [] => some []
  | some _, [] => none
  | carried, line :: lines =>
    (cutEnd? line.toList).bind fun (body, isLast) =>
      (readBody? indent.toList body carried).bind fun r =>
        (readLines? indent (if isLast then none else some r.triple.subject) lines).map (r :: ·)

/-- What is to be read from the line of a triple. -/
def Draft.reading (d : Draft) (t : Triple) : Reading :=
  if t.isType then ⟨⟨t.subject, "a", t.subject⟩, some (d.shownClass t)⟩ else ⟨t, none⟩

/-- No space in the names and the class that the line of a triple shows. -/
def Draft.IsReadable (d : Draft) (t : Triple) : Prop :=
  ' ' ∉ t.subject.name.toList ∧
    (if t.isType then ' ' ∉ (d.shownClass t).toList else ' ' ∉ t.object.name.toList)

variable {d : Draft} {indent : String} {t : Triple}

theorem renderTail_eq (d : Draft) (t : Triple) : t.renderTail (d.typesOf t.object) = d.said t := by
  unfold Triple.renderTail Draft.said Draft.shownClass
  split_ifs
  · rcases d.typesOf t.object with _ | ⟨c, _ | ⟨c', rest⟩⟩ <;> rfl
  · rfl

theorem render_head (d : Draft) (indent : String) (t : Triple) (isLast : Bool) :
    t.render (d.typesOf t.object) indent true isLast =
      indent ++ t.subject.render ++ " " ++ d.said t ++ lineEnd isLast := by
  rw [← renderTail_eq]
  rfl

theorem render_carried (d : Draft) (indent : String) (t : Triple) (isLast : Bool) :
    t.render (d.typesOf t.object) indent false isLast =
      indent ++ indent ++ d.said t ++ lineEnd isLast := by
  rw [← renderTail_eq]
  rfl

theorem Node.read?_render (n : Node) : read? n.render.toList = some n := by
  cases n with
  | var a => simp [render, read?]
  | blank k =>
    have htext : (render (.blank k)).toList = '_' :: ':' :: 'b' :: k.repr.toList := by simp [render]
    rw [htext, read?, String.ofList_toList, Int.toInt?_repr]
    rfl

theorem Node.space_notMem_render {n : Node} (h : ' ' ∉ n.name.toList) : ' ' ∉ n.render.toList := by
  cases n with
  | var a => simpa [render, name] using h
  | blank k => simpa [render, name] using h

theorem span_space {l : List Char} (h : ' ' ∉ l) (rest : List Char) :
    (l ++ ' ' :: rest).takeWhile (· != ' ') = l ∧
      (l ++ ' ' :: rest).dropWhile (· != ' ') = ' ' :: rest := by
  refine Text.span_append (fun c hc => ?_) (by simp)
  rw [bne_iff_ne]
  rintro rfl
  exact h hc

theorem cutLast?_append {xs ys : List Char} (h : ' ' ∉ ys) :
    cutLast? (xs ++ ' ' :: ys) = some (xs, ys) := by
  have hreverse : (xs ++ ' ' :: ys).reverse = ys.reverse ++ ' ' :: xs.reverse := by simp
  obtain ⟨htake, hdrop⟩ := span_space (l := ys.reverse) (by simpa using h) xs.reverse
  rw [cutLast?, hreverse, htake, hdrop]
  simp

theorem cutEnd?_append (s : String) (isLast : Bool) :
    cutEnd? (s ++ lineEnd isLast).toList = some (s.toList, isLast) := by
  cases isLast <;> simp [cutEnd?, lineEnd]

theorem dropPrefix?_append (xs ys : List Char) : (xs ++ ys).dropPrefix? xs = some ys :=
  List.dropPrefix?_eq_some_iff.mpr ⟨xs, rfl, by simp⟩

theorem readTail?_said (h : d.IsReadable t) :
    readTail? t.subject (d.said t).toList = some (d.reading t) := by
  obtain ⟨-, h⟩ := h
  unfold Draft.said Draft.reading
  cases ht : t.isType with
  | true =>
    rw [ht, if_pos rfl] at h
    have htext : ("a " ++ d.shownClass t).toList = ['a'] ++ ' ' :: (d.shownClass t).toList := by
      simp
    rw [if_pos rfl, if_pos rfl, htext, readTail?, cutLast?_append h, Option.bind_some]
    simp
  | false =>
    rw [ht, if_neg Bool.false_ne_true] at h
    have htext : (t.predicate ++ " " ++ t.object.render).toList =
        t.predicate.toList ++ ' ' :: t.object.render.toList := by simp
    have hclass : t.predicate.toList ≠ ['a'] := by
      intro hpredicate
      have ha : t.predicate = "a" := by rw [← String.toList_inj, hpredicate]; rfl
      simp [Triple.isType, ha] at ht
    rw [if_neg Bool.false_ne_true, if_neg Bool.false_ne_true, htext, readTail?,
      cutLast?_append (Node.space_notMem_render h), Option.bind_some]
    simp [hclass, Node.read?_render]

theorem subject_reading (d : Draft) (t : Triple) : (d.reading t).triple.subject = t.subject := by
  unfold Draft.reading
  split_ifs <;> rfl

theorem readBody?_head (h : d.IsReadable t) :
    readBody? indent.toList (indent ++ t.subject.render ++ " " ++ d.said t).toList none =
      some (d.reading t) := by
  have htext : (indent ++ t.subject.render ++ " " ++ d.said t).toList =
      indent.toList ++ (t.subject.render.toList ++ ' ' :: (d.said t).toList) := by simp
  obtain ⟨htake, hdrop⟩ := span_space (Node.space_notMem_render h.1) (d.said t).toList
  rw [htext, readBody?, dropPrefix?_append, Option.bind_some, htake, hdrop, Node.read?_render,
    Option.bind_some, List.tail_cons, readTail?_said h]

theorem readBody?_carried (h : d.IsReadable t) :
    readBody? indent.toList (indent ++ indent ++ d.said t).toList (some t.subject) =
      some (d.reading t) := by
  have htext : (indent ++ indent ++ d.said t).toList =
      (indent.toList ++ indent.toList) ++ (d.said t).toList := by simp
  rw [htext, readBody?, dropPrefix?_append, Option.bind_some, readTail?_said h]

/-- A line is read, and the next one carries its subject unless it ends with a full stop. -/
theorem readLines?_cons {carried : Option Node} (h : d.IsReadable t)
    (hc : ∀ n ∈ carried, n = t.subject) (isLast : Bool) (lines : List String) :
    readLines? indent carried
        (t.render (d.typesOf t.object) indent carried.isNone isLast :: lines) =
      (readLines? indent (if isLast then none else some t.subject) lines).map
        (d.reading t :: ·) := by
  cases carried with
  | none =>
    rw [Option.isNone_none, render_head, readLines?, cutEnd?_append, Option.bind_some]
    simp only [readBody?_head h, Option.bind_some, subject_reading]
  | some n =>
    rw [hc n rfl, Option.isNone_some, render_carried, readLines?, cutEnd?_append,
      Option.bind_some]
    simp only [readBody?_carried h, Option.bind_some, subject_reading]

theorem readLines?_group {lines : List String} {c : Option Node} {g : List Triple}
    (hne : g ≠ []) (hread : ∀ t ∈ g, d.IsReadable t)
    (hg : ∀ t ∈ g, ∀ t' ∈ g, t.subject = t'.subject)
    (hc : ∀ n ∈ c, ∀ t ∈ g, n = t.subject) :
    readLines? indent c (groupLines d indent c.isNone g ++ lines) =
      (readLines? indent none lines).map (g.map d.reading ++ ·) := by
  induction g generalizing c with
  | nil => exact absurd rfl hne
  | cons t rest ih =>
    obtain ⟨ht, hrest⟩ := List.forall_mem_cons.mp hread
    rw [groupLines, List.cons_append,
      readLines?_cons ht (fun n hn => hc n hn t List.mem_cons_self)]
    cases rest with
    | nil => simp [groupLines]
    | cons t' rest =>
      have hsubject : ∀ u ∈ t' :: rest, t.subject = u.subject := fun u hu =>
        hg t List.mem_cons_self u (List.mem_cons_of_mem t hu)
      have hmore := ih (c := some t.subject) (by simp) hrest
        (fun u hu u' hu' => hg u (List.mem_cons_of_mem t hu) u' (List.mem_cons_of_mem t hu'))
        (fun n hn u hu => Option.some.inj hn ▸ hsubject u hu)
      rw [Option.isNone_some] at hmore
      rw [List.isEmpty_cons, if_neg Bool.false_ne_true, hmore, Option.map_map]
      rfl

theorem readLines?_groups {gs : List (List Triple)} (hne : ∀ g ∈ gs, g ≠ [])
    (hgs : ∀ g ∈ gs, ∀ t ∈ g, ∀ t' ∈ g, t.subject = t'.subject)
    (hread : ∀ t ∈ gs.flatten, d.IsReadable t) :
    readLines? indent none (gs.flatMap (groupLines d indent true)) =
      some (gs.flatten.map d.reading) := by
  induction gs with
  | nil => rfl
  | cons g rest ih =>
    obtain ⟨hg, hrest⟩ := List.forall_mem_cons.mp hne
    obtain ⟨hg', hrest'⟩ := List.forall_mem_cons.mp hgs
    rw [List.flatten_cons] at hread
    obtain ⟨hfirst, hmore⟩ := List.forall_mem_append.mp hread
    rw [List.flatMap_cons, List.flatten_cons, List.map_append]
    refine (readLines?_group (c := none) hg hfirst hg' (by simp)).trans ?_
    rw [ih hrest hrest' hmore]
    rfl

theorem length_lineEnd (isLast : Bool) : (lineEnd isLast).toList.length = 2 := by
  cases isLast <;> simp [lineEnd]

theorem triple_reading (h : t.isType = true → t.predicate = "a" ∧ t.object = t.subject) :
    (d.reading t).triple = t := by
  unfold Draft.reading
  split_ifs with ht
  · obtain ⟨hpredicate, hobject⟩ := h ht
    obtain ⟨subject, predicate, object⟩ := t
    dsimp only at hpredicate hobject
    rw [hpredicate, hobject]
  · rfl

def subjectGroups (ts : List Triple) : List (List Triple) :=
  (distinct (ts.map (·.subject))).map fun n => ts.filter (·.subject = n)

theorem map_triple_groupRows (isFirst : Bool) (ts : List Triple) :
    (groupRows isFirst ts).map (·.triple) = ts := by
  induction ts generalizing isFirst with
  | nil => rfl
  | cons t rest ih => rw [groupRows, List.map_cons, ih]

theorem flatten_subjectGroups (h : SubjectsApart d.required) :
    (subjectGroups d.required).flatten = (requiredRows d).map (·.triple) := by
  rw [requiredRows_eq h, List.map_flatMap, subjectGroups, ← List.flatMap_def]
  simp only [map_triple_groupRows]

theorem requiredLines_eq (h : SubjectsApart d.required) :
    requiredLines d indent = (subjectGroups d.required).flatMap (groupLines d indent true) := by
  rw [← text_requiredRows, requiredRows_eq h, List.map_flatMap, subjectGroups, List.flatMap_map]
  simp only [text_groupRows]

theorem isGrouping_subjectGroups (h : SubjectsApart d.required) :
    IsGrouping d.required (subjectGroups d.required) where
  ne_nil := by
    simp only [subjectGroups, List.forall_mem_map]
    intro n hn
    obtain ⟨t, ht, rfl⟩ := List.mem_map.mp (mem_distinct.mp hn)
    exact List.ne_nil_of_mem (List.mem_filter.mpr ⟨ht, by simp⟩)
  subject_eq := by
    simp only [subjectGroups, List.forall_mem_map, List.mem_filter, decide_eq_true_eq]
    rintro n - t ⟨-, ht⟩ t' ⟨-, ht'⟩
    rw [ht, ht']
  ordered := by
    rw [subjectGroups, List.pairwise_map]
    apply (pairwise_idxOf_distinct _).imp
    simp only [List.mem_filter, decide_eq_true_eq]
    rintro n n' hlt t ⟨-, rfl⟩ t' ⟨-, rfl⟩
    exact hlt
  kept n := by
    rw [flatten_subjectGroups h, List.filter_map]
    refine (congrArg (List.map _) (filter_requiredRows h n)).trans ?_
    exact map_triple_groupRows true _

/-- A grouping has each triple as often as the list. -/
theorem IsGrouping.perm {ts : List Triple} {gs : List (List Triple)} (h : IsGrouping ts gs) :
    gs.flatten.Perm ts := by
  rw [List.perm_iff_count]
  intro t
  have hcount : ∀ us : List Triple, us.count t = (us.filter (·.subject = t.subject)).count t := by
    intro us
    rw [List.count_filter (by simp)]
  rw [hcount, h.kept, ← hcount]

theorem getElem?_groupLines (isFirst : Bool) (g : List Triple) (i : ℕ) :
    (groupLines d indent isFirst g)[i]? = g[i]?.map fun t =>
      t.render (d.typesOf t.object) indent (isFirst && i == 0) (i + 1 == g.length) := by
  induction g generalizing isFirst i with
  | nil => rfl
  | cons t rest ih =>
    rw [groupLines]
    cases i with
    | zero => cases rest <;> simp
    | succ i => simp [ih]

theorem groupLines_zero {g : List Triple} {t : Triple} (ht : g[0]? = some t) :
    (groupLines d indent true g)[0]? =
      some (indent ++ t.subject.render ++ " " ++ d.said t ++ lineEnd (0 + 1 == g.length)) := by
  rw [getElem?_groupLines, ht, Option.map_some, beq_self_eq_true, Bool.and_true, render_head]

theorem groupLines_succ {g : List Triple} {t : Triple} {i : ℕ} (ht : g[i + 1]? = some t) :
    (groupLines d indent true g)[i + 1]? =
      some (indent ++ indent ++ (d.said t ++ lineEnd (i + 1 + 1 == g.length))) := by
  have hlater : (true && i + 1 == 0) = false := by simp
  rw [getElem?_groupLines, ht, Option.map_some, hlater, render_carried, String.append_assoc]

theorem length_groupLines (isFirst : Bool) (g : List Triple) :
    (groupLines d indent isFirst g).length = g.length := by
  induction g generalizing isFirst with
  | nil => rfl
  | cons t rest ih => rw [groupLines, List.length_cons, List.length_cons, ih]

theorem stop_isSuffix_iff (s : String) (isLast : Bool) :
    " .".toList <:+ (s ++ lineEnd isLast).toList ↔ isLast = true := by
  rw [String.toList_append]
  cases isLast with
  | true => exact iff_of_true (List.suffix_append _ _) rfl
  | false =>
    refine iff_of_false ?_ (by simp)
    rintro ⟨front, hfront⟩
    have hend := (List.append_inj' hfront (by rw [length_lineEnd]; simp)).2
    simp [lineEnd] at hend

theorem Node.exists_render_cons (n : Node) :
    ∃ c rest, n.render.toList = c :: rest ∧ Text.isBlank c = false := by
  cases n with
  | var a => exact ⟨'?', a.toList, by simp [render], by decide⟩
  | blank k => exact ⟨'_', ':' :: 'b' :: (toString k).toList, by simp [render], by decide⟩

/-- A line behind the head line starts with the indent and a node only if there is no indent. -/
theorem node_isPrefix_iff (hblank : ∀ c ∈ indent.toList, Text.isBlank c = true) (n : Node)
    (s : String) : (indent ++ n.render).toList <+: (indent ++ indent ++ s).toList ↔
      indent = "" ∧ n.render.toList <+: s.toList := by
  obtain ⟨c, rest, hn, hc⟩ := n.exists_render_cons
  rw [String.append_assoc, String.toList_append, String.toList_append,
    List.prefix_append_right_inj, String.toList_append]
  cases hindent : indent.toList with
  | nil =>
    have hempty : indent = "" := String.toList_eq_nil_iff.mp hindent
    simp [hempty]
  | cons b more =>
    have hb : Text.isBlank b = true := hblank b (by simp [hindent])
    refine iff_of_false ?_ ?_
    · rw [hn, List.cons_append, List.cons_prefix_cons]
      rintro ⟨rfl, -⟩
      rw [hb] at hc
      cases hc
    · rintro ⟨rfl, -⟩
      cases hindent

theorem isBlock_groupLines (hblank : ∀ c ∈ indent.toList, Text.isBlank c = true)
    (g : List Triple) : IsBlock d indent g (groupLines d indent true g) where
  length_eq := length_groupLines true g
  stop_iff i line hline := by
    rw [getElem?_groupLines] at hline
    obtain ⟨t, -, rfl⟩ := Option.map_eq_some_iff.mp hline
    rw [length_groupLines, Triple.render]
    refine (stop_isSuffix_iff _ _).trans ?_
    exact beq_iff_eq
  start_iff i t line ht hline := by
    cases i with
    | zero =>
      obtain rfl := Option.some.inj ((groupLines_zero ht).symm.trans hline)
      refine iff_of_true ?_ (Or.inl rfl)
      simp only [String.append_assoc, String.toList_append]
      exact (List.prefix_append_right_inj _).mpr (List.prefix_append _ _)
    | succ i =>
      obtain rfl := Option.some.inj ((groupLines_succ ht).symm.trans hline)
      rw [node_isPrefix_iff hblank]
      exact (or_iff_right (Nat.succ_ne_zero i)).symm

/-- The required lines show each triple once, by subject. The subjects stand in the order of their
first triples, each with one block of lines, and in a block the triples keep their order. In a block
just the last line ends with a full stop, and just the first one starts with the indent and the
subject; without an indent another line starts so too if what it says does. From lines whose names
and classes have no spaces the triples are read back. -/
theorem requiredLines_grouped (hblank : ∀ c ∈ indent.toList, Text.isBlank c = true)
    (hapart : SubjectsApart d.required) :
    ∃ (gs : List (List Triple)) (blocks : List (List String)),
      IsGrouping d.required gs ∧ gs.flatten.Perm d.required ∧
      requiredLines d indent = blocks.flatten ∧ List.Forall₂ (IsBlock d indent) gs blocks ∧
      (requiredLines d indent).length = d.required.length ∧
      ((∀ t ∈ d.required, d.IsReadable t) →
        readLines? indent none (requiredLines d indent) = some (gs.flatten.map d.reading) ∧
        ((∀ t ∈ d.required, t.isType = true → t.predicate = "a" ∧ t.object = t.subject) →
          (gs.flatten.map d.reading).map (·.triple) = gs.flatten)) := by
  have hgroups := isGrouping_subjectGroups hapart
  refine ⟨subjectGroups d.required, (subjectGroups d.required).map (groupLines d indent true),
    hgroups, hgroups.perm, ?_, ?_, ?_, fun hread => ⟨?_, fun htypes => ?_⟩⟩
  · rw [requiredLines_eq hapart, List.flatMap_def]
  · rw [List.forall₂_map_right_iff, List.forall₂_same]
    intro g _
    exact isBlock_groupLines hblank g
  · rw [← hgroups.perm.length_eq, requiredLines_eq hapart, List.length_flatMap,
      List.length_flatten]
    simp only [length_groupLines]
  · rw [requiredLines_eq hapart]
    exact readLines?_groups hgroups.ne_nil hgroups.subject_eq fun t ht =>
      hread t (hgroups.perm.subset ht)
  · rw [List.map_map, List.map_congr_left (g := id), List.map_id]
    intro t ht
    exact triple_reading (htypes t (hgroups.perm.subset ht))

/-- Triples of an entry with two parts, where those of one subject are not together. -/
def interleavedParts : Draft where
  required :=
    [⟨.var "Entry", "a", .var "Entry"⟩, ⟨.blank 2, "a", .blank 2⟩,
      ⟨.var "Entry", "ex:has", .blank 1⟩, ⟨.blank 1, "ex:value", .var "v1"⟩,
      ⟨.var "Entry", "ex:has", .blank 2⟩, ⟨.blank 2, "ex:value", .var "v2"⟩]
  optional := []
  types := [("Entry", ["ex:Entry"])]
  blanks := [⟨["ex:has"], []⟩, ⟨["ex:has"], ["ex:B"]⟩]
  events := []

theorem requiredLines_grouped_interleavedParts :
    SubjectsApart interleavedParts.required ∧
      (∀ t ∈ interleavedParts.required, interleavedParts.IsReadable t) ∧
      ∃ gs, IsGrouping interleavedParts.required gs ∧
        gs.flatten.Perm interleavedParts.required ∧
        (readLines? "  " none
          ["  ?Entry a ex:Entry ;", "    ex:has _:b1 ;", "    ex:has _:b2 .", "  _:b2 a ex:B ;",
            "    ex:value ?v2 .", "  _:b1 ex:value ?v1 ."]).map (·.map (·.triple)) =
          some gs.flatten := by
  have hapart : SubjectsApart interleavedParts.required := by
    unfold SubjectsApart
    decide +kernel
  have hreadable : ∀ t ∈ interleavedParts.required, interleavedParts.IsReadable t := by
    unfold Draft.IsReadable
    decide +kernel
  have hspace : Text.isBlank ' ' = true := by decide
  have hblank : ∀ c ∈ "  ".toList, Text.isBlank c = true := by simpa using hspace
  have hlines : requiredLines interleavedParts "  " =
      ["  ?Entry a ex:Entry ;", "    ex:has _:b1 ;", "    ex:has _:b2 .", "  _:b2 a ex:B ;",
        "    ex:value ?v2 .", "  _:b1 ex:value ?v1 ."] := by decide +kernel
  obtain ⟨gs, -, hgroups, hperm, -, -, -, hread⟩ := requiredLines_grouped hblank hapart
  obtain ⟨hlist, htriples⟩ := hread hreadable
  refine ⟨hapart, hreadable, gs, hgroups, hperm, ?_⟩
  rw [← hlines, hlist, Option.map_some, htriples (by decide +kernel)]

def variableRole : Draft where
  required := [⟨.var "Entry", "a", .var "Entry"⟩, ⟨.var "Entry", "?EntryRole", .var "role"⟩]
  optional := []
  types := [("Entry", ["ex:Entry"])]
  blanks := []
  events := []

/-- Without an indent the second line of the entry starts like the first one. Triples with a space
in a name and type triples of another form are written like different triples, so that no reader
gives both back. -/
theorem variableRole_starts_twice :
    let written (ts : List Triple) := requiredLines { variableRole with required := ts } "  "
    SubjectsApart variableRole.required ∧
      requiredLines variableRole "" = ["?Entry a ex:Entry ;", "?EntryRole ?role ."] ∧
      (¬ ∀ i line, (requiredLines variableRole "")[i]? = some line →
        (("" ++ (Node.var "Entry").render).toList <+: line.toList ↔ i = 0)) ∧
      written [⟨.var "Old Entry", "ex:role", .var "role"⟩] =
        written [⟨.var "Old", "Entry ex:role", .var "role"⟩] ∧
      written [⟨.var "Entry", "rdf:type", .var "Entry"⟩] =
        written [⟨.var "Entry", "a", .var "Entry"⟩] := by
  intro written
  have hapart : SubjectsApart variableRole.required := by
    unfold SubjectsApart
    decide +kernel
  have hlines : requiredLines variableRole "" = ["?Entry a ex:Entry ;", "?EntryRole ?role ."] := by
    decide +kernel
  refine ⟨hapart, hlines, fun h => ?_, by decide +kernel, by decide +kernel⟩
  rw [hlines] at h
  have hsecond := (h 1 "?EntryRole ?role ." rfl).mp ⟨"Role ?role .".toList, by decide⟩
  exact absurd hsecond (by decide)

end Pattern

end SparqlModel
