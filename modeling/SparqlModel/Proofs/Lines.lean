import SparqlModel.Proofs.Names

/-!
# Lines and the nodes in them

A triple line is made of pieces: fixed text and nodes of the pattern, where a class variable counts
as a variable. The lines of a block are the texts of these pieces, so that "a node occurs in a line"
is a statement about pieces and not about characters.
-/

namespace SparqlModel.Pattern

inductive Piece
  | text (s : String)
  | node (n : Node)
deriving DecidableEq

def Piece.render : Piece → String
  | text s => s
  | node n => n.render

abbrev Line := List Piece

def Line.text (l : Line) : String :=
  String.join (l.map (·.render))

namespace Line

@[simp] theorem text_nil : text [] = "" := rfl

@[simp] theorem text_cons_text (s : String) (l : Line) : text (.text s :: l) = s ++ text l := by
  simp [text, Piece.render]

@[simp] theorem text_cons_node (n : Node) (l : Line) :
    text (.node n :: l) = n.render ++ text l := by
  simp [text, Piece.render]

@[simp] theorem text_append (l l' : Line) : text (l ++ l') = text l ++ text l' := by
  simp [text]

end Line

namespace Triple

/-- The pieces of a predicate and its object. A type triple shows in place of its object the class
of it, or its class variable. -/
def tailPieces (t : Triple) (objectTypes : List String) : Line :=
  if t.isType then
    match objectTypes with
    | [c] => [.text ("a " ++ c)]
    | _ => [.text "a ", .node (.var (t.object.name ++ "Class"))]
  else [.text (t.predicate ++ " "), .node t.object]

def line (t : Triple) (objectTypes : List String) (indent : String) (isFirst isLast : Bool) :
    Line :=
  (if isFirst then [.text indent, .node t.subject, .text " "] else [.text (indent ++ indent)])
    ++ t.tailPieces objectTypes ++ [.text (if isLast then " ." else " ;")]

@[simp] theorem text_tailPieces (t : Triple) (objectTypes : List String) :
    Line.text (t.tailPieces objectTypes) = t.renderTail objectTypes := by
  unfold tailPieces renderTail
  split_ifs with ht
  · split <;> simp [Node.render, Node.classVariable, String.append_assoc]
  · simp

@[simp] theorem text_line (t : Triple) (objectTypes : List String) (indent : String)
    (isFirst isLast : Bool) :
    Line.text (t.line objectTypes indent isFirst isLast) =
      t.render objectTypes indent isFirst isLast := by
  cases isFirst <;> simp [line, render, String.append_assoc]

theorem node_subject_mem_line (t : Triple) (objectTypes : List String) (indent : String)
    (isLast : Bool) : Piece.node t.subject ∈ t.line objectTypes indent true isLast := by
  simp [line]

theorem node_object_mem_line {t : Triple} (ht : t.isType = false) (objectTypes : List String)
    (indent : String) (isFirst isLast : Bool) :
    Piece.node t.object ∈ t.line objectTypes indent isFirst isLast := by
  simp [line, tailPieces, ht]

theorem eq_of_blank_mem_line {t : Triple} {objectTypes : List String} {indent : String}
    {isFirst isLast : Bool} {k : Int}
    (h : Piece.node (.blank k) ∈ t.line objectTypes indent isFirst isLast) :
    .blank k = t.subject ∨ .blank k = t.object := by
  unfold line tailPieces at h
  simp only [List.mem_append, List.mem_singleton, reduceCtorEq, or_false] at h
  rcases h with h | h
  · cases isFirst <;> simp at h
    exact Or.inl h
  · split_ifs at h with ht
    · split at h <;> simp at h
    · simp at h
      exact Or.inr h

/-- The variables of a line: its subject in the first line of a group, its object, or the class
variable of a node that does not have exactly one class. -/
theorem var_mem_line_iff {t : Triple} {objectTypes : List String} {indent : String}
    {isFirst isLast : Bool} {v : String} :
    Piece.node (.var v) ∈ t.line objectTypes indent isFirst isLast ↔
      (isFirst = true ∧ t.subject = .var v) ∨ (t.isType = false ∧ t.object = .var v) ∨
      (t.isType = true ∧ objectTypes.length ≠ 1 ∧ t.object.name ++ "Class" = v) := by
  have htail : Piece.node (.var v) ∈ t.tailPieces objectTypes ↔
      (t.isType = false ∧ t.object = .var v) ∨
      (t.isType = true ∧ objectTypes.length ≠ 1 ∧ t.object.name ++ "Class" = v) := by
    unfold tailPieces
    cases ht : t.isType with
    | true => rcases objectTypes with _ | ⟨c, _ | ⟨c', rest⟩⟩ <;> simp [eq_comm]
    | false => simp [eq_comm]
  rw [← htail]
  unfold line
  cases isFirst with
  | true =>
    simp only [List.mem_append, List.mem_cons, List.not_mem_nil, or_false, reduceCtorEq, false_or,
      if_true, true_and, Piece.node.injEq]
    rw [eq_comm]
  | false => simp

end Triple

theorem groups_append_singleton (ts : List Triple) (t : Triple) :
    groups (ts ++ [t]) = Table.insert t.subject.name
      (((Table.get? t.subject.name (groups ts)).getD []) ++ [t]) (groups ts) := by
  simp [groups, List.foldl_append]

theorem exists_group {ts : List Triple} {t : Triple} (ht : t ∈ ts) :
    ∃ us, Table.get? t.subject.name (groups ts) = some us ∧ t ∈ us := by
  induction ts using List.reverseRecOn with
  | nil => simp at ht
  | append_singleton ts t' ih =>
    rw [groups_append_singleton]
    by_cases hn : t.subject.name = t'.subject.name
    · rw [hn, Table.get?_insert_self]
      refine ⟨_, rfl, ?_⟩
      rcases List.mem_append.mp ht with ht | ht
      · obtain ⟨us, hus, hmem⟩ := ih ht
        rw [hn] at hus
        simp [hus, hmem]
      · exact List.mem_append_right _ ht
    · rw [Table.get?_insert_of_ne hn]
      rcases List.mem_append.mp ht with ht | ht
      · exact ih ht
      · exact absurd (by rw [List.mem_singleton.mp ht]) hn

def IsValuesLine (indent line : String) : Prop :=
  ∃ variableName value, line = valuesLine indent variableName value

theorem mem_pushLine {line l : String} {lines : List String} (h : l ∈ pushLine line lines) :
    l ∈ lines ∨ l = line := by
  unfold pushLine at h
  split_ifs at h
  · exact Or.inl h
  · simpa using h

theorem isValuesLine_parameterLines {ix : Index} {options : Options} (parameters : Parameters)
    {lines : List String} (hlines : ∀ l ∈ lines, IsValuesLine options.indentUnit l) :
    ∀ l ∈ (parameterLines ix options parameters lines).1, IsValuesLine options.indentUnit l := by
  induction parameters generalizing lines with
  | nil => exact hlines
  | cons parameter rest ih =>
    obtain ⟨name, value⟩ := parameter
    rw [parameterLines]
    cases ix.findObject? name with
    | none => exact ih hlines
    | some object =>
      apply ih
      intro l hl
      rcases mem_pushLine hl with hl | rfl
      · exact hlines l hl
      · exact ⟨_, _, rfl⟩

theorem isValuesLine_classLines {options : Options} {d : Draft} {lines : List String}
    (hlines : ∀ l ∈ lines, IsValuesLine options.indentUnit l) :
    ∀ l ∈ classLines options d lines, IsValuesLine options.indentUnit l := by
  unfold classLines
  generalize d.subjects.filter _ = nodes
  induction nodes generalizing lines with
  | nil => exact hlines
  | cons n rest ih =>
    apply ih
    intro l hl
    rcases mem_pushLine hl with hl | rfl
    · exact hlines l hl
    · exact ⟨_, _, rfl⟩

end SparqlModel.Pattern
