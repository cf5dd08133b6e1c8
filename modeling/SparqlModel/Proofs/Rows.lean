import SparqlModel.Proofs.Lines

/-!
# The rows of the required lines

The required lines are rows: a triple with its place in the group of its subject. A row shows its
subject if it is the first one of its group. Behind that it shows the object of its triple, or the
class variable of a node that does not have exactly one class.
-/

namespace SparqlModel

theorem Table.mem_insert {α : Type} {name : String} {value : α} {table : Table α}
    {entry : String × α} (h : entry ∈ insert name value table) :
    entry ∈ table ∨ entry = (name, value) := by
  induction table with
  | nil => exact Or.inr (List.mem_singleton.mp h)
  | cons first rest ih =>
    obtain ⟨n, v⟩ := first
    rw [insert] at h
    split_ifs at h with hn
    · rcases List.mem_cons.mp h with rfl | h
      · exact Or.inr (by rw [beq_iff_eq.mp hn])
      · exact Or.inl (List.mem_cons_of_mem _ h)
    · rcases List.mem_cons.mp h with rfl | h
      · exact Or.inl List.mem_cons_self
      · exact (ih h).imp_left (List.mem_cons_of_mem _)

namespace Pattern

/-- A line of a group: its triple, and whether it is the first one and the last one. -/
structure Row where
  triple : Triple
  isFirst : Bool
  isLast : Bool

def groupRows : Bool → List Triple → List Row
  | _, [] => []
  | isFirst, t :: rest => ⟨t, isFirst, rest.isEmpty⟩ :: groupRows false rest

def requiredRows (d : Draft) : List Row :=
  (groups d.required).flatMap fun g => groupRows true g.2

def Row.line (d : Draft) (indent : String) (r : Row) : Line :=
  r.triple.line (d.typesOf r.triple.object) indent r.isFirst r.isLast

def requiredPieces (d : Draft) (indent : String) : List Line :=
  (requiredRows d).map (·.line d indent)

def optionalLine (d : Draft) (indent : String) (u : Triple) : Line :=
  .text (indent ++ "OPTIONAL \x7b ") :: Row.line d "" ⟨u, true, true⟩ ++ [.text " \x7d"]

def optionalPieces (d : Draft) (indent : String) : List Line :=
  d.optional.map (optionalLine d indent)

theorem Row.text_line (d : Draft) (indent : String) (r : Row) :
    (r.line d indent).text =
      r.triple.render (d.typesOf r.triple.object) indent r.isFirst r.isLast :=
  Triple.text_line ..

theorem Row.var_mem_line_iff {d : Draft} {indent : String} {r : Row} {v : String} :
    Piece.node (.var v) ∈ r.line d indent ↔
      (r.isFirst = true ∧ r.triple.subject = .var v) ∨
      (r.triple.isType = false ∧ r.triple.object = .var v) ∨
      (r.triple.isType = true ∧ (d.typesOf r.triple.object).length ≠ 1 ∧
        r.triple.object.name ++ "Class" = v) :=
  Triple.var_mem_line_iff

theorem text_groupRows (d : Draft) (indent : String) (isFirst : Bool) (ts : List Triple) :
    (groupRows isFirst ts).map (fun r => (r.line d indent).text) =
      groupLines d indent isFirst ts := by
  induction ts generalizing isFirst with
  | nil => rfl
  | cons t rest ih => rw [groupRows, groupLines, List.map_cons, ih, Row.text_line]

theorem text_requiredRows (d : Draft) (indent : String) :
    (requiredRows d).map (fun r => (r.line d indent).text) = requiredLines d indent := by
  simp [requiredRows, requiredLines, List.map_flatMap, text_groupRows]

theorem text_requiredPieces (d : Draft) (indent : String) :
    (requiredPieces d indent).map Line.text = requiredLines d indent := by
  rw [requiredPieces, List.map_map, ← text_requiredRows]
  rfl

theorem text_optionalPieces (d : Draft) (indent : String) :
    (optionalPieces d indent).map Line.text = optionalLines d indent := by
  rw [optionalPieces, List.map_map, optionalLines]
  refine List.map_congr_left fun u _ => ?_
  simp [optionalLine, Row.text_line, String.append_assoc]

theorem triple_mem_of_mem_groupRows {isFirst : Bool} {ts : List Triple} {r : Row}
    (h : r ∈ groupRows isFirst ts) : r.triple ∈ ts := by
  induction ts generalizing isFirst with
  | nil => simp [groupRows] at h
  | cons t rest ih =>
    rcases List.mem_cons.mp h with rfl | h
    · exact List.mem_cons_self
    · exact List.mem_cons_of_mem t (ih h)

theorem exists_mem_groupRows (isFirst : Bool) {ts : List Triple} {t : Triple} (h : t ∈ ts) :
    ∃ r ∈ groupRows isFirst ts, r.triple = t := by
  induction ts generalizing isFirst with
  | nil => simp at h
  | cons t' rest ih =>
    rcases List.mem_cons.mp h with rfl | h
    · exact ⟨_, List.mem_cons_self, rfl⟩
    · obtain ⟨r, hr, ht⟩ := ih false h
      exact ⟨r, List.mem_cons_of_mem _ hr, ht⟩

theorem mem_of_mem_groups {ts : List Triple} {g : String × List Triple} (hg : g ∈ groups ts)
    {t : Triple} (ht : t ∈ g.2) : t ∈ ts ∧ t.subject.name = g.1 := by
  induction ts using List.reverseRecOn generalizing g t with
  | nil => simp [groups] at hg
  | append_singleton ts u ih =>
    rw [groups_append_singleton] at hg
    rcases Table.mem_insert hg with hg | rfl
    · exact (ih hg ht).imp_left (List.mem_append_left _)
    · rcases List.mem_append.mp ht with ht | ht
      · cases hold : Table.get? u.subject.name (groups ts) with
        | none => simp [hold] at ht
        | some us =>
          rw [hold] at ht
          exact (ih (Table.mem_of_get? hold) ht).imp_left (List.mem_append_left _)
      · rw [List.mem_singleton.mp ht]
        exact ⟨by simp, rfl⟩

theorem triple_mem_of_mem_requiredRows {d : Draft} {r : Row} (h : r ∈ requiredRows d) :
    r.triple ∈ d.required := by
  obtain ⟨g, hg, hr⟩ := List.mem_flatMap.mp h
  exact (mem_of_mem_groups hg (triple_mem_of_mem_groupRows hr)).1

theorem exists_mem_requiredRows {d : Draft} {t : Triple} (h : t ∈ d.required) :
    ∃ r ∈ requiredRows d, r.triple = t := by
  obtain ⟨us, hus, ht⟩ := exists_group h
  obtain ⟨r, hr, rfl⟩ := exists_mem_groupRows true ht
  exact ⟨r, List.mem_flatMap.mpr ⟨_, Table.mem_of_get? hus, hr⟩, rfl⟩

/-- The subject of a required triple is shown in the first row of its group, or another subject with
its name is. -/
theorem exists_first_row {d : Draft} {t : Triple} (h : t ∈ d.required) :
    ∃ r ∈ requiredRows d, r.isFirst = true ∧ r.triple.subject.name = t.subject.name := by
  obtain ⟨us, hus, ht⟩ := exists_group h
  have hg := Table.mem_of_get? hus
  cases us with
  | nil => simp at ht
  | cons u rest =>
    refine ⟨⟨u, true, rest.isEmpty⟩, List.mem_flatMap.mpr ⟨_, hg, List.mem_cons_self⟩, rfl, ?_⟩
    exact (mem_of_mem_groups hg List.mem_cons_self).2

theorem node_object_mem_required {d : Draft} (indent : String) {t : Triple} (ht : t ∈ d.required)
    (htype : t.isType = false) : Piece.node t.object ∈ (requiredPieces d indent).flatten := by
  obtain ⟨r, hr, rfl⟩ := exists_mem_requiredRows ht
  exact List.mem_flatten_of_mem (List.mem_map_of_mem hr)
    (Triple.node_object_mem_line htype _ indent r.isFirst r.isLast)

theorem exists_group_of_optional {d : Draft} (indent : String) {t : Triple} (ht : t ∈ d.optional) :
    ∃ l ∈ optionalPieces d indent, Piece.node t.subject ∈ l := by
  refine ⟨_, List.mem_map_of_mem ht, ?_⟩
  have h := Triple.node_subject_mem_line t (d.typesOf t.object) "" true
  simp [optionalLine, Row.line, h]

/-- The block of a request: its `VALUES` lines, then the pieces of the required lines and those of
the optional groups. -/
theorem generate_lines (ix : Index) (request : Option (List String)) (parameters : Parameters)
    (options : Options) :
    let w := generate ix request parameters options
    ∃ values, (∀ l ∈ values, IsValuesLine options.indentUnit l) ∧
      w.lines = "WHERE \x7b" :: values
        ++ (requiredPieces w.draft options.indentUnit).map Line.text
        ++ (optionalPieces w.draft options.indentUnit).map Line.text ++ ["\x7d"] := by
  intro w
  rw [text_requiredPieces, text_optionalPieces]
  cases he : options.emitValues with
  | true =>
    refine ⟨classLines options w.draft (parameterLines ix options parameters []).1, ?_, ?_⟩
    · exact isValuesLine_classLines (isValuesLine_parameterLines parameters (by simp))
    · simp [w, generate, he]
  | false => exact ⟨[], by simp, by simp [w, generate, he]⟩

end Pattern

end SparqlModel
