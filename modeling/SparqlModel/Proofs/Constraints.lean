import SparqlModel.Proofs.Coverage
import SparqlModel.Proofs.OptionalVariables
import SparqlModel.Proofs.Selection

/-!
# Constrained variables

A query may select a variable that no triple of its pattern has. A variable is in a triple line if a
route to a requested variable starts at it, if it is requested and drawn itself, if it is requested
and refers to a subject with classes, or if it happens to be named like a class variable; and in no
other case. In particular a subject that nothing refers to is constrained only through variables
that are requested along with it.
-/

namespace SparqlModel

namespace Pattern

def tripleLines (d : Draft) (indent : String) : List Line :=
  requiredPieces d indent ++ optionalPieces d indent

theorem text_tripleLines (d : Draft) (indent : String) :
    (tripleLines d indent).map Line.text = requiredLines d indent ++ optionalLines d indent := by
  rw [tripleLines, List.map_append, text_requiredPieces, text_optionalPieces]

/-- A triple whose line may show a variable: its subject, its object, or the class variable of a
node that does not have exactly one class. -/
inductive Triple.Has (d : Draft) (v : String) (u : Triple) : Prop
  | subject (h : u.subject = .var v)
  | object (ht : u.isType = false) (h : u.object = .var v)
  | classVariable (ht : u.isType = true) (hlen : (d.typesOf u.object).length ≠ 1)
      (h : u.object.name ++ "Class" = v)

theorem Row.var_mem_line {d : Draft} {v indent : String} {r : Row}
    (h : Piece.node (.var v) ∈ r.line d indent) : r.triple.Has d v := by
  rcases Row.var_mem_line_iff.mp h with ⟨-, hs⟩ | ⟨ht, ho⟩ | ⟨ht, hlen, hclass⟩
  · exact .subject hs
  · exact .object ht ho
  · exact .classVariable ht hlen hclass

theorem Row.mem_line_of_isFirst {d : Draft} {v : String} {r : Row} (h : r.triple.Has d v)
    (indent : String) (hr : r.isFirst = true ∨ r.triple.subject ≠ .var v) :
    Piece.node (.var v) ∈ r.line d indent := by
  rw [Row.var_mem_line_iff]
  cases h with
  | subject hs => exact Or.inl ⟨hr.resolve_right (absurd hs), hs⟩
  | object ht ho => exact Or.inr (Or.inl ⟨ht, ho⟩)
  | classVariable ht hlen hclass => exact Or.inr (Or.inr ⟨ht, hlen, hclass⟩)

theorem var_mem_optionalLine_iff {d : Draft} {v indent : String} {u : Triple} :
    Piece.node (.var v) ∈ optionalLine d indent u ↔
      Piece.node (.var v) ∈ Row.line d "" ⟨u, true, true⟩ := by
  simp [optionalLine]

theorem exists_has_of_mem_tripleLines {d : Draft} {v indent : String} {l : Line}
    (hl : l ∈ tripleLines d indent) (h : Piece.node (.var v) ∈ l) :
    ∃ u ∈ d.required ++ d.optional, u.Has d v := by
  rcases List.mem_append.mp hl with hl | hl
  · obtain ⟨r, hr, rfl⟩ := List.mem_map.mp hl
    exact ⟨r.triple, List.mem_append_left _ (triple_mem_of_mem_requiredRows hr),
      Row.var_mem_line h⟩
  · obtain ⟨u, hu, rfl⟩ := List.mem_map.mp hl
    exact ⟨u, List.mem_append_right _ hu, Row.var_mem_line (var_mem_optionalLine_iff.mp h)⟩

variable {ix : Index} {names : List String} {v : String}

/-- A variable is in a triple line exactly if a triple has it. -/
theorem exists_tripleLine_iff (hv : isBlankLabel v = false) (indent : String) :
    (∃ l ∈ tripleLines (Draft.ofVariables ix names) indent, Piece.node (.var v) ∈ l) ↔
      ∃ u ∈ (Draft.ofVariables ix names).required ++ (Draft.ofVariables ix names).optional,
        u.Has (Draft.ofVariables ix names) v := by
  constructor
  · rintro ⟨l, hl, hshown⟩
    exact exists_has_of_mem_tripleLines hl hshown
  · rintro ⟨u, hu, h⟩
    rcases List.mem_append.mp hu with hu | hu
    · -- the subject stands in the first row of its group only
      obtain ⟨r, hr, hshown⟩ : ∃ r ∈ requiredRows (Draft.ofVariables ix names),
          Piece.node (.var v) ∈ r.line (Draft.ofVariables ix names) indent := by
        by_cases hs : u.subject = .var v
        · obtain ⟨r, hr, hfirst, hname⟩ := exists_first_row hu
          rw [hs] at hname
          have hsubject := subject_eq_var hv (triple_mem_of_mem_requiredRows hr) hname
          exact ⟨r, hr, Row.mem_line_of_isFirst (.subject hsubject) indent (Or.inl hfirst)⟩
        · obtain ⟨r, hr, rfl⟩ := exists_mem_requiredRows hu
          exact ⟨r, hr, Row.mem_line_of_isFirst h indent (Or.inr hs)⟩
      exact ⟨_, List.mem_append_left _ (List.mem_map_of_mem hr), hshown⟩
    · refine ⟨_, List.mem_append_right _ (List.mem_map_of_mem hu), var_mem_optionalLine_iff.mpr ?_⟩
      exact Row.mem_line_of_isFirst h "" (Or.inl rfl)

/-- What puts a variable into the triples of a request. -/
inductive IsConstrained (ix : Index) (names : List String) (v : String) : Prop
  /-- The route to a requested variable starts at it. -/
  | start {name : String} {t : SparqlModel.Triple} (hname : name ∈ names)
      (hs : source? ix name = some t) (h : startName ix names t = v)
  /-- It is requested and drawn, and its path is not taken for a type predicate. -/
  | leaf {t : SparqlModel.Triple} (hv : v ∈ names) (hs : source? ix v = some t)
      (h : isTypeUri (leafStep ix names t).2 = false)
  /-- It is requested, and its object refers to a subject with classes. -/
  | classed (hv : v ∈ names) (h : Draft.referencedTypes ix v ≠ [])
  /-- It has the name of a class variable. -/
  | classVariable {u : Triple}
      (hu : u ∈ (Draft.ofVariables ix names).required ++ (Draft.ofVariables ix names).optional)
      (ht : u.isType = true) (hlen : ((Draft.ofVariables ix names).typesOf u.object).length ≠ 1)
      (h : u.object.name ++ "Class" = v)

/-- A route that ends at a variable has not left it. -/
theorem linksEnd_eq_root {node : Spot} {route pending : List String}
    {hops : List (Step × Option (List String))}
    (h : (linksEnd node route pending hops).1 = .var v) : node = .var v := by
  rw [linksEnd_eq_getLast] at h
  cases hlast : (links node route pending hops).getLast? with
  | none => rwa [hlast] at h
  | some e =>
    obtain ⟨⟨key, hkey⟩, -⟩ := links_object (List.mem_of_getLast? hlast)
    rw [hlast] at h
    cases hkey.symm.trans h

/-- Routes start at variables and go on from blank nodes. -/
theorem exists_start_of_edge {e : Edge} (he : e ∈ plan ix names) (h : e.subject = .var v) :
    ∃ name ∈ names, ∃ t, source? ix name = some t ∧
      startName ix names t = v := by
  obtain ⟨name, hname, t, hs, he⟩ := mem_plan_iff.mp he
  refine ⟨name, hname, t, hs, ?_⟩
  rcases he with he | rfl
  · obtain ⟨hr, he⟩ := mem_linkEdges he
    rcases links_subject he with hroot | ⟨key, hkey⟩
    · rw [startName, startSubject, hr]
      exact Spot.var.inj (hroot.symm.trans h)
    · rw [h] at hkey
      cases hkey
  · rw [startName, startSubject]
    rw [leafEdge, leafStep] at h
    cases hr : rendering ix names t with
    | compressed =>
      rw [hr] at h
      exact Spot.var.inj h
    | wholeRoute =>
      rw [hr] at h
      exact Spot.var.inj h
    | expanded =>
      rw [hr] at h
      exact Spot.var.inj (linksEnd_eq_root h)

theorem IsConstrained.of_edge {e : Edge} (he : e ∈ plan ix names) (h : e.subject = .var v) :
    IsConstrained ix names v := by
  obtain ⟨name, hname, t, hs, hstart⟩ := exists_start_of_edge he h
  exact .start hname hs hstart

theorem IsConstrained.of_has {u : Triple}
    (hu : u ∈ (Draft.ofVariables ix names).required ++ (Draft.ofVariables ix names).optional)
    (h : u.Has (Draft.ofVariables ix names) v) : IsConstrained ix names v := by
  obtain ⟨o, hmem⟩ := Draft.mem_append_iff.mp hu
  cases h with
  | subject hs =>
    rcases Draft.mem_ofVariables_cases hmem with
      ⟨e, he, rfl⟩ | ⟨n, rfl, ⟨e, he, rfl⟩ | ⟨name, hname, rfl, htypes⟩⟩
    · exact .of_edge he (Spot.eq_var_of_number_eq hs)
    · exact .of_edge he (Spot.eq_var_of_number_eq hs)
    · obtain rfl : name = v := Node.var.inj hs
      exact .classed hname htypes
  | object ht ho =>
    obtain ⟨e, he, -, rfl⟩ := Draft.exists_edge_of_not_isType hmem ht
    have hobject : e.object = .var v := Spot.eq_var_of_number_eq ho
    obtain ⟨name, hname, t, hsource, he⟩ := mem_plan_iff.mp he
    rcases he with he | rfl
    · obtain ⟨⟨key, hkey⟩, -⟩ := links_object (mem_linkEdges he).2
      rw [hobject] at hkey
      cases hkey
    · obtain rfl : name = v := Spot.var.inj hobject
      exact .leaf hname hsource ht
  | classVariable ht hlen hclass => exact .classVariable hu ht hlen hclass

/-- An edge of the plan leaves a triple that has its variables. -/
theorem exists_triple_of_edge (hv : isBlankLabel v = false) {e : Edge} (he : e ∈ plan ix names) :
    ∃ u ∈ (Draft.ofVariables ix names).required ++ (Draft.ofVariables ix names).optional,
      u.predicate = e.predicate ∧ (e.subject = .var v → u.subject = .var v) ∧
        (e.object = .var v → u.object = .var v) := by
  obtain ⟨u, hu, hkey⟩ := Draft.exists_mem_traced he
  obtain ⟨e', -, -, rfl⟩ := Draft.exists_edge_of_mem hu
  have hmem := Draft.mem_append_iff.mpr ⟨_, Draft.mem_ofVariables hu⟩
  have hnode : ∀ s s' : Spot, (s'.number (Draft.traced ix names).blanks).name =
      (s.number (Draft.traced ix names).blanks).name → s = .var v →
      s'.number (Draft.traced ix names).blanks = .var v := by
    rintro s s' hname rfl
    rw [eq_var_of_name_eq hv hname]
    rfl
  exact ⟨_, hmem, congrArg (·.2.1) hkey, hnode _ _ (congrArg (·.1) hkey),
    hnode _ _ (congrArg (·.2.2) hkey)⟩

theorem IsConstrained.exists_has (hv : isBlankLabel v = false) (h : IsConstrained ix names v) :
    ∃ u ∈ (Draft.ofVariables ix names).required ++ (Draft.ofVariables ix names).optional,
      u.Has (Draft.ofVariables ix names) v := by
  cases h with
  | start hname hs h =>
    obtain ⟨e, he, hsubject⟩ := Draft.exists_edge_from_start hname hs
    obtain ⟨u, hu, -, hvar, -⟩ := exists_triple_of_edge hv he
    exact ⟨u, hu, .subject (hvar (h ▸ hsubject))⟩
  | leaf hname hs h =>
    obtain ⟨u, hu, hpredicate, -, hvar⟩ := exists_triple_of_edge hv (leafEdge_mem_plan hname hs)
    refine ⟨u, hu, .object ?_ (hvar rfl)⟩
    rw [Triple.isType, hpredicate]
    exact h
  | classed hname h =>
    by_cases hs : .var v ∈ (Draft.traced ix names).subjects
    · obtain ⟨u, hu, hsubject⟩ := Draft.exists_of_mem_subjectsOf hs
      obtain ⟨o, hu⟩ := Draft.mem_append_iff.mp hu
      exact ⟨u, Draft.mem_append_iff.mpr ⟨o, Draft.mem_ofVariables hu⟩, .subject hsubject⟩
    · have htypes : (Draft.ofVariables ix names).typesOf (.var v) ≠ [] := by
        rw [(Draft.typesOf_of_not_subject hv hname hs).2]
        simpa using h
      have htyped := (Draft.mem_typedNodes_iff hv hname).mpr htypes
      refine ⟨Draft.typeTriple (.var v), List.mem_append_left _ ?_, .subject rfl⟩
      rw [Draft.ofVariables_eq, Draft.required_addTypes]
      exact List.mem_append_left _ (List.mem_map_of_mem htyped)
  | classVariable hu ht hlen h => exact ⟨_, hu, .classVariable ht hlen h⟩

end Pattern

namespace Query

open Pattern

/-- Where a selected variable occurs. Behind its declarations a query has the line that selects and
the block, which is made of `VALUES` lines and triple lines. A selected variable is in a triple line
exactly if the request constrains it. -/
theorem generate_constrains (m : Model) (request : Option (List String)) (parameters : Parameters)
    (options : Options) (limit : Option Int) :
    let w := Pattern.generate m.index request parameters options
    let selected := requestedVariables m.index (some w.variableNames)
    (∃ declarations values, (∀ l ∈ values, IsValuesLine options.indentUnit l) ∧
      (generate m request parameters options limit).1 =
        declarations ++ ["SELECT " ++ " ".intercalate (selected.map ("?" ++ ·))]
          ++ ("WHERE \x7b" :: values ++ (tripleLines w.draft options.indentUnit).map Line.text
            ++ ["\x7d"]) ++ limitLines limit) ∧
    ∀ v ∈ selected, isBlankLabel v = false →
      ((∃ l ∈ tripleLines w.draft options.indentUnit, Piece.node (.var v) ∈ l) ↔
        IsConstrained m.index w.variableNames v) := by
  intro w selected
  constructor
  · obtain ⟨values, hvalues, hblock⟩ := generate_lines m.index request parameters options
    rw [text_requiredPieces, text_optionalPieces, List.append_assoc _ _ (optionalLines _ _),
      ← text_tripleLines] at hblock
    refine ⟨prefixLines w.lines m.prefixes ++
      (if (prefixLines w.lines m.prefixes).isEmpty then [] else [""]), values, hvalues, ?_⟩
    rw [← hblock]
    rfl
  · intro v _ hv
    rw [show w.draft = Draft.ofVariables m.index w.variableNames from rfl, exists_tripleLine_iff hv]
    constructor
    · rintro ⟨u, hu, h⟩
      exact .of_has hu h
    · exact IsConstrained.exists_has hv

def singleEntry : Model where
  subjects := [⟨"Entry", none, false, [⟨"a", none, [.uri "ex:Entry" "ex:Entry"]⟩,
    ⟨"rdfs:label", none, [.var "entry_label"]⟩]⟩]
  prefixes := [("ex", "http://example.org/"), ("rdfs", "http://www.w3.org/2000/01/rdf-schema#")]
  accepted := by decide +kernel

theorem generate_constrains_singleEntry :
    let w := Pattern.generate singleEntry.index (some ["Entry", "entry_label"]) [] {}
    requestedVariables singleEntry.index (some w.variableNames) = ["Entry", "entry_label"] ∧
      isBlankLabel "Entry" = false ∧
      (∃ l ∈ tripleLines w.draft "    ", Piece.node (.var "Entry") ∈ l) ∧
      IsConstrained singleEntry.index w.variableNames "Entry" := by
  intro w
  have hline : ∃ l ∈ tripleLines w.draft "    ", Piece.node (.var "Entry") ∈ l := by
    decide +kernel
  have h := (generate_constrains singleEntry (some ["Entry", "entry_label"]) [] {} none).2 "Entry"
    (by decide +kernel) (by decide)
  exact ⟨by decide +kernel, by decide, hline, h.mp hline⟩

/-- The entry alone is selected, and no line constrains it. -/
theorem singleEntry_unconstrained :
    let w := Pattern.generate singleEntry.index (some ["Entry"]) [] {}
    singleEntry.index.isSubject "Entry" = true ∧ singleEntry.index.variableFor "Entry" = "Entry" ∧
      tripleLines w.draft "    " = [] ∧
      (generate singleEntry (some ["Entry"]) [] {} none).1 =
        ["SELECT ?Entry", "WHERE \x7b", "\x7d"] := by
  decide +kernel

end Query

end SparqlModel
