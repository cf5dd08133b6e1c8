import SparqlModel.Proofs.TypeTriples
import SparqlModel.Proofs.WrittenVariables

/-!
# Optional variables in the required lines

A variable whose only triple is optional is a node of the required lines at most where classes are
stated. Type triples are always required, so that a variable with classes shows up in its own type
triple; and a variable may happen to have the name of a class variable. Besides, the text of a
predicate, of a class or of another node may write the variable.
-/

namespace SparqlModel.Pattern

/-- Apart from type triples, one triple ends at a variable, which is optional, and no required
triple starts at it. -/
structure OnlyOptional (d : Draft) (v : String) : Prop where
  once : ∃ u ∈ d.optional,
    (d.required ++ d.optional).filter (fun u => !u.isType && u.object = .var v) = [u]
  not_subject : ∀ u ∈ d.required, u.isType = false → u.subject ≠ .var v

theorem OnlyOptional.not_object {d : Draft} {v : String} (h : OnlyOptional d v) :
    ∀ u ∈ d.required, u.isType = false → u.object ≠ .var v := by
  obtain ⟨u, hu, honly⟩ := h.once
  rw [List.filter_append] at honly
  have hmem : u ∈ (d.required ++ d.optional).filter
      (fun u => !u.isType && u.object = .var v) := by
    rw [List.filter_append, honly]
    exact List.mem_singleton_self u
  have hopt : u ∈ d.optional.filter (fun u => !u.isType && u.object = .var v) :=
    List.mem_filter.mpr ⟨hu, (List.mem_filter.mp hmem).2⟩
  have hnil : d.required.filter (fun u => !u.isType && u.object = .var v) = [] := by
    have hlen := congrArg List.length honly
    have hpos := List.length_pos_of_mem hopt
    rw [List.length_append, List.length_singleton] at hlen
    exact List.eq_nil_of_length_eq_zero (by omega)
  intro u' hu' ht ho
  have := List.filter_eq_nil_iff.mp hnil u' hu'
  simp [ht, ho] at this

/-- A type triple whose line shows a variable: the variable is its subject, or the class variable of
a node that does not have exactly one class. -/
def StatesClassOf (d : Draft) (v : String) (u : Triple) : Prop :=
  u.isType = true ∧ (u.subject = .var v ∨
    ((d.typesOf u.object).length ≠ 1 ∧ u.object.name ++ "Class" = v))

/-- Only type triples show such a variable in the required lines. -/
theorem OnlyOptional.statesClassOf {d : Draft} {v indent : String} (h : OnlyOptional d v) {r : Row}
    (hr : r ∈ requiredRows d) (hshown : Piece.node (.var v) ∈ r.line d indent) :
    StatesClassOf d v r.triple := by
  have hmem := triple_mem_of_mem_requiredRows hr
  rcases Row.var_mem_line_iff.mp hshown with ⟨-, hs⟩ | ⟨ht, ho⟩ | ⟨ht, hlen, hclass⟩
  · cases ht : r.triple.isType with
    | true => exact ⟨ht, Or.inl hs⟩
    | false => exact absurd hs (h.not_subject _ hmem ht)
  · exact absurd ho (h.not_object _ hmem ht)
  · exact ⟨ht, Or.inr ⟨hlen, hclass⟩⟩

variable {ix : Index} {names : List String} {v : String}

theorem subject_eq_var {u : Triple} (hv : isBlankLabel v = false)
    (hu : u ∈ (Draft.ofVariables ix names).required) (hname : u.subject.name = v) :
    u.subject = .var v := by
  have hspot : ∀ s : Spot, (s.number (Draft.traced ix names).blanks).name = v →
      s.number (Draft.traced ix names).blanks = .var v := by
    intro s hs
    rw [eq_var_of_name_eq hv hs]
    rfl
  rcases Draft.mem_ofVariables_cases (o := false) hu with
    ⟨e, -, rfl⟩ | ⟨n, rfl, ⟨e, -, rfl⟩ | ⟨x, -, rfl, -⟩⟩
  · exact hspot e.subject hname
  · exact hspot e.subject hname
  · exact congrArg Node.var hname

theorem exists_row_of_statesClassOf (hv : isBlankLabel v = false) (indent : String) {u : Triple}
    (hu : u ∈ (Draft.ofVariables ix names).required)
    (h : StatesClassOf (Draft.ofVariables ix names) v u) :
    ∃ r ∈ requiredRows (Draft.ofVariables ix names),
      Piece.node (.var v) ∈ r.line (Draft.ofVariables ix names) indent := by
  obtain ⟨ht, hs | ⟨hlen, hclass⟩⟩ := h
  · obtain ⟨r, hr, hfirst, hname⟩ := exists_first_row hu
    rw [hs] at hname
    have hsubject := subject_eq_var hv (triple_mem_of_mem_requiredRows hr) hname
    exact ⟨r, hr, Row.var_mem_line_iff.mpr (Or.inl ⟨hfirst, hsubject⟩)⟩
  · obtain ⟨r, hr, rfl⟩ := exists_mem_requiredRows hu
    exact ⟨r, hr, Row.var_mem_line_iff.mpr (Or.inr (Or.inr ⟨ht, hlen, hclass⟩))⟩

/-- Where a variable whose only triple is optional is written in the required lines: in type triples,
namely in its own one or as a class variable, and where the text of a predicate, a class or another
node writes it. Its own type triple is there exactly if it has classes, which are those of the
subjects that stand directly in its object unless another triple starts at it. -/
theorem generate_onlyOptional (m : Model) (request : Option (List String))
    (parameters : Parameters) (options : Options) (hindent : '?' ∉ options.indentUnit.toList) :
    let w := generate m.index request parameters options
    let rows := requiredRows w.draft
    let body := Draft.traced m.index w.variableNames
    let typed := Draft.typedNodes m.index w.variableNames body
    (∃ values, (∀ l ∈ values, IsValuesLine options.indentUnit l) ∧
      w.lines = "WHERE \x7b" :: values
        ++ rows.map (fun r => (r.line w.draft options.indentUnit).text)
        ++ optionalLines w.draft options.indentUnit ++ ["\x7d"]) ∧
    w.draft.required = typed.map (fun n => ⟨n, "a", n⟩) ++ body.required ∧
    ∀ v ∈ w.variableNames, OnlyOptional w.draft v → ' ' ∉ v.toList →
      (∀ r ∈ rows, HasVariable v (r.line w.draft options.indentUnit).text →
        StatesClassOf w.draft v r.triple ∨ (r.line w.draft options.indentUnit).HasStray v) ∧
      (isBlankLabel v = false →
        ((∃ r ∈ rows, HasVariable v (r.line w.draft options.indentUnit).text) ↔
          (∃ u ∈ w.draft.required, StatesClassOf w.draft v u) ∨
            ∃ r ∈ rows, (r.line w.draft options.indentUnit).HasStray v) ∧
        (.var v ∈ typed ↔ w.draft.typesOf (.var v) ≠ []) ∧
        ((∀ u ∈ body.required ++ body.optional, u.subject ≠ .var v) →
          w.draft.typesOf (.var v) = distinct (Draft.referencedTypes m.index v))) := by
  intro w rows body typed
  refine ⟨?_, Draft.required_addTypes m.index w.variableNames body, ?_⟩
  · obtain ⟨values, hvalues, hlines⟩ := generate_lines m.index request parameters options
    rw [text_requiredPieces, text_optionalPieces] at hlines
    exact ⟨values, hvalues, by rw [text_requiredRows]; exact hlines⟩
  · intro v hv honly hspace
    have hwritten : ∀ r ∈ rows, (HasVariable v (r.line w.draft options.indentUnit).text ↔
        Piece.node (.var v) ∈ r.line w.draft options.indentUnit ∨
          (r.line w.draft options.indentUnit).HasStray v) := fun r hr =>
      hasVariable_line_iff hspace hindent (List.mem_append_left _ (List.mem_map_of_mem hr))
    have hrow : ∀ r ∈ rows, HasVariable v (r.line w.draft options.indentUnit).text →
        StatesClassOf w.draft v r.triple ∨ (r.line w.draft options.indentUnit).HasStray v :=
      fun r hr h => ((hwritten r hr).mp h).imp_left (honly.statesClassOf hr)
    refine ⟨hrow, fun hlabel => ⟨⟨?_, ?_⟩, Draft.mem_typedNodes_iff hlabel hv, ?_⟩⟩
    · rintro ⟨r, hr, h⟩
      exact (hrow r hr h).imp (fun h => ⟨r.triple, triple_mem_of_mem_requiredRows hr, h⟩)
        (fun h => ⟨r, hr, h⟩)
    · rintro (⟨u, hu, hclass⟩ | ⟨r, hr, hstray⟩)
      · obtain ⟨r, hr, hnode⟩ := exists_row_of_statesClassOf hlabel options.indentUnit hu hclass
        exact ⟨r, hr, (hwritten r hr).mpr (Or.inl hnode)⟩
      · exact ⟨r, hr, (hwritten r hr).mpr (Or.inr hstray)⟩
    · intro hnone
      refine (Draft.typesOf_of_not_subject hlabel hv fun hs => ?_).2
      obtain ⟨u, hu, hsubject⟩ := Draft.exists_of_mem_subjectsOf hs
      exact hnone u hu hsubject

/-- An entry that may have a note and may have a gene, which is a subject of its own. -/
def optionalGene : Model where
  subjects := [
    ⟨"Entry", none, false, [⟨"a", none, [.uri "ex:Entry" "ex:Entry"]⟩,
      ⟨"ex:note", some ⟨some 0, some 1⟩, [.var "note"]⟩,
      ⟨"ex:gene", some ⟨some 0, none⟩, [.reference "gene" "Gene"]⟩]⟩,
    ⟨"Gene", none, false, [⟨"a", none, [.uri "ex:Gene" "ex:Gene"]⟩]⟩]
  prefixes := [("ex", "http://example.org/")]
  accepted := by decide +kernel

theorem generate_onlyOptional_optionalGene :
    let w := generate optionalGene.index (some ["note", "gene"]) [] {}
    let body := Draft.traced optionalGene.index w.variableNames
    OnlyOptional w.draft "note" ∧ OnlyOptional w.draft "gene" ∧
      (∀ r ∈ requiredRows w.draft, HasVariable "note" (r.line w.draft "    ").text →
        StatesClassOf w.draft "note" r.triple ∨ (r.line w.draft "    ").HasStray "note") ∧
      (Node.var "note" ∈ Draft.typedNodes optionalGene.index w.variableNames body ↔
        w.draft.typesOf (.var "note") ≠ []) ∧
      w.draft.typesOf (.var "gene") = distinct (Draft.referencedTypes optionalGene.index "gene") ∧
      w.lines = ["WHERE \x7b", "    ?Entry a ex:Entry .", "    ?gene a ex:Gene .",
        "    OPTIONAL \x7b ?Entry ex:note ?note . \x7d",
        "    OPTIONAL \x7b ?Entry ex:gene ?gene . \x7d", "\x7d"] := by
  intro w body
  have hnote : OnlyOptional w.draft "note" :=
    ⟨⟨⟨.var "Entry", "ex:note", .var "note"⟩, by decide +kernel⟩, by decide +kernel⟩
  have hgene : OnlyOptional w.draft "gene" :=
    ⟨⟨⟨.var "Entry", "ex:gene", .var "gene"⟩, by decide +kernel⟩, by decide +kernel⟩
  have h := (generate_onlyOptional optionalGene (some ["note", "gene"]) [] {} (by decide)).2.2
  obtain ⟨hshown, hlabel⟩ := h "note" (by decide +kernel) hnote (by decide)
  refine ⟨hnote, hgene, hshown, (hlabel (by decide)).2.1, ?_, by decide +kernel⟩
  exact ((h "gene" (by decide +kernel) hgene (by decide)).2 (by decide)).2.2 (by decide +kernel)

/-- The gene is optional, and still its class is stated in the required lines. -/
theorem optionalGene_gene_required :
    let w := generate optionalGene.index (some ["gene"]) [] {}
    w.lines = ["WHERE \x7b", "    ?Entry a ex:Entry .", "    ?gene a ex:Gene .",
      "    OPTIONAL \x7b ?Entry ex:gene ?gene . \x7d", "\x7d"] ∧
    OnlyOptional w.draft "gene" ∧
    ∃ line ∈ requiredLines w.draft "    ", HasVariable "gene" line := by
  intro w
  refine ⟨by decide +kernel, ?_, by decide +kernel⟩
  exact ⟨⟨⟨.var "Entry", "ex:gene", .var "gene"⟩, by decide +kernel⟩, by decide +kernel⟩

end SparqlModel.Pattern
