import SparqlModel.Proofs.LabelScope
import SparqlModel.Proofs.Layout
import SparqlModel.Proofs.Trail

/-!
# Class statements

A subject with classes states them in the first of its rows: a single class by itself, and several
ones through a class variable, which a `VALUES` line binds. No other row states a class, unless the
path to a requested variable is found again as a type predicate. A path is found by the name of an
object, and a class may have the same name.
-/

namespace SparqlModel.Pattern

/-- How classes are stated. -/
structure StatesTypes (d : Draft) : Prop where
  /-- A subject with classes has its type triple in front of its other required triples, and these
  are no type triples. -/
  first : ∀ n ∈ d.subjects, d.typesOf n ≠ [] → ∃ rest,
    d.required.filter (·.subject = n) = Draft.typeTriple n :: rest ∧ ∀ u ∈ rest, u.isType = false
  /-- Type triples belong to nodes with classes. -/
  own : ∀ u ∈ d.required, u.isType = true →
    u = Draft.typeTriple u.subject ∧ d.typesOf u.subject ≠ []
  /-- No type triple is optional. -/
  required : ∀ u ∈ d.optional, u.isType = false

/-- The row that states the classes of a node. -/
def typeLine (d : Draft) (indent : String) (n : Node) (isLast : Bool) : String :=
  let statement := match d.typesOf n with
    | [c] => "a " ++ c
    | _ => "a " ++ n.classVariable
  indent ++ n.render ++ " " ++ statement ++ if isLast then " ." else " ;"

/-- The path to the variable that a triple produces is a single type predicate. -/
def ReachedByType (ix : Index) (names : List String) (t : SparqlModel.Triple) : Prop :=
  rendering ix names t = .compressed ∧ ∃ uri,
    ix.propertyPath t.object.name (some (Draft.anchor ix names t).name) = [uri] ∧
      isTypeUri uri = true

variable {ix : Index} {names : List String}

theorem var_mem_typedNodes {d : Draft} {v : String}
    (h : v ∈ Draft.classedNames ix (Draft.otherNames names d)) :
    .var v ∈ Draft.typedNodes ix names d :=
  List.mem_append_right _ (List.mem_map_of_mem h)

theorem typesOf_ofVariables (ix : Index) (names : List String) (n : Node) :
    (Draft.ofVariables ix names).typesOf n = (Draft.traced ix names).typesOf n ∨
      (n ∈ Draft.typedNodes ix names (Draft.traced ix names) ∧
        (Draft.ofVariables ix names).typesOf n ≠ []) := by
  rw [Draft.ofVariables_eq]
  cases n with
  | var v =>
    rw [Draft.typesOf_addTypes]
    split_ifs with hv
    · have hne : Draft.referencedTypes ix v ≠ [] := by simpa using (List.mem_filter.mp hv).2
      exact Or.inr ⟨var_mem_typedNodes hv, by simpa using hne⟩
    · exact Or.inl rfl
  | blank k => exact Or.inl (Draft.typesOf_addTypes_blank ix names _ k)

theorem exists_link_onwards {e : Edge} {node : Spot} {route pending : List String}
    {hops : List (Step × Option (List String))} (he : e ∈ links node route pending hops) :
    (∃ e' ∈ links node route pending hops, e'.subject = e.object) ∨
      (linksEnd node route pending hops).1 = e.object := by
  induction hops generalizing node route pending with
  | nil => simp [links] at he
  | cons hop rest ih =>
    obtain ⟨step, types⟩ := hop
    cases types with
    | none => exact ih he
    | some types =>
      have hrest : (∃ e' ∈ links (.blank ⟨route ++ [step.predicate.uri], distinct types⟩)
          (route ++ [step.predicate.uri]) [] rest, e'.subject = e.object) ∨
          (linksEnd (.blank ⟨route ++ [step.predicate.uri], distinct types⟩)
            (route ++ [step.predicate.uri]) [] rest).1 = e.object := by
        rcases List.mem_cons.mp he with rfl | he
        · exact Draft.exists_link_from _ _ _ rest
        · exact ih he
      refine hrest.imp_left ?_
      rintro ⟨e', he', hs⟩
      exact ⟨e', List.mem_cons_of_mem _ he', hs⟩

section

variable {m : Model} (hm : m.index.HasPlainNames)
include hm

theorem isPlain_subject {u : Triple} {o : Bool}
    (hu : u ∈ (Draft.ofVariables m.index names).buffered o) : u.subject.IsPlain := by
  have hedge : ∀ e ∈ plan m.index names,
      (e.subject.number (Draft.traced m.index names).blanks).IsPlain :=
    fun e he => (isPlain_of_mem_plan hm he).1.number _
  rcases (mem_ofVariables_iff hm).mp hu with ⟨-, n, hn, rfl⟩ | ⟨e, he, -, rfl⟩
  · rcases (mem_typedNodes hm).mp hn with ⟨hs, -⟩ | ⟨v, -, rfl, -, htypes⟩
    · obtain ⟨e, he, rfl⟩ := (mem_subjects_iff hm).mp hs
      exact hedge e he
    · exact isPlain_of_referencedTypes hm htypes
  · exact hedge e he

theorem subjectsApart (names : List String) :
    SubjectsApart ((Draft.ofVariables m.index names).required ++
      (Draft.ofVariables m.index names).optional) := by
  intro u hu u' hu' he
  obtain ⟨o, hu⟩ := Draft.mem_append_iff.mp hu
  obtain ⟨o', hu'⟩ := Draft.mem_append_iff.mp hu'
  exact Node.eq_of_name_eq (isPlain_subject hm hu) (isPlain_subject hm hu') he

theorem subjects_eq (names : List String) :
    (Draft.ofVariables m.index names).subjects =
      distinct (((Draft.ofVariables m.index names).required ++
        (Draft.ofVariables m.index names).optional).map (·.subject)) :=
  subjectsOf_eq (subjectsApart hm names)

theorem subject_mem_subjects {u : Triple} {o : Bool}
    (hu : u ∈ (Draft.ofVariables m.index names).buffered o) :
    u.subject ∈ (Draft.ofVariables m.index names).subjects := by
  rw [subjects_eq hm, mem_distinct]
  exact List.mem_map.mpr ⟨u, Draft.mem_append_iff.mpr ⟨o, hu⟩, rfl⟩

theorem mem_subjects_ofVariables_iff {n : Node} :
    n ∈ (Draft.ofVariables m.index names).subjects ↔
      n ∈ Draft.typedNodes m.index names (Draft.traced m.index names) ∨
        n ∈ (Draft.traced m.index names).subjects := by
  rw [mem_subjects_iff hm]
  constructor
  · intro hn
    obtain ⟨u, hu, rfl⟩ := Draft.exists_of_mem_subjectsOf hn
    obtain ⟨o, hu⟩ := Draft.mem_append_iff.mp hu
    rcases (mem_ofVariables_iff hm).mp hu with ⟨-, n, htyped, rfl⟩ | ⟨e, he, -, rfl⟩
    · exact Or.inl htyped
    · exact Or.inr ⟨e, he, rfl⟩
  · rintro (hn | ⟨e, he, rfl⟩)
    · exact subject_mem_subjects hm ((mem_ofVariables_iff hm).mpr (Or.inl ⟨rfl, n, hn, rfl⟩))
    · exact subject_mem_subjects hm ((mem_ofVariables_iff hm).mpr (Or.inr ⟨e, he, rfl, rfl⟩))

theorem mem_typedNodes_iff_subject {n : Node} :
    n ∈ Draft.typedNodes m.index names (Draft.traced m.index names) ↔
      n ∈ (Draft.ofVariables m.index names).subjects ∧
        (Draft.ofVariables m.index names).typesOf n ≠ [] := by
  rw [mem_subjects_ofVariables_iff hm]
  rcases typesOf_ofVariables m.index names n with heq | ⟨htyped, hne⟩
  · rw [heq]
    constructor
    · intro hn
      refine ⟨Or.inl hn, ?_⟩
      rcases (mem_typedNodes hm).mp hn with ⟨-, hne⟩ | ⟨v, hv, rfl, hs, htypes⟩
      · exact hne
      · have hlabel := isPlain_of_referencedTypes hm htypes
        rw [← heq, (Draft.typesOf_of_not_subject hlabel hv hs).2]
        simpa using htypes
    · rintro ⟨hn | hn, hne⟩
      · exact hn
      · exact (mem_typedNodes hm).mpr (Or.inl ⟨hn, hne⟩)
  · exact ⟨fun h => ⟨Or.inl h, hne⟩, fun _ => htyped⟩

theorem object_mem_subjects {u : Triple} {o : Bool}
    (hu : u ∈ (Draft.ofVariables m.index names).buffered o)
    (htypes : (Draft.ofVariables m.index names).typesOf u.object ≠ []) :
    u.object ∈ (Draft.ofVariables m.index names).subjects := by
  rw [mem_subjects_ofVariables_iff hm]
  rcases typesOf_ofVariables m.index names u.object with heq | ⟨htyped, -⟩
  · rcases (mem_ofVariables_iff hm).mp hu with ⟨-, n, hn, rfl⟩ | ⟨e, he, -, rfl⟩
    · exact Or.inl hn
    · right
      rw [mem_subjects_iff hm]
      cases hobject : e.object with
      | var v =>
        by_contra hnone
        refine htypes (heq.trans ?_)
        rw [Edge.triple, hobject]
        apply Draft.typesOf_traced_eq_nil
        intro e' he' hs
        exact hnone ⟨e', he', by rw [Edge.triple, hs, hobject]⟩
      | blank key =>
        obtain ⟨v, hv, t, hs, hlink | rfl⟩ := mem_plan_iff.mp he
        · obtain ⟨hr, hlink⟩ := mem_linkEdges hlink
          rcases exists_link_onwards hlink with ⟨e', he', hsubject⟩ | hend
          · refine ⟨e', mem_plan_iff.mpr ⟨v, hv, t, hs, Or.inl ?_⟩, by rw [hsubject]; rfl⟩
            simpa [linkEdges, hr] using he'
          · refine ⟨_, leafEdge_mem_plan hv hs, ?_⟩
            simp only [leafEdge, leafStep, hr, hend]
            rfl
        · cases hobject
  · exact Or.inl htyped

theorem nodup_typedNodes (hn : names.Nodup) :
    (Draft.typedNodes m.index names (Draft.traced m.index names)).Nodup := by
  have hsubjects : (Draft.traced m.index names).subjects.Nodup := by
    have hsub : (Draft.traced m.index names).required ++ (Draft.traced m.index names).optional ⊆
        (Draft.ofVariables m.index names).required ++
          (Draft.ofVariables m.index names).optional := by
      intro u hu
      obtain ⟨o, hu⟩ := Draft.mem_append_iff.mp hu
      exact Draft.mem_append_iff.mpr ⟨o, Draft.mem_ofVariables hu⟩
    have heq := subjectsOf_eq ((subjectsApart hm names).subset hsub)
    rw [show (Draft.traced m.index names).subjects = _ from heq]
    exact nodup_distinct _
  rw [Draft.typedNodes, List.nodup_append']
  refine ⟨hsubjects.filter _, ?_, ?_⟩
  · exact ((hn.filter _).filter _).map fun v v' h => Node.var.inj h
  · intro n hs hn
    obtain ⟨v, hv, rfl⟩ := List.mem_map.mp hn
    have hother := (List.mem_filter.mp (List.mem_filter.mp hv).1).2
    simp only [Bool.not_eq_true', List.any_eq_false, beq_iff_eq] at hother
    exact hother _ (List.mem_filter.mp hs).1 rfl

/-- The required triples of a typed node: its type triple, and then those that were drafted. -/
theorem filter_required (hn : names.Nodup) {n : Node}
    (h : n ∈ Draft.typedNodes m.index names (Draft.traced m.index names)) :
    (Draft.ofVariables m.index names).required.filter (·.subject = n) =
      Draft.typeTriple n :: (Draft.traced m.index names).required.filter (·.subject = n) := by
  have hone : (Draft.typedNodes m.index names (Draft.traced m.index names)).filter (· = n) =
      [n] := by
    apply eq_singleton_of_nodup ((nodup_typedNodes hm hn).filter _)
    · exact List.mem_filter.mpr ⟨h, by simp⟩
    · intro n' hn'
      simpa using (List.mem_filter.mp hn').2
  rw [Draft.ofVariables_eq, Draft.required_addTypes, List.filter_append, List.filter_map]
  rw [show (fun u : Triple => decide (u.subject = n)) ∘ Draft.typeTriple = (decide <| · = n) from
    rfl, hone]
  rfl

/-- Classes are stated as they should be unless an edge states one. -/
theorem statesTypes_iff (hn : names.Nodup) :
    StatesTypes (Draft.ofVariables m.index names) ↔
      ∀ e ∈ plan m.index names, isTypeUri e.predicate = false := by
  constructor
  · intro h e he
    by_contra htype
    rw [Bool.not_eq_false] at htype
    have hu := triple_mem_buffered hm he
    cases ho : e.isOptional with
    | true =>
      rw [ho] at hu
      have hfalse := h.required _ (Draft.mem_ofVariables hu)
      exact Bool.false_ne_true (hfalse.symm.trans htype)
    | false =>
      rw [ho] at hu
      have hmem := Draft.mem_ofVariables hu
      obtain ⟨hown, hne⟩ := h.own _ hmem htype
      have hsubject := subject_mem_subjects hm hmem
      obtain ⟨rest, hrest, hplain⟩ := h.first _ hsubject hne
      rw [filter_required hm hn ((mem_typedNodes_iff_subject hm).mpr ⟨hsubject, hne⟩)] at hrest
      have hfalse := hplain _ ((List.cons.inj hrest).2 ▸ List.mem_filter.mpr ⟨hu, by simp⟩)
      exact Bool.false_ne_true (hfalse.symm.trans htype)
  · intro h
    refine ⟨fun n hs hne => ?_, fun u hu htype => ?_, fun u hu => ?_⟩
    · refine ⟨_, filter_required hm hn ((mem_typedNodes_iff_subject hm).mpr ⟨hs, hne⟩), ?_⟩
      intro u hu
      obtain ⟨e, he, -, rfl⟩ :=
        Draft.exists_edge_of_mem (o := false) (List.mem_filter.mp hu).1
      exact h e he
    · rcases (mem_ofVariables_iff hm (o := false)).mp hu with ⟨-, n, hn, rfl⟩ | ⟨e, he, -, rfl⟩
      · exact ⟨rfl, ((mem_typedNodes_iff_subject hm).mp hn).2⟩
      · exact absurd ((h e he).symm.trans htype) Bool.false_ne_true
    · rcases (mem_ofVariables_iff hm (o := true)).mp hu with ⟨ho, -⟩ | ⟨e, he, -, rfl⟩
      · cases ho
      · exact h e he

/-- Where classes are stated as they should be, the rows of a subject with classes start with its
class statement. -/
theorem StatesTypes.rows (h : StatesTypes (Draft.ofVariables m.index names)) (indent : String)
    {n : Node} (hn : n ∈ (Draft.ofVariables m.index names).subjects)
    (hne : (Draft.ofVariables m.index names).typesOf n ≠ []) :
    ∃ row rest, (requiredRows (Draft.ofVariables m.index names)).filter
        (fun r => r.triple.subject = n) = row :: rest ∧
      (row.line (Draft.ofVariables m.index names) indent).text =
        typeLine (Draft.ofVariables m.index names) indent n rest.isEmpty ∧
      ∀ r ∈ rest, r.triple.isType = false := by
  obtain ⟨rest, hrest, hplain⟩ := h.first n hn hne
  have hapart := (subjectsApart hm names).subset (List.subset_append_left _ _)
  rw [filter_requiredRows hapart, hrest, groupRows]
  refine ⟨_, _, rfl, ?_, fun r hr => hplain _ (triple_mem_of_mem_groupRows hr)⟩
  have hlast : (groupRows false rest).isEmpty = rest.isEmpty := by cases rest <;> rfl
  rw [Row.text_line, hlast, typeLine]
  simp only [Draft.typeTriple, Triple.render, Triple.renderTail, Triple.isType, if_true]
  rcases (Draft.ofVariables m.index names).typesOf n with _ | ⟨c, _ | ⟨c', cs⟩⟩ <;>
    simp [String.append_assoc]

end

theorem isTypeUri_intercalate_iff {path : List String} :
    isTypeUri (pathSeparator.intercalate path) = true ↔
      ∃ uri, path = [uri] ∧ isTypeUri uri = true := by
  rcases path with _ | ⟨uri, _ | ⟨uri', rest⟩⟩
  · simp [isTypeUri]
  · simp
  · -- the separator occurs in no type predicate
    have hslash : '/' ∈ (pathSeparator.intercalate (uri :: uri' :: rest)).toList := by
      rw [String.intercalate_cons_cons]
      simp [pathSeparator]
    simp only [List.cons.injEq, reduceCtorEq, and_false, false_and, exists_false, iff_false]
    rw [isTypeUri, Bool.or_eq_true, beq_iff_eq, beq_iff_eq]
    rintro (he | he)
    · rw [he] at hslash
      exact absurd hslash (by decide)
    · rw [he] at hslash
      exact absurd hslash (by decide)

theorem getLast?_propertyPath (ix : Index) (name stop : String) :
    (ix.propertyPath name (some stop)).getLast? = (ix.producer? name).map (·.predicate.uri) := by
  have hlast : (ix.pathTriples name stop).getLast? = ix.producer? name := by
    rw [Index.pathTriples, List.getLast?_reverse, Index.head?_stopAt, Index.head?_trail]
  rw [Index.propertyPath_eq, ← hlast]
  rcases List.eq_nil_or_concat' (ix.pathTriples name stop) with hnil | ⟨us, u, hus⟩
  · simp [hnil]
  · simp [hus, uris_eq, SparqlModel.Triple.predicate]

variable {m : Model}

/-- The only edges that state classes are paths of one type predicate. -/
theorem isTypeUri_plan_iff (hhops : m.index.HasPlainHops)
    (hreq : ∀ v ∈ names, ∀ t, m.index.producer? v = some t → t.predicate.isType = false) :
    (∀ e ∈ plan m.index names, isTypeUri e.predicate = false) ↔
      ∀ v ∈ names, ∀ t, source? m.index v = some t → ¬ ReachedByType m.index names t := by
  constructor
  · rintro h v hv t hs ⟨hr, uri, hpath, htype⟩
    have hfalse := h _ (leafEdge_mem_plan hv hs)
    simp only [leafEdge, leafStep, hr, hpath, String.intercalate_singleton] at hfalse
    exact Bool.false_ne_true (hfalse.symm.trans htype)
  · intro h e he
    obtain ⟨v, hv, t, hs, he⟩ := mem_plan_iff.mp he
    have hp := (source?_eq_some_iff.mp hs).1
    have htype : isTypeUri t.predicate.uri = false := hreq v hv t hp
    rcases he with he | rfl
    · exact isTypeUri_links (fun hop hmem =>
        hhops t (Index.producer?_mem hp) hop.1 (List.of_mem_zip hmem).1) (mem_linkEdges he).2
    · rw [leafEdge, leafStep]
      cases hr : rendering m.index names t with
      | compressed =>
        rw [← Bool.not_eq_true, isTypeUri_intercalate_iff]
        exact fun huri => h v hv t hs ⟨hr, huri⟩
      | wholeRoute =>
        dsimp only
        rw [SparqlModel.Triple.path, uris_eq]
        exact isTypeUri_intercalate htype _
      | expanded => exact isTypeUri_intercalate htype _

/-- A variable whose object is found again as a triple that states no class is not reached by a type
predicate. -/
theorem not_reachedByType {t : SparqlModel.Triple}
    (h : ∀ t', m.index.producer? t.object.name = some t' → t'.predicate.isType = false) :
    ¬ ReachedByType m.index names t := by
  rintro ⟨-, uri, hpath, htype⟩
  have hlast := getLast?_propertyPath m.index t.object.name (Draft.anchor m.index names t).name
  rw [hpath] at hlast
  obtain ⟨t', ht', huri⟩ := Option.map_eq_some_iff.mp hlast.symm
  have hfalse := h t' ht'
  rw [Predicate.isType, huri] at hfalse
  exact Bool.false_ne_true (hfalse.symm.trans htype)

/-- The class statements of a block. Its `VALUES` lines are those of the parameters, and then those
of the nodes with several classes as far as they are not among them; no line comes twice. All nodes
with classes are subjects, and no node has a class twice. The rows of a subject with classes start
with its class statement, and no other row states a class, exactly if no requested variable is
reached by a type predicate. This is the case if the object of every requested variable is found
again as a triple that states no class. -/
theorem generate_statesTypes (m : Model) (hm : m.index.HasPlainNames)
    (hhops : m.index.HasPlainHops) (request : Option (List String)) (parameters : Parameters)
    (options : Options) (hreq : ∀ v ∈ requestedVariables m.index request, ∀ t,
      m.index.producer? v = some t → t.predicate.isType = false) :
    let w := generate m.index request parameters options
    let d := w.draft
    let rows := requiredRows d
    let bound := parameterTexts m.index options parameters
    (w.lines = "WHERE \x7b" :: (if options.emitValues then
        distinct bound ++ (distinct (classTexts options d)).filter (· ∉ bound) else [])
      ++ rows.map (fun r => (r.line d options.indentUnit).text)
      ++ optionalLines d options.indentUnit ++ ["\x7d"]) ∧
    d.subjects = distinct ((d.required ++ d.optional).map (·.subject)) ∧
    (∀ u ∈ d.required ++ d.optional, d.typesOf u.object ≠ [] → u.object ∈ d.subjects) ∧
    (∀ n, (d.typesOf n).Nodup) ∧
    (∀ n, rows.filter (fun r => r.triple.subject = n) =
      groupRows true (d.required.filter (·.subject = n))) ∧
    (StatesTypes d → ∀ n ∈ d.subjects, d.typesOf n ≠ [] → ∃ row rest,
      rows.filter (fun r => r.triple.subject = n) = row :: rest ∧
      (row.line d options.indentUnit).text = typeLine d options.indentUnit n rest.isEmpty ∧
      ∀ r ∈ rest, r.triple.isType = false) ∧
    (StatesTypes d ↔ ∀ v ∈ w.variableNames, ∀ t, source? m.index v = some t →
      ¬ ReachedByType m.index w.variableNames t) ∧
    ((∀ v ∈ w.variableNames, ∀ t t', m.index.producer? v = some t →
      m.index.producer? t.object.name = some t' → t'.predicate.isType = false) →
      StatesTypes d) := by
  intro w d rows bound
  have hiff : StatesTypes d ↔ ∀ v ∈ w.variableNames, ∀ t, source? m.index v = some t →
      ¬ ReachedByType m.index w.variableNames t :=
    (statesTypes_iff hm (nodup_distinct _)).trans (isTypeUri_plan_iff hhops hreq)
  have hapart := (subjectsApart hm w.variableNames).subset (List.subset_append_left _ _)
  refine ⟨generate_layout m.index request parameters options, subjects_eq hm w.variableNames, ?_,
    Draft.nodup_typesOf m.index w.variableNames, filter_requiredRows hapart, ?_, hiff, ?_⟩
  · intro u hu htypes
    obtain ⟨o, hu⟩ := Draft.mem_append_iff.mp hu
    exact object_mem_subjects hm hu htypes
  · exact fun h n hn hne => h.rows hm options.indentUnit hn hne
  · intro hagain
    refine hiff.mpr fun v hv t hs => not_reachedByType fun t' ht' => ?_
    exact hagain v hv t t' (source?_eq_some_iff.mp hs).1 ht'

def typedRecord : Model where
  subjects := [
    ⟨"Record", none, false,
      [⟨"a", none, [.uri "ex:Record" "ex:Record", .uri "ex:Thing" "ex:Thing"]⟩,
        ⟨"ex:gene", none, [.reference "gene" "Gene"]⟩,
        ⟨"ex:note", some ⟨some 0, some 1⟩, [.var "note"]⟩]⟩,
    ⟨"Gene", none, false, [⟨"a", none, [.uri "ex:Gene" "ex:Gene"]⟩]⟩]
  prefixes := [("ex", "http://example.org/")]
  accepted := by decide +kernel

theorem generate_statesTypes_typedRecord :
    typedRecord.index.HasPlainNames ∧ typedRecord.index.HasPlainHops ∧
      let w := generate typedRecord.index (some ["gene", "note"]) [("gene", .text "ex:g1")] {}
      StatesTypes w.draft ∧ w.draft.subjects = [.var "Record", .var "gene"] ∧
      w.lines = ["WHERE \x7b", "    VALUES ?gene \x7b ex:g1 \x7d",
        "    VALUES ?RecordClass \x7b ex:Record ex:Thing \x7d",
        "    ?Record a ?RecordClass ;", "        ex:gene ?gene .", "    ?gene a ex:Gene .",
        "    OPTIONAL \x7b ?Record ex:note ?note . \x7d", "\x7d"] := by
  have hm : typedRecord.index.HasPlainNames := ⟨by decide +kernel, by decide +kernel⟩
  have hhops : typedRecord.index.HasPlainHops := by
    unfold Index.HasPlainHops
    decide +kernel
  have hrequest : requestedVariables typedRecord.index (some ["gene", "note"]) =
      ["gene", "note"] := by decide +kernel
  have hfound : ∀ v ∈ ["gene", "note"], (typedRecord.index.producer? v).all
      (fun t => t.object.name = v ∧ t.predicate.isType = false) := by decide +kernel
  have hproduced : ∀ v ∈ requestedVariables typedRecord.index (some ["gene", "note"]), ∀ t,
      typedRecord.index.producer? v = some t →
        t.object.name = v ∧ t.predicate.isType = false := by
    rw [hrequest]
    intro v hv t ht
    have := hfound v hv
    rw [ht] at this
    simpa using this
  have h := generate_statesTypes typedRecord hm hhops (some ["gene", "note"])
    [("gene", .text "ex:g1")] {} fun v hv t ht => (hproduced v hv t ht).2
  obtain ⟨-, -, -, -, -, -, -, hagain⟩ := h
  refine ⟨hm, hhops, hagain fun v hv t t' ht ht' => ?_, by decide +kernel, by decide +kernel⟩
  rw [(hproduced v hv t ht).1] at ht'
  exact (hproduced v hv t' ht').2

/-- A book with a writer and an author. The reference to the writer is named like the subject of the
authors, and the reference to the author like the class of the books. -/
def classNamedAuthor : Model where
  subjects := [
    ⟨"Book", none, false, [⟨"a", none, [.uri "ex:Book" "ex:Book"]⟩,
      ⟨"ex:writer", none, [.reference "Author" "Person"]⟩,
      ⟨"ex:author", none, [.reference "ex:Book" "Author"]⟩]⟩,
    ⟨"Person", none, false, [⟨"a", none, [.uri "ex:Person" "ex:Person"]⟩]⟩,
    ⟨"Author", none, false, [⟨"a", none, [.uri "ex:Author" "ex:Author"]⟩]⟩]
  prefixes := [("ex", "http://example.org/")]
  accepted := by decide +kernel

/-- The path to the author is found again as the predicate of the class, so that the book is stated
to be an author. -/
theorem classNamedAuthor_not_statesTypes :
    let w := generate classNamedAuthor.index (some ["Person"]) [] {}
    classNamedAuthor.index.HasPlainNames ∧ classNamedAuthor.index.HasPlainHops ∧
    (∀ v ∈ w.variableNames, ∀ t, classNamedAuthor.index.producer? v = some t →
      t.predicate.isType = false) ∧
    w.lines = ["WHERE \x7b", "    ?Book a ex:Book ;", "        a ex:Author .",
      "    ?Author a ex:Author .", "\x7d"] ∧
    ¬ StatesTypes w.draft := by
  intro w
  refine ⟨⟨by decide +kernel, by decide +kernel⟩, ?_, ?_, by decide +kernel, fun h => ?_⟩
  · unfold Index.HasPlainHops
    decide +kernel
  · have hnames : w.variableNames = ["Author"] := by decide +kernel
    have hfound : (classNamedAuthor.index.producer? "Author").all
        (fun t => t.predicate.isType = false) := by decide +kernel
    rw [hnames]
    intro v hv t ht
    rw [List.mem_singleton.mp hv] at ht
    rw [ht] at hfound
    simpa using hfound
  · have hmem : ⟨.var "Book", "a", .var "Author"⟩ ∈ w.draft.required := by decide +kernel
    exact absurd (h.own _ hmem rfl).1 (by decide)

end SparqlModel.Pattern
