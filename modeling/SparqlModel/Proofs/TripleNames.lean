import SparqlModel.Proofs.BuiltGraphs
import SparqlModel.Proofs.Lookup
import SparqlModel.Proofs.Namespaces
import SparqlModel.Proofs.Visits

/-!
# Names that identify triples

A review counts the names of variables on a walk of its own, and the look-ups of an index rely on
these names for the triples of another walk. The names that are counted are those of the triples
whose route states no class and whose object is no reference, in the same order. So in an accepted
model no two of these triples have the same name. In a graph that was built from data they are all
triples but classes and references, and a name that none of these have leads back to its triple.
-/

namespace SparqlModel

def Object.isReference : Object → Bool
  | .reference _ _ => true
  | _ => false

theorem find?_eq_some_of_unique {α : Type} {p : α → Bool} {xs : List α} {x : α} (hx : x ∈ xs)
    (hp : p x = true) (h : ∀ y ∈ xs, p y = true → y = x) : xs.find? p = some x := by
  obtain ⟨y, hy⟩ := Option.isSome_iff_exists.mp (List.find?_isSome.mpr ⟨x, hx, hp⟩)
  rw [hy, h y (List.mem_of_find?_eq_some hy) (List.find?_some hy)]

/-- A visit of a leaf whose name a review counts. -/
def Visit.isCounted (v : Visit) : Bool :=
  v.steps.all (fun s => !s.predicate.isType) && !v.object.isReference && !v.object.isBlankNode

def Triple.isCounted (t : Triple) : Bool :=
  t.steps.all (fun s => !s.predicate.isType) && !t.object.isReference

def countedNames (visits : List Visit) : List String :=
  (visits.filter (·.isCounted)).map (·.object.name)

@[simp] theorem countedNames_append (visits visits' : List Visit) :
    countedNames (visits ++ visits') = countedNames visits ++ countedNames visits' := by
  simp [countedNames]

theorem Visit.isCounted_under (step : Step) (v : Visit) :
    (v.under step).isCounted = (!step.predicate.isType && v.isCounted) := by
  simp [isCounted, under, steps, Bool.and_assoc]

/-- A triple is counted as the visit that gives it. -/
theorem countedNames_eq (root : ℕ) (owner : Subject) (visits : List Visit) :
    ((visits.filterMap (·.triple? root owner [])).filter (·.isCounted)).map (·.object.name) =
      countedNames visits := by
  induction visits with
  | nil => rfl
  | cons v rest ih =>
    rw [← List.singleton_append, List.filterMap_append, List.filter_append, List.map_append, ih,
      countedNames_append]
    congr 1
    cases hb : v.object.isBlankNode with
    | true => simp [Visit.triple?, countedNames, Visit.isCounted, hb]
    | false =>
      have hcounted : Triple.isCounted ⟨root, owner, v.hops, v.last, v.object⟩ = v.isCounted := by
        simp [Triple.isCounted, Visit.isCounted, Triple.steps, Visit.steps, hb]
      cases hc : v.isCounted <;>
        simp [Visit.triple?, countedNames, hb, hcounted, hc]

theorem names_ofUri (uri : String) : (Mention.ofUri uri).filterMap Mention.name? = [] := by
  rw [Mention.ofUri]
  cases Uri.prefixOf? uri <;> rfl

theorem names_name (name : String) (ms : List Mention) :
    (.name name :: ms).filterMap Mention.name? = name :: ms.filterMap Mention.name? :=
  rfl

theorem names_flatMap_eq_nil {os : List Object} {f : Object → List Mention}
    (h : ∀ o, (f o).filterMap Mention.name? = []) :
    (os.flatMap f).filterMap Mention.name? = [] := by
  rw [List.filterMap_flatMap, List.flatMap_eq_nil_iff]
  exact fun o _ => h o

theorem names_ofMember (o : Object) : (Mention.ofMember o).filterMap Mention.name? = [] := by
  cases o with
  | uri name value => exact names_ofUri value
  | _ => rfl

theorem countedNames_leaf {step : Step} (hstep : step.predicate.isType = false) {o : Object}
    (hb : o.isBlankNode = false) (hr : o.isReference = false) :
    countedNames (visitsOf step o) = [o.name] := by
  rw [visitsOf_leaf step hb]
  simp [countedNames, Visit.isCounted, Visit.steps, hstep, hb, hr]

theorem countedNames_of_isType {p : Predicate} (hp : p.isType = true) (slot entry : ℕ)
    (os : List Object) : countedNames (objectVisits p slot entry os) = [] := by
  rw [countedNames, List.map_eq_nil_iff, List.filter_eq_nil_iff]
  intro v hv
  obtain ⟨i, o, -, hv⟩ := mem_objectVisits.mp hv
  obtain ⟨rest, hsteps⟩ := steps_of_mem_visitsOf hv
  simp [Visit.isCounted, hsteps, hp]

theorem countedNames_blank {step : Step} (hstep : step.predicate.isType = false) (s : Subject) :
    countedNames (visitsOf step (.blank s)) = countedNames (predicateVisits 0 s.predicates) := by
  have hunder : Visit.isCounted ∘ Visit.under step = Visit.isCounted := by
    funext v
    simp [Visit.isCounted_under, hstep]
  rw [visitsOf_blank, countedNames, List.filter_cons_of_neg (by simp [Visit.isCounted,
    Object.isBlankNode]), List.filter_map, List.map_map, hunder]
  rfl

theorem names_subjectMentions (s : Subject) :
    (subjectMentions s).filterMap Mention.name? =
      (predicateMentions s.predicates).filterMap Mention.name? := by
  obtain ⟨name, value, isBlank, ps⟩ := s
  rw [subjectMentions, List.filterMap_append, List.filterMap_append]
  have hentering : ((if isBlank = false ∧ Subject.types ⟨name, value, isBlank, ps⟩ = []
      then [Mention.untyped name] else []).filterMap Mention.name?) = [] := by
    split_ifs <;> rfl
  have hvalue : (value.toList.flatMap Mention.ofUri).filterMap Mention.name? = [] := by
    cases value with
    | none => rfl
    | some value => simp [names_ofUri]
  rw [hentering, hvalue]
  rfl

mutual

theorem names_predicateMentions (slot : ℕ) (ps : List Predicate) :
    (predicateMentions ps).filterMap Mention.name? = countedNames (predicateVisits slot ps) := by
  match ps with
  | [] => rw [predicateMentions, predicateVisits]; rfl
  | ⟨uri, cardinality, os⟩ :: rest =>
    rw [predicateMentions, predicateVisits, List.filterMap_append, List.filterMap_append,
      countedNames_append, names_ofUri, List.nil_append, names_predicateMentions (slot + 1) rest]
    congr 1
    split_ifs with ht
    · rw [countedNames_of_isType ht]
      exact names_flatMap_eq_nil fun o => names_ofUri o.name
    · exact names_objectMentions _ (by simpa using ht) slot 0 os

theorem names_objectMentions (p : Predicate) (hp : p.isType = false) (slot entry : ℕ)
    (os : List Object) :
    (objectMentions os).filterMap Mention.name? = countedNames (objectVisits p slot entry os) := by
  match os with
  | [] => rw [objectMentions, objectVisits]; rfl
  | o :: rest =>
    rw [objectMentions, objectVisits, List.filterMap_append, countedNames_append,
      names_objectMentions p hp slot (entry + 1) rest, names_mentionsOf ⟨p, slot, entry⟩ hp o]

theorem names_mentionsOf (step : Step) (hstep : step.predicate.isType = false) (o : Object) :
    (mentionsOf o).filterMap Mention.name? = countedNames (visitsOf step o) := by
  match o with
  | .blank ⟨name, value, isBlank, ps⟩ =>
    rw [mentionsOf, names_subjectMentions, countedNames_blank hstep, names_predicateMentions 0 ps]
  | .reference name subject =>
    rw [mentionsOf, visitsOf_leaf step rfl]
    simp [countedNames, Visit.isCounted, Object.isReference]
  | .uri name value =>
    rw [mentionsOf, countedNames_leaf hstep rfl rfl, names_name, names_ofUri]
    rfl
  | .choice name members =>
    rw [mentionsOf, countedNames_leaf hstep rfl rfl, names_name,
      names_flatMap_eq_nil names_ofMember]
    rfl
  | .var name =>
    rw [mentionsOf, countedNames_leaf hstep rfl rfl]
    rfl
  | .literal name value lang datatype =>
    rw [mentionsOf, countedNames_leaf hstep rfl rfl]
    rfl

end

/-- The two walks meet the same names in the same order. -/
theorem names_mentions (subjects : List Subject) :
    (mentions subjects).filterMap Mention.name? =
      ((Index.ofSubjects subjects).triples.filter (·.isCounted)).map (·.object.name) := by
  have htriples : (Index.ofSubjects subjects).triples = subjects.zipIdx.flatMap fun p =>
      (predicateVisits 0 p.1.predicates).filterMap (·.triple? p.2 p.1 []) :=
    congrArg Walk.triples (Walk.flatten_eq Walk.empty subjects)
  rw [htriples, List.filter_flatMap, List.map_flatMap]
  simp only [countedNames_eq]
  rw [mentions, List.filterMap_flatMap]
  simp only [names_subjectMentions, names_predicateMentions 0]
  conv_lhs => rw [← List.zipIdx_map_fst 0 subjects, List.flatMap_map]

namespace Model

variable (m : Model)

theorem nodup_counted :
    ((m.index.triples.filter (·.isCounted)).map (·.object.name)).Nodup := by
  have hnames := (problems_eq_nil_iff.mp m.accepted).2.2
  rw [← repeated_eq, repeated_eq_nil_iff, names_mentions] at hnames
  exact hnames

theorem eq_of_counted {t u : Triple} (ht : t ∈ m.index.triples) (hu : u ∈ m.index.triples)
    (htc : t.isCounted = true) (huc : u.isCounted = true) (hname : t.object.name = u.object.name) :
    t = u :=
  List.inj_on_of_nodup_map m.nodup_counted (List.mem_filter.mpr ⟨ht, htc⟩)
    (List.mem_filter.mpr ⟨hu, huc⟩) hname

end Model

variable {s b : Subject} {steps : List Step} {step : Step} {p : Predicate} {o : Object}

theorem Subject.Holds.contains (h : s.Holds step o) : s.Contains step.predicate o :=
  .own (List.mem_of_getElem? h.1) (List.mem_of_getElem? h.2)

theorem Enters.contains (h : Enters s steps b) (ho : b.Contains p o) : s.Contains p o := by
  induction h with
  | here s => exact ho
  | through hstep hrest ih => exact .nested hstep.contains (ih ho)

theorem Enters.contains_blank (h : Enters s steps b) :
    ∀ step ∈ steps, ∃ c, s.Contains step.predicate (.blank c) := by
  induction h with
  | here s => simp
  | through hstep hrest ih =>
    refine List.forall_mem_cons.mpr ⟨⟨_, hstep.contains⟩, fun step hmem => ?_⟩
    obtain ⟨c, hc⟩ := ih step hmem
    exact ⟨c, .nested hstep.contains hc⟩

theorem Triple.IsLeafOf.contains {subjects : List Subject} {t : Triple} (h : t.IsLeafOf subjects) :
    t.subject ∈ subjects ∧ t.subject.Contains t.predicate t.object ∧
      ∀ step ∈ t.hops, ∃ c, t.subject.Contains step.predicate (.blank c) := by
  obtain ⟨hroot, -, b, henters, hlast⟩ := h
  exact ⟨List.mem_of_getElem? hroot, henters.contains hlast.contains, henters.contains_blank⟩

mutual

theorem Subject.Contains.reference {x : String} (o : Object) (h : s.Contains p o)
    (hx : x ∈ o.subjectNames) : ∃ name, s.Contains p (.reference name x) := by
  match o with
  | .reference name subject =>
    rw [Object.subjectNames, List.mem_singleton] at hx
    exact ⟨name, hx ▸ h⟩
  | .choice name members =>
    rw [Object.subjectNames, mem_distinct] at hx
    exact Subject.Contains.referenceOfMember members (fun m hm => .member h hm) hx
  | .var _ | .literal _ _ _ _ | .uri _ _ | .blank _ => simp [Object.subjectNames] at hx

theorem Subject.Contains.referenceOfMember {x : String} (os : List Object)
    (h : ∀ o ∈ os, s.Contains p o) (hx : x ∈ Object.memberSubjectNames os) :
    ∃ name, s.Contains p (.reference name x) := by
  match os with
  | [] => simp [Object.memberSubjectNames] at hx
  | o :: rest =>
    obtain ⟨ho, hrest⟩ := List.forall_mem_cons.mp h
    rw [Object.memberSubjectNames, List.mem_append] at hx
    rcases hx with hx | hx
    · exact Subject.Contains.reference o ho hx
    · exact Subject.Contains.referenceOfMember rest hrest hx

end

/-- A triple that gives its name to a variable of its own: it is neither a class nor a reference. -/
def Triple.IsNamed (t : Triple) : Prop :=
  t.predicate.isType = false ∧ t.object.isReference = false

section

variable {items : List Value} {subjects : List Subject} (h : Graph.build items = .ok subjects)
include h

/-- In a graph that was built, the triples that a review counts are those with names of their
own. -/
theorem isCounted_iff_of_build {t : Triple} (ht : t ∈ (Index.ofSubjects subjects).triples) :
    t.isCounted = true ↔ t.IsNamed := by
  obtain ⟨hs, -, hhops⟩ := ((Walk.mem_triples_flatten rfl subjects).mp ht).contains
  have hplain : ∀ step ∈ t.hops, step.predicate.isType = false := by
    intro step hstep
    obtain ⟨c, hc⟩ := hhops step hstep
    by_contra htype
    obtain ⟨uri, huri⟩ := (Graph.isShaped_of_build h hs hc).isClass (by simpa using htype)
    cases huri
  rw [Triple.isCounted, Triple.IsNamed, Triple.steps, List.all_append, Bool.and_eq_true,
    Bool.and_eq_true, List.all_eq_true]
  simp only [List.all_cons, List.all_nil, Bool.and_true, Bool.not_eq_true']
  constructor
  · rintro ⟨⟨-, hlast⟩, href⟩
    exact ⟨hlast, href⟩
  · rintro ⟨hlast, href⟩
    exact ⟨⟨hplain, hlast⟩, href⟩

theorem isSubject_of_subjectNames_of_build {t : Triple}
    (ht : t ∈ (Index.ofSubjects subjects).triples) {x : String} (hx : x ∈ t.object.subjectNames) :
    (Index.ofSubjects subjects).isSubject x = true := by
  obtain ⟨hs, ho, -⟩ := ((Walk.mem_triples_flatten rfl subjects).mp ht).contains
  obtain ⟨name, href⟩ := Subject.Contains.reference t.object ho hx
  have hroot : ∃ r ∈ subjects, r.name = x := by
    simpa using (Graph.isShaped_of_build h hs href).reference name x rfl
  exact Index.isSubject_iff.mpr hroot

end

/-- Names of an accepted model that was built from data. No two roots have the same name, and no two
triples that are neither classes nor references, wherever they stand. Hence such a triple is found
by its name unless a subject, a class or a reference has the name too, and no other triple has the
name or refers to it. -/
theorem Model.build_identifies {items : List Value} {subjects : List Subject} {table : PrefixTable}
    {m : Model} (h : Graph.build items = .ok subjects) (hm : Model.build subjects table = .ok m) :
    (subjects.map (·.name)).Nodup ∧
    m.index.triples.Pairwise
      (fun t u => t.IsNamed → u.IsNamed → t.object.name ≠ u.object.name) ∧
    ∀ t ∈ m.index.triples, t.IsNamed → m.index.isSubject t.object.name = false →
      (∀ u ∈ m.index.triples, u.predicate.isType = true → u.object.name ≠ t.object.name) →
      (∀ u ∈ m.index.triples, u.object.isReference = true → u.object.name ≠ t.object.name) →
        m.index.producer? t.object.name = some t ∧
        m.index.findObject? t.object.name = some t.object ∧
        ∀ u ∈ m.index.triples,
          u.object.name = t.object.name ∨ t.object.name ∈ u.object.subjectNames → u = t := by
  obtain ⟨-, rfl, -⟩ := Model.build_eq_ok_iff.mp hm
  refine ⟨m.nodup_subjectNames, ?_, fun t ht hnamed hsubject hclass href => ?_⟩
  · have hcounted := List.pairwise_filter.mp (List.pairwise_map.mp m.nodup_counted)
    refine hcounted.imp_of_mem fun ht hu hne htn hun => ?_
    exact hne ((isCounted_iff_of_build h ht).mpr htn) ((isCounted_iff_of_build h hu).mpr hun)
  · have hown : ∀ u ∈ m.index.triples, u.object.name = t.object.name → u = t := by
      intro u hu hname
      have hun : u.IsNamed :=
        ⟨Bool.eq_false_iff.mpr fun htype => hclass u hu htype hname,
          Bool.eq_false_iff.mpr fun hr => href u hu hr hname⟩
      exact m.eq_of_counted hu ht ((isCounted_iff_of_build h hu).mpr hun)
        ((isCounted_iff_of_build h ht).mpr hnamed) hname
    have hrefers : ∀ u ∈ m.index.triples, t.object.name ∉ u.object.subjectNames := by
      intro u hu hmem
      have hroot : m.index.isSubject t.object.name = true :=
        isSubject_of_subjectNames_of_build h hu hmem
      rw [hsubject] at hroot
      cases hroot
    have hunique : ∀ u ∈ m.index.triples,
        u.object.name = t.object.name ∨ t.object.name ∈ u.object.subjectNames → u = t :=
      fun u hu hu' => hown u hu (hu'.resolve_right (hrefers u hu))
    refine ⟨?_, ?_, hunique⟩
    · rw [Index.producer?, hsubject, if_neg Bool.false_ne_true]
      exact find?_eq_some_of_unique ht (by simp) (by simpa using hown)
    · rw [Index.findObject?, find?_eq_some_of_unique ht (by simp) (by simpa using hunique)]
      rfl

/-- The entry whose parts are a list inside of two blank nodes, with a gene to which they refer. -/
def nestedPartsModel : Model where
  subjects := [Graph.nestedEntry, Graph.partGene]
  prefixes := [("ex", "http://example.org/")]
  accepted := by decide +kernel

def partTriple : Triple :=
  ⟨0, Graph.nestedEntry, [⟨Graph.hasPredicate, 1, 0⟩, ⟨Graph.holdsPredicate, 0, 0⟩],
    ⟨Graph.partPredicate, 0, 0⟩, .choice "part" [.reference "part" "Gene", .uri "part" "ex:p1",
      .choice "part" [.reference "part" "Gene"]]⟩

theorem Model.build_identifies_nestedParts :
    Graph.build Graph.nestedParts = .ok nestedPartsModel.subjects ∧
    Model.build nestedPartsModel.subjects nestedPartsModel.prefixes = .ok nestedPartsModel ∧
    (nestedPartsModel.subjects.map (·.name)).Nodup ∧
    partTriple ∈ nestedPartsModel.index.triples ∧ partTriple.IsNamed ∧
    nestedPartsModel.index.producer? "part" = some partTriple ∧
    nestedPartsModel.index.findObject? "part" = some partTriple.object := by
  have hbuild : Graph.build Graph.nestedParts = .ok nestedPartsModel.subjects :=
    Graph.build_nestedParts
  have hmodel : Model.build nestedPartsModel.subjects nestedPartsModel.prefixes =
      .ok nestedPartsModel := Model.build_eq_ok_iff.mpr ⟨nestedPartsModel.accepted, rfl, rfl⟩
  have hmem : partTriple ∈ nestedPartsModel.index.triples := List.mem_of_getElem? (i := 1) rfl
  have hnamed : partTriple.IsNamed := ⟨by decide, by decide⟩
  obtain ⟨hnodup, -, hfound⟩ := Model.build_identifies hbuild hmodel
  obtain ⟨hproducer, hobject, -⟩ := hfound partTriple hmem hnamed (by decide +kernel)
    (by decide +kernel) (by decide +kernel)
  exact ⟨hbuild, hmodel, hnodup, hmem, hnamed, hproducer, hobject⟩

end SparqlModel
