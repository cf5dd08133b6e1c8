import SparqlModel.Proofs.NodeClasses

/-!
# Names that a model does not have

A request is consulted at several places: for the anchor of a variable, for a second variable with
the same path, and for the type triples. All of them look up names of subjects and objects only. So
a request may hold other names without any effect on the block; each of them is reported once.
-/

namespace SparqlModel

theorem distinct_filter {α : Type} [BEq α] [LawfulBEq α] (p : α → Bool) (xs : List α) :
    (distinct xs).filter p = distinct (xs.filter p) := by
  induction xs using List.reverseRecOn with
  | nil => rfl
  | append_singleton xs x ih =>
    rw [distinct_append_singleton, List.filter_append]
    cases hp : p x with
    | true =>
      rw [List.filter_cons_of_pos hp, List.filter_nil, distinct_append_singleton, ← ih]
      by_cases hx : x ∈ xs <;> simp [hx, hp]
    | false =>
      rw [List.filter_cons_of_neg (by simp [hp]), List.filter_nil, List.append_nil, ← ih]
      by_cases hx : x ∈ xs <;> simp [hx, hp]

theorem flatMap_filter_of_nil {α β : Type} {p : α → Bool} {f : α → List β} {xs : List α}
    (h : ∀ x, p x = false → f x = []) : (xs.filter p).flatMap f = xs.flatMap f := by
  induction xs with
  | nil => rfl
  | cons x rest ih =>
    rw [List.filter_cons, List.flatMap_cons]
    split_ifs with hp
    · rw [List.flatMap_cons, ih]
    · rw [h x (by simpa using hp), ih, List.nil_append]

namespace Index

instance (ix : Index) (v : String) : Decidable (ix.IsName v) :=
  inferInstanceAs (Decidable ((∃ s ∈ ix.subjects, s.name = v) ∨ ∃ t ∈ ix.triples, t.object.name = v))

variable {ix : Index} {v : String}

theorem IsName.of_isSubject (h : ix.isSubject v) : ix.IsName v :=
  Or.inl (isSubject_iff.mp h)

theorem isName_iff : ix.IsName v ↔ ix.isSubject v = true ∨ ix.producer? v ≠ none := by
  constructor
  · intro h
    by_cases hs : ix.isSubject v = true
    · exact Or.inl hs
    · obtain ⟨t, ht, rfl⟩ := h.resolve_left fun hsubject => hs (isSubject_iff.mpr hsubject)
      refine Or.inr fun hnone => ?_
      rw [producer?, if_neg hs, List.find?_eq_none] at hnone
      exact hnone t ht (by simp)
  · rintro (hs | hp)
    · exact .of_isSubject hs
    · obtain ⟨t, ht⟩ := Option.ne_none_iff_exists'.mp hp
      exact .of_producer? ht

theorem isName_variableFor_iff : ix.IsName (ix.variableFor v) ↔ ix.IsName v := by
  by_cases hs : ix.isSubject v = true
  · obtain ⟨s, hmem, rfl⟩ := isSubject_iff.mp hs
    exact iff_of_true (.of_variableFor hmem) (.of_isSubject hs)
  · rw [variableFor, if_neg hs]

theorem variableFor_of_not_isName (h : ¬ix.IsName v) : ix.variableFor v = v := by
  have hs : ¬ix.isSubject v = true := fun hs => h (.of_isSubject hs)
  rw [variableFor, if_neg hs]

theorem producer?_of_not_isName (h : ¬ix.IsName v) : ix.producer? v = none := by
  by_contra hp
  exact h (isName_iff.mpr (Or.inr hp))

theorem propertyPath_of_not_isName (h : ¬ix.IsName v) : ix.propertyPath v none = [] := by
  rw [propertyPath, trail, producer?_of_not_isName h]
  rfl

end Index

namespace Pattern

section

variable {ix : Index} {names names' : List String}
  (h : ∀ v, ix.IsName v → (v ∈ names ↔ v ∈ names'))
include h

theorem contains_of_known {v : String} (hv : ix.IsName v) :
    names.contains v = names'.contains v := by
  rw [Bool.eq_iff_iff, List.contains_iff_mem, List.contains_iff_mem, h v hv]

theorem isRequested_of_known {s : String} (hs : ix.isSubject s = true) :
    Draft.isRequested ix names s = Draft.isRequested ix names' s := by
  have hvariable := Index.isName_variableFor_iff.mpr (Index.IsName.of_isSubject hs)
  rw [Draft.isRequested, Draft.isRequested, contains_of_known h hvariable]
  congr 1
  cases hp : ix.producer? s with
  | none => rfl
  | some t => exact contains_of_known h (Or.inr ⟨t, Index.producer?_mem hp, rfl⟩)

omit h in
theorem anchorName?_congr {p q : String → Bool} {l : List String} (hpq : ∀ s ∈ l, p s = q s) :
    Draft.anchorName? p l = Draft.anchorName? q l := by
  induction l with
  | nil => rfl
  | cons name rest ih =>
    cases rest with
    | nil => rfl
    | cons next rest =>
      have hrest := ih fun s hs => hpq s (List.mem_cons_of_mem name hs)
      change (if p name then some name else Draft.anchorName? p (next :: rest)) =
        if q name then some name else Draft.anchorName? q (next :: rest)
      rw [hpq name List.mem_cons_self, hrest]

theorem anchor_of_known (t : SparqlModel.Triple) :
    Draft.anchor ix names t = Draft.anchor ix names' t := by
  have hname : Draft.anchorName? (Draft.isRequested ix names)
      (ix.ancestorSubjects t.object.name).reverse =
      Draft.anchorName? (Draft.isRequested ix names')
        (ix.ancestorSubjects t.object.name).reverse := by
    refine anchorName?_congr fun s hs => isRequested_of_known h ?_
    exact (List.mem_filter.mp (List.mem_reverse.mp hs)).2
  rw [Draft.anchor, Draft.anchor, hname]

theorem samePathExists_of_known (name : String) :
    ix.samePathExists name names = ix.samePathExists name names' := by
  unfold Index.samePathExists
  dsimp only
  cases hpath : (ix.propertyPath name none).isEmpty with
  | true => rfl
  | false =>
    have hknown : ∀ other, ix.propertyPath other none = ix.propertyPath name none →
        ix.IsName other := by
      intro other he
      by_contra hother
      rw [← he, Index.propertyPath_of_not_isName hother] at hpath
      cases hpath
    rw [Bool.eq_iff_iff]
    simp only [Bool.not_false, Bool.true_and, List.any_eq_true, Bool.and_eq_true, beq_iff_eq]
    constructor
    · rintro ⟨other, hmem, hne, he⟩
      exact ⟨other, (h other (hknown other he)).mp hmem, hne, he⟩
    · rintro ⟨other, hmem, hne, he⟩
      exact ⟨other, (h other (hknown other he)).mpr hmem, hne, he⟩

theorem rendering_of_known (t : SparqlModel.Triple) :
    rendering ix names t = rendering ix names' t := by
  rw [rendering, rendering, samePathExists_of_known h]

theorem startSubject_of_known (t : SparqlModel.Triple) :
    startSubject ix names t = startSubject ix names' t := by
  rw [startSubject, startSubject, rendering_of_known h, anchor_of_known h]

/-- What a variable asks for depends on the known names of the request only. -/
theorem edges_of_known (name : String) : edges ix names name = edges ix names' name := by
  have hlinks : ∀ t, linkEdges ix names t = linkEdges ix names' t := by
    intro t
    rw [linkEdges, linkEdges, rendering_of_known h]
  have hleaf : ∀ t, leafEdge ix names name t = leafEdge ix names' name t := by
    intro t
    simp only [leafEdge, leafStep, rendering_of_known h, anchor_of_known h]
  simp only [edges, hlinks, hleaf]

end

def knownNames (ix : Index) (names : List String) : List String :=
  names.filter fun v => ix.IsName v

def unknownNames (ix : Index) (names : List String) : List String :=
  names.filter fun v => ¬ix.IsName v

variable (ix : Index) (names : List String)

theorem mem_knownNames_iff {v : String} (hv : ix.IsName v) :
    v ∈ names ↔ v ∈ knownNames ix names := by
  simp [knownNames, hv]

theorem requestedVariables_knownNames :
    requestedVariables ix (some (knownNames ix names)) =
      knownNames ix (requestedVariables ix (some names)) := by
  simp only [requestedVariables, Option.getD_some, knownNames, distinct_filter, List.filter_map,
    Function.comp_def, Index.isName_variableFor_iff]

theorem unknownNames_requestedVariables :
    unknownNames ix (requestedVariables ix (some names)) = distinct (unknownNames ix names) := by
  have hsame : (unknownNames ix names).map ix.variableFor = unknownNames ix names := by
    refine (List.map_congr_left fun v hv => ?_).trans (List.map_id' _)
    exact Index.variableFor_of_not_isName (by simpa using (List.mem_filter.mp hv).2)
  rw [← hsame]
  simp only [requestedVariables, Option.getD_some, unknownNames, distinct_filter, List.filter_map,
    Function.comp_def, Index.isName_variableFor_iff]

theorem plan_knownNames : plan ix (knownNames ix names) = plan ix names := by
  have hedges : edges ix (knownNames ix names) = edges ix names :=
    funext fun v => (edges_of_known (fun _ => mem_knownNames_iff ix names) v).symm
  rw [plan, plan, hedges]
  refine flatMap_filter_of_nil fun v hv => ?_
  simp [edges, source?, Index.producer?_of_not_isName (of_decide_eq_false hv)]

theorem classGivers_knownNames (v : String) :
    classGivers ix (knownNames ix names) (knownNames ix names) v = classGivers ix names names v := by
  have hstart : startSubject ix (knownNames ix names) = startSubject ix names :=
    funext fun t => (startSubject_of_known (fun _ => mem_knownNames_iff ix names) t).symm
  have hsource : (knownNames ix names).filterMap (source? ix) = names.filterMap (source? ix) := by
    rw [knownNames, List.filterMap_filter]
    refine List.filterMap_congr fun v _ => ?_
    split_ifs with hv
    · rfl
    · rw [source?, Index.producer?_of_not_isName (by simpa using hv)]
      rfl
  rw [classGivers, classGivers, hstart, hsource]

/-- Two drafts with the same triples and the same classes, which are shown by the same lines. -/
structure Draft.SameBlock (d d' : Draft) : Prop where
  required : d.required = d'.required
  optional : d.optional = d'.optional
  typesOf : d.typesOf = d'.typesOf

namespace Draft

theorem sameBlock_traced (ix : Index) (names : List String) :
    SameBlock (traced ix (knownNames ix names)) (traced ix names) := by
  have hshows := traced_shows ix names
  have hshows' := traced_shows ix (knownNames ix names)
  rw [plan_knownNames] at hshows'
  have hblanks : (traced ix (knownNames ix names)).blanks = (traced ix names).blanks :=
    hshows'.blanks.trans hshows.blanks.symm
  have hbuffered : ∀ o, (traced ix (knownNames ix names)).buffered o =
      (traced ix names).buffered o := by
    intro o
    rw [hshows'.buffered, hshows.buffered, hblanks]
  refine ⟨hbuffered false, hbuffered true, funext fun n => ?_⟩
  cases n with
  | var v => rw [typesOf_traced, typesOf_traced, classGivers_knownNames]
  | blank k => rw [typesOf, typesOf, hblanks]

theorem classedNames_knownNames (ix : Index) (names : List String) (d : Draft) :
    classedNames ix (otherNames (knownNames ix names) d) =
      classedNames ix (otherNames names d) := by
  have hknown : ∀ v, referencedTypes ix v ≠ [] → ix.IsName v := by
    intro v htypes
    by_contra hv
    rw [referencedTypes, Index.producer?_of_not_isName hv] at htypes
    exact htypes rfl
  simp only [classedNames, otherNames, knownNames, List.filter_filter]
  refine List.filter_congr fun v _ => ?_
  by_cases htypes : referencedTypes ix v = []
  · simp [htypes]
  · simp [hknown v htypes]

/-- A request and its known names have the same block. -/
theorem sameBlock_ofVariables (ix : Index) (names : List String) :
    SameBlock (ofVariables ix (knownNames ix names)) (ofVariables ix names) := by
  have hbody := sameBlock_traced ix names
  set d' := traced ix (knownNames ix names) with hd'
  set d := traced ix names with hd
  have hsubjects : d'.subjects = d.subjects := by
    rw [subjects, subjects, hbody.required, hbody.optional]
  have hother : otherNames (knownNames ix names) d' = otherNames (knownNames ix names) d := by
    rw [otherNames, otherNames, hsubjects]
  have hclassed : classedNames ix (otherNames (knownNames ix names) d') =
      classedNames ix (otherNames names d) := by
    rw [hother, classedNames_knownNames]
  rw [ofVariables_eq, ofVariables_eq, ← hd, ← hd']
  refine ⟨?_, ?_, funext fun n => ?_⟩
  · rw [required_addTypes, required_addTypes, typedNodes, typedNodes, hclassed, hsubjects,
      hbody.typesOf, hbody.required]
  · rw [(addTypes_spec ix _ d').2.1, (addTypes_spec ix _ d).2.1, hbody.optional]
  · cases n with
    | var v => rw [typesOf_addTypes, typesOf_addTypes, hclassed, hbody.typesOf]
    | blank k => rw [typesOf_addTypes_blank, typesOf_addTypes_blank, hbody.typesOf]

end Draft

/-- The lines of a block show the triples and the classes of its draft. -/
def blockLines (ix : Index) (parameters : Parameters) (options : Options) (d : Draft) :
    List String :=
  "WHERE \x7b" :: (if options.emitValues then
      classLines options d (parameterLines ix options parameters []).1 else [])
    ++ requiredLines d options.indentUnit ++ optionalLines d options.indentUnit ++ ["\x7d"]

theorem lines_generate (ix : Index) (request : Option (List String)) (parameters : Parameters)
    (options : Options) : (generate ix request parameters options).lines =
      blockLines ix parameters options (Draft.ofVariables ix (requestedVariables ix request)) := by
  cases he : options.emitValues <;> simp [generate, blockLines, he]

theorem Draft.SameBlock.blockLines {d d' : Draft} (h : d.SameBlock d') (ix : Index)
    (parameters : Parameters) (options : Options) :
    blockLines ix parameters options d = Pattern.blockLines ix parameters options d' := by
  have hgroup : ∀ isFirst ts, groupLines d options.indentUnit isFirst ts =
      groupLines d' options.indentUnit isFirst ts := by
    intro isFirst ts
    induction ts generalizing isFirst with
    | nil => rfl
    | cons t rest ih => rw [groupLines, groupLines, h.typesOf, ih]
  have hrequired : requiredLines d options.indentUnit = requiredLines d' options.indentUnit := by
    simp only [requiredLines, h.required, hgroup]
  have hoptional : optionalLines d options.indentUnit = optionalLines d' options.indentUnit := by
    simp only [optionalLines, h.optional, h.typesOf]
  have hsubjects : d.subjects = d'.subjects := by
    rw [Draft.subjects, Draft.subjects, h.required, h.optional]
  have hclass : ∀ lines, classLines options d lines = classLines options d' lines := by
    intro lines
    simp only [classLines, hsubjects, h.typesOf]
  rw [Pattern.blockLines, Pattern.blockLines, hrequired, hoptional, hclass]

def eventsOf (ix : Index) (names : List String) (name : String) : List Event :=
  match ix.producer? name with
  | none => if ix.isSubject name then [] else [.unknownVariable name]
  | some t =>
    if t.subject.name = name then []
    else if rendering ix names t = .wholeRoute then [.untypedPath name] else []

namespace Draft

variable {ix : Index} {names : List String}

@[simp] theorem events_add (d : Draft) (t : Triple) (isOptional : Bool) :
    (d.add t isOptional).events = d.events := by
  cases isOptional <;> rfl

@[simp] theorem events_subjectNode (d : Draft) (s : Subject) :
    (d.subjectNode ix s).2.events = d.events := by
  unfold subjectNode
  dsimp only
  split_ifs <;> rfl

theorem events_followHops (node : Node) (route pending : List String)
    (hops : List (Step × Option (List String))) (d : Draft) :
    (followHops node route pending hops d).2.2.events = d.events := by
  induction hops generalizing node route pending d with
  | nil => rfl
  | cons hop rest ih =>
    obtain ⟨step, types⟩ := hop
    cases types with
    | none => exact ih ..
    | some types =>
      rw [followHops]
      dsimp only
      rw [ih, events_add, blankNode_eq]

theorem events_addVariable (name : String) (d : Draft) :
    (d.addVariable ix names name).events = d.events ++ eventsOf ix names name := by
  unfold addVariable eventsOf
  cases hp : ix.producer? name with
  | none =>
    dsimp only
    split_ifs
    · exact (List.append_nil _).symm
    · rfl
  | some t =>
    by_cases hself : t.subject.name = name
    · simp [hself]
    · simp only [beq_iff_eq, hself, if_false]
      split_ifs with hb ht hr hr hr
      · simp [addWholeRoute, report]
      · exact absurd (by simp [rendering, hb, ht]) hr
      · simp [rendering, hb, ht] at hr
      · simp [addExpanded, events_followHops]
      · simp [rendering, hb] at hr
      · simp [addCompressed]

theorem events_ofVariables (ix : Index) (names : List String) :
    (ofVariables ix names).events = names.flatMap (eventsOf ix names) := by
  -- the variables seen so far vary, the request stays
  have hrun : ∀ seen : List String,
      (seen.foldl (fun d name => d.addVariable ix names name) empty).events =
        seen.flatMap (eventsOf ix names) := by
    intro seen
    induction seen using List.reverseRecOn with
    | nil => rfl
    | append_singleton seen name ih =>
      rw [List.foldl_append, List.foldl_cons, List.foldl_nil, events_addVariable, ih,
        List.flatMap_append, List.flatMap_singleton]
  have hclasses : ∀ (vs : List String) (d : Draft),
      (vs.foldl (fun d v => d.setTypes v (referencedTypes ix v)) d).events = d.events := by
    intro vs
    induction vs with
    | nil => exact fun d => rfl
    | cons v rest ih => exact fun d => ih (d.setTypes v (referencedTypes ix v))
  rw [← hrun names, ofVariables_eq, addTypes]
  simp only [typeVariables_eq, hclasses]
  rfl

end Draft

section

variable {ix : Index} {names : List String}

/-- The only warning that a variable can give is that the model does not have it. -/
theorem filter_eventsOf (ix : Index) (names : List String) (name : String) :
    (eventsOf ix names name).filter (·.level == .warning) =
      if ix.IsName name then [] else [.unknownVariable name] := by
  unfold eventsOf
  cases hp : ix.producer? name with
  | none =>
    by_cases hs : ix.isSubject name = true
    · simp [hs, Index.IsName.of_isSubject hs]
    · have hname : ¬ix.IsName name := by simp [Index.isName_iff, hs, hp]
      simp [hs, hname, Event.level]
  | some t =>
    rw [if_pos (Index.IsName.of_producer? hp), List.filter_eq_nil_iff]
    intro e he
    dsimp only at he
    split_ifs at he with hself hr
    · simp at he
    · rw [List.mem_singleton.mp he]
      exact Bool.false_ne_true
    · simp at he

theorem filter_events_ofVariables (ix : Index) (names : List String) :
    (Draft.ofVariables ix names).events.filter (·.level == .warning) =
      (unknownNames ix names).map .unknownVariable := by
  rw [Draft.events_ofVariables, List.filter_flatMap]
  simp only [filter_eventsOf]
  rw [← flatMap_filter_of_nil (p := fun v => ¬ix.IsName v) fun v hv => if_pos (by simpa using hv)]
  rw [List.map_eq_flatMap]
  refine List.flatMap_congr fun v hv => if_neg ?_
  simpa using (List.mem_filter.mp hv).2

theorem warnings_append (events events' : List Event) :
    warnings (events ++ events') = warnings events ++ warnings events' := by
  simp [warnings]

theorem warnings_ofVariables (ix : Index) (names : List String) :
    warnings (Draft.ofVariables ix names).events =
      (unknownNames ix names).map fun v => "Variable " ++ v ++ " not found in model, skipping" := by
  rw [warnings, filter_events_ofVariables, List.map_map]
  rfl

theorem unknownVariable_notMem {v : String} (h : unknownNames ix names = []) :
    .unknownVariable v ∉ (Draft.ofVariables ix names).events := by
  intro hmem
  have hwarning : .unknownVariable v ∈
      (Draft.ofVariables ix names).events.filter (·.level == .warning) :=
    List.mem_filter.mpr ⟨hmem, rfl⟩
  rw [filter_events_ofVariables, h] at hwarning
  simp at hwarning

theorem exists_of_mem_parameterLines {options : Options} {parameters : Parameters}
    {lines : List String} {e : Event} (he : e ∈ (parameterLines ix options parameters lines).2) :
    ∃ name, e = .unknownParameter name := by
  induction parameters generalizing lines with
  | nil => simp [parameterLines] at he
  | cons p rest ih =>
    obtain ⟨name, value⟩ := p
    rw [parameterLines] at he
    cases ho : ix.findObject? name with
    | none =>
      rw [ho] at he
      rcases List.mem_cons.mp he with rfl | he
      · exact ⟨name, rfl⟩
      · exact ih he
    | some object =>
      rw [ho] at he
      exact ih he

theorem exists_of_mem_warningsBeforeTextless? {parameters : Parameters} {events : List Event}
    {e : Event} (h : warningsBeforeTextless? ix parameters = some events) (he : e ∈ events) :
    ∃ name, e = .unknownParameter name := by
  induction parameters generalizing events with
  | nil => simp [warningsBeforeTextless?] at h
  | cons p rest ih =>
    obtain ⟨name, value⟩ := p
    rw [warningsBeforeTextless?] at h
    cases ho : ix.findObject? name with
    | none =>
      rw [ho] at h
      obtain ⟨events', h', rfl⟩ := Option.map_eq_some_iff.mp h
      rcases List.mem_cons.mp he with rfl | he
      · exact ⟨name, rfl⟩
      · exact ih h' he
    | some object =>
      rw [ho] at h
      dsimp only at h
      split_ifs at h
      · exact ih h he
      · obtain rfl := Option.some.inj h
        simp at he

def parameterEvents (ix : Index) (parameters : Parameters) (options : Options) : List Event :=
  if options.emitValues then (parameterLines ix options parameters []).2 else []

theorem events_generate (ix : Index) (request : Option (List String)) (parameters : Parameters)
    (options : Options) :
    let names := requestedVariables ix request
    let d := Draft.ofVariables ix names
    (generate ix request parameters options).events = d.events
      ++ parameterEvents ix parameters options
      ++ [.patternGenerated d.required.length d.optional.length names.length] := by
  cases he : options.emitValues <;> simp [generate, parameterEvents, he]

/-- A block gives the warnings of its variables and then those of its parameters. -/
theorem filter_events_generate (ix : Index) (request : Option (List String))
    (parameters : Parameters) (options : Options) :
    (generate ix request parameters options).events.filter (·.level == .warning) =
      (unknownNames ix (requestedVariables ix request)).map .unknownVariable
        ++ (parameterEvents ix parameters options).filter (·.level == .warning) := by
  rw [events_generate, List.filter_append, List.filter_append, filter_events_ofVariables]
  simp [Event.level]

end

/-- Names that a model does not have. A request gives the same lines with and without them. With
them there is one warning for each of them, in the order in which they first occur, in front of the
warnings of the parameters; without them there is none. A value that cannot be written stops both
runs, at the same place and after the same warnings. -/
theorem generate_skipsUnknown (m : Model) (names : List String) (parameters : Parameters)
    (options : Options) :
    let known := knownNames m.index names
    let notFound := (distinct (unknownNames m.index names)).map fun v =>
      "Variable " ++ v ++ " not found in model, skipping"
    let w := generate m.index (some names) parameters options
    let w' := generate m.index (some known) parameters options
    w.lines = w'.lines ∧
    w.events.filter (·.level == .warning) =
      (distinct (unknownNames m.index names)).map .unknownVariable
        ++ w'.events.filter (·.level == .warning) ∧
    (∀ v, .unknownVariable v ∉ w'.events) ∧
    warnings w.events = notFound ++ warnings w'.events ∧
    (obstacle? m.index (some names) parameters options).map warnings =
      (obstacle? m.index (some known) parameters options).map (notFound ++ warnings ·) ∧
    ∀ events, obstacle? m.index (some known) parameters options = some events →
      ∀ v, .unknownVariable v ∉ events := by
  intro known notFound w w'
  have hknown : requestedVariables m.index (some known) =
      knownNames m.index (requestedVariables m.index (some names)) :=
    requestedVariables_knownNames m.index names
  have hunknown : unknownNames m.index (requestedVariables m.index (some names)) =
      distinct (unknownNames m.index names) :=
    unknownNames_requestedVariables m.index names
  have hnone : unknownNames m.index (requestedVariables m.index (some known)) = [] := by
    rw [hknown, unknownNames, knownNames, List.filter_filter]
    simp
  have hfilter : w.events.filter (·.level == .warning) =
      (distinct (unknownNames m.index names)).map .unknownVariable
        ++ w'.events.filter (·.level == .warning) := by
    rw [filter_events_generate, filter_events_generate, hunknown, hnone]
    rfl
  refine ⟨?_, hfilter, fun v hv => ?_, ?_, ?_, fun events h v hv => ?_⟩
  · rw [lines_generate, lines_generate, hknown]
    exact ((Draft.sameBlock_ofVariables m.index _).blockLines _ _ _).symm
  · rw [events_generate, List.mem_append, List.mem_append, List.mem_singleton] at hv
    rcases hv with (hv | hv) | hv
    · exact unknownVariable_notMem hnone hv
    · unfold parameterEvents at hv
      split_ifs at hv
      · obtain ⟨name, he⟩ := exists_of_mem_parameterLines hv
        cases he
      · simp at hv
    · cases hv
  · rw [warnings, hfilter, List.map_append, List.map_map]
    rfl
  · unfold obstacle?
    split_ifs
    · simp only [Option.map_map, Function.comp_def, warnings_append, warnings_ofVariables, hunknown,
        hnone]
      rfl
    · rfl
  · unfold obstacle? at h
    split_ifs at h
    · obtain ⟨before, hbefore, rfl⟩ := Option.map_eq_some_iff.mp h
      rcases List.mem_append.mp hv with hv | hv
      · exact unknownVariable_notMem hnone hv
      · obtain ⟨name, he⟩ := exists_of_mem_warningsBeforeTextless? hbefore hv
        cases he

end Pattern

end SparqlModel
