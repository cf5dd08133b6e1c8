import SparqlModel.Proofs.PlainNames

/-!
# Type triples and the classes of variables

The type triples of a pattern belong to the subjects of its triples that have classes, and to the
requested variables that refer to subjects with classes. A variable takes its classes from the
subjects at which the routes of a request start: each of them overwrites what the ones before have
given, unless it has no classes itself. A variable has classes only if one of its type triples is
there.
-/

namespace SparqlModel.Pattern

theorem eq_var_of_name_eq {s : Spot} {keys : List BlankKey} {v : String}
    (hv : isBlankLabel v = false) (h : (s.number keys).name = v) : s = .var v := by
  cases s with
  | var n => exact congrArg Spot.var h
  | blank key =>
    have hlabel := Node.isBlankLabel_name_blank (keys.idxOf key + 1)
    rw [show (Node.blank (keys.idxOf key + 1 : ℕ)).name = v from h, hv] at hlabel
    cases hlabel

/-- The subject at which the route to the object of a triple starts. -/
def startSubject (ix : Index) (names : List String) (t : SparqlModel.Triple) : Subject :=
  match rendering ix names t with
  | .compressed => Draft.anchor ix names t
  | _ => t.subject

def startName (ix : Index) (names : List String) (t : SparqlModel.Triple) : String :=
  ix.variableFor (startSubject ix names t).name

/-- The routes to some of the requested variables give classes to a variable through these subjects,
one after the other. -/
def classGivers (ix : Index) (names seen : List String) (v : String) : List Subject :=
  ((seen.filterMap (source? ix)).map (startSubject ix names)).filter fun s =>
    ix.variableFor s.name = v ∧ s.types ≠ []

theorem mem_classGivers {ix : Index} {names seen : List String} {v : String} {s : Subject} :
    s ∈ classGivers ix names seen v ↔ (∃ name ∈ seen, ∃ t, source? ix name = some t ∧
      startSubject ix names t = s) ∧ ix.variableFor s.name = v ∧ s.types ≠ [] := by
  simp only [classGivers, List.mem_filter, List.mem_map, List.mem_filterMap, decide_eq_true_eq]
  constructor
  · rintro ⟨⟨t, ⟨name, hname, ht⟩, hs⟩, h⟩
    exact ⟨⟨name, hname, t, ht, hs⟩, h⟩
  · rintro ⟨⟨name, hname, t, ht, hs⟩, h⟩
    exact ⟨⟨t, ⟨name, hname, ht⟩, hs⟩, h⟩

namespace Draft

def subjectsOf (ts : List Triple) : List Node :=
  ts.foldl (fun nodes t =>
    if nodes.any fun n => n.name == t.subject.name then nodes else nodes ++ [t.subject]) []

theorem subjectsOf_append_singleton (ts : List Triple) (t : Triple) :
    subjectsOf (ts ++ [t]) = if ∃ n ∈ subjectsOf ts, n.name = t.subject.name then subjectsOf ts
      else subjectsOf ts ++ [t.subject] := by
  simp [subjectsOf, List.foldl_append]

theorem exists_of_mem_subjectsOf {ts : List Triple} {n : Node} (h : n ∈ subjectsOf ts) :
    ∃ t ∈ ts, t.subject = n := by
  induction ts using List.reverseRecOn with
  | nil => simp [subjectsOf] at h
  | append_singleton ts t ih =>
    rw [subjectsOf_append_singleton] at h
    split_ifs at h
    · obtain ⟨u, hu, hn⟩ := ih h
      exact ⟨u, List.mem_append_left _ hu, hn⟩
    · rcases List.mem_append.mp h with h | h
      · obtain ⟨u, hu, hn⟩ := ih h
        exact ⟨u, List.mem_append_left _ hu, hn⟩
      · exact ⟨t, by simp, (List.mem_singleton.mp h).symm⟩

theorem exists_mem_subjectsOf {ts : List Triple} {t : Triple} (h : t ∈ ts) :
    ∃ n ∈ subjectsOf ts, n.name = t.subject.name := by
  induction ts using List.reverseRecOn with
  | nil => simp at h
  | append_singleton ts u ih =>
    rw [subjectsOf_append_singleton]
    rcases List.mem_append.mp h with h | h
    · obtain ⟨n, hn, hname⟩ := ih h
      refine ⟨n, ?_, hname⟩
      split_ifs
      · exact hn
      · exact List.mem_append_left _ hn
    · rw [List.mem_singleton.mp h]
      split_ifs with hu
      · exact hu
      · exact ⟨u.subject, by simp, rfl⟩

def typeTriple (n : Node) : Triple :=
  ⟨n, "a", n⟩

/-- The variables that take their classes from the subjects to which they refer. -/
def classedNames (ix : Index) (names : List String) : List String :=
  names.filter fun v => !(referencedTypes ix v).isEmpty

def otherNames (names : List String) (d : Draft) : List String :=
  names.filter fun v => !d.subjects.any fun n => n.name == v

def typedNodes (ix : Index) (names : List String) (d : Draft) : List Node :=
  (d.subjects.filter fun n => !(d.typesOf n).isEmpty)
    ++ (classedNames ix (otherNames names d)).map .var

theorem typeVariables_eq (ix : Index) (names : List String) (triples : List Triple) (d : Draft) :
    typeVariables ix names triples d =
      (triples ++ (classedNames ix names).map (fun v => typeTriple (.var v)),
        (classedNames ix names).foldl (fun d v => d.setTypes v (referencedTypes ix v)) d) := by
  induction names generalizing triples d with
  | nil => simp [typeVariables, classedNames]
  | cons name rest ih =>
    rw [typeVariables]
    split_ifs with h
    · simp [ih, classedNames, h]
    · simp [ih, classedNames, h, typeTriple]

theorem foldl_setTypes (ix : Index) (names : List String) (d : Draft) :
    (names.foldl (fun d v => d.setTypes v (referencedTypes ix v)) d).required = d.required ∧
      ∀ v, (names.foldl (fun d v => d.setTypes v (referencedTypes ix v)) d).typesOf (.var v) =
        if v ∈ names then distinct (referencedTypes ix v) else d.typesOf (.var v) := by
  induction names generalizing d with
  | nil => simp
  | cons name rest ih =>
    obtain ⟨hrequired, htypes⟩ := ih (d.setTypes name (referencedTypes ix name))
    refine ⟨hrequired, fun v => ?_⟩
    rw [List.foldl_cons, htypes]
    by_cases hv : v = name
    · subst hv
      simp [typesOf, setTypes, Table.get?_insert_self]
    · simp [typesOf, setTypes, Table.get?_insert_of_ne hv, hv]

theorem required_addTypes (ix : Index) (names : List String) (d : Draft) :
    (d.addTypes ix names).required = (typedNodes ix names d).map typeTriple ++ d.required := by
  unfold addTypes
  simp only [typeVariables_eq, (foldl_setTypes ix _ d).1]
  rw [typedNodes, List.map_append, List.map_map]
  rfl

theorem typesOf_addTypes (ix : Index) (names : List String) (d : Draft) (v : String) :
    (d.addTypes ix names).typesOf (.var v) =
      if v ∈ classedNames ix (otherNames names d) then distinct (referencedTypes ix v)
      else d.typesOf (.var v) := by
  rw [← (foldl_setTypes ix (classedNames ix (otherNames names d)) d).2 v]
  unfold addTypes
  simp only [typeVariables_eq]
  rfl

variable {ix : Index} {names : List String} {name v : String} {d : Draft}

@[simp] theorem types_add (d : Draft) (t : Triple) (isOptional : Bool) :
    (d.add t isOptional).types = d.types := by
  cases isOptional <;> rfl

theorem types_followHops (node : Node) (route pending : List String)
    (hops : List (Step × Option (List String))) (d : Draft) :
    (followHops node route pending hops d).2.2.types = d.types := by
  induction hops generalizing node route pending d with
  | nil => rfl
  | cons hop rest ih =>
    obtain ⟨step, types⟩ := hop
    cases types with
    | none => exact ih ..
    | some types =>
      rw [followHops]
      dsimp only
      rw [ih, types_add, blankNode_eq]

theorem exists_link_from (node : Spot) (route pending : List String)
    (hops : List (Step × Option (List String))) :
    (∃ e ∈ links node route pending hops, e.subject = node) ∨
      (linksEnd node route pending hops).1 = node := by
  induction hops generalizing node route pending with
  | nil => exact Or.inr rfl
  | cons hop rest ih =>
    obtain ⟨step, types⟩ := hop
    cases types with
    | none => exact ih node _ _
    | some types => exact Or.inl ⟨_, List.mem_cons_self, rfl⟩

theorem get?_subjectNode_eq (d : Draft) (s : Subject) :
    (d.subjectNode ix s).2.types.get? v =
      if ix.variableFor s.name = v ∧ s.types ≠ [] then some (distinct s.types)
      else d.types.get? v := by
  unfold subjectNode
  dsimp only
  by_cases ht : s.types = []
  · simp [ht]
  · by_cases hv : ix.variableFor s.name = v
    · subst hv
      simp [ht, setTypes, Table.get?_insert_self]
    · simp [ht, hv, setTypes, Table.get?_insert_of_ne (Ne.symm hv)]

/-- A requested variable changes the classes of the node at which its route starts, and no
others. -/
theorem types_addVariable (d : Draft) :
    (d.addVariable ix names name).types = match source? ix name with
      | none => d.types
      | some t => (d.subjectNode ix (startSubject ix names t)).2.types := by
  unfold addVariable source?
  cases hp : ix.producer? name with
  | none =>
    dsimp only [Option.filter]
    split_ifs <;> rfl
  | some t =>
    by_cases hself : t.subject.name = name
    · simp [Option.filter, hself]
    · simp only [Option.filter, bne_iff_ne, ne_eq, hself, not_false_eq_true, if_true, beq_iff_eq,
        if_false]
      split_ifs with hb ht
      · have hs : startSubject ix names t = t.subject := by simp [startSubject, rendering, hb, ht]
        unfold addWholeRoute
        dsimp only
        rw [types_add, hs]
        unfold subjectNode
        dsimp only
        split_ifs <;> rfl
      · have hs : startSubject ix names t = t.subject := by simp [startSubject, rendering, hb, ht]
        unfold addExpanded
        dsimp only
        rw [types_add, types_followHops, hs]
      · have hs : startSubject ix names t = anchor ix names t := by
          simp [startSubject, rendering, hb]
        unfold addCompressed
        dsimp only
        rw [types_add, hs]

/-- The last subject that gives classes to a variable determines them. -/
theorem get?_traced (ix : Index) (names : List String) (v : String) :
    (traced ix names).types.get? v =
      (classGivers ix names names v).getLast?.map fun s => distinct s.types := by
  -- the variables seen so far vary, the request stays
  have hrun : ∀ seen : List String,
      (seen.foldl (fun d name => d.addVariable ix names name) empty).types.get? v =
        (classGivers ix names seen v).getLast?.map fun s => distinct s.types := by
    intro seen
    induction seen using List.reverseRecOn with
    | nil => rfl
    | append_singleton seen name ih =>
      rw [List.foldl_append, List.foldl_cons, List.foldl_nil, types_addVariable]
      cases hs : source? ix name with
      | none => simpa [classGivers, hs] using ih
      | some t =>
        dsimp only
        rw [get?_subjectNode_eq]
        split_ifs with hv
        · simp [classGivers, hs, hv]
        · rw [ih]
          simp only [classGivers, List.filterMap_append, List.map_append, List.filter_append]
          simp [hs, hv]
  exact hrun names

theorem typesOf_traced (ix : Index) (names : List String) (v : String) :
    (traced ix names).typesOf (.var v) =
      ((classGivers ix names names v).getLast?.map fun s => distinct s.types).getD [] := by
  rw [typesOf, get?_traced]

theorem typesOf_traced_ne_nil_iff :
    (traced ix names).typesOf (.var v) ≠ [] ↔ ∃ name ∈ names, ∃ t, source? ix name = some t ∧
      startName ix names t = v ∧ (startSubject ix names t).types ≠ [] := by
  rw [typesOf_traced]
  cases hl : (classGivers ix names names v).getLast? with
  | none =>
    have hnil : classGivers ix names names v = [] := List.getLast?_eq_none_iff.mp hl
    simp only [Option.map_none, Option.getD_none, ne_eq, not_true_eq_false, false_iff]
    rintro ⟨name, hname, t, ht, hs⟩
    have hmem := mem_classGivers.mpr ⟨⟨name, hname, t, ht, rfl⟩, hs⟩
    rw [hnil] at hmem
    simp at hmem
  | some s =>
    obtain ⟨⟨name, hname, t, ht, rfl⟩, hs⟩ := mem_classGivers.mp (List.mem_of_getLast? hl)
    have hne : distinct (startSubject ix names t).types ≠ [] := by simpa using hs.2
    simp only [Option.map_some, Option.getD_some, hne, ne_eq, not_false_eq_true, true_iff]
    exact ⟨name, hname, t, ht, hs⟩

theorem exists_edge_from_start (hn : name ∈ names) {t : SparqlModel.Triple}
    (hs : source? ix name = some t) :
    ∃ e ∈ plan ix names, e.subject = .var (startName ix names t) := by
  have hleaf := leafEdge_mem_plan hn hs
  unfold startName startSubject
  cases hr : rendering ix names t with
  | compressed => exact ⟨_, hleaf, by simp only [leafEdge, leafStep, hr]⟩
  | wholeRoute => exact ⟨_, hleaf, by simp only [leafEdge, leafStep, hr, rootSpot]⟩
  | expanded =>
    rcases exists_link_from (rootSpot ix t) [] [] (typedHops ix t) with ⟨e, he, hnode⟩ | hend
    · refine ⟨e, mem_plan_iff.mpr ⟨name, hn, t, hs, Or.inl ?_⟩, hnode⟩
      simpa [linkEdges, hr] using he
    · refine ⟨_, hleaf, ?_⟩
      simp only [leafEdge, leafStep, hr]
      exact hend

/-- A variable has classes in a draft only if an edge of the plan starts at it. -/
theorem typesOf_traced_eq_nil (h : ∀ e ∈ plan ix names, e.subject ≠ .var v) :
    (traced ix names).typesOf (.var v) = [] := by
  by_contra hne
  obtain ⟨name, hn, t, hs, rfl, -⟩ := typesOf_traced_ne_nil_iff.mp hne
  obtain ⟨e, he, hsubject⟩ := exists_edge_from_start hn hs
  exact h e he hsubject

/-- A type triple belongs to a node at which an edge starts, or to a requested variable that refers
to a subject with classes. -/
theorem typedNodes_cases {n : Node} (hn : n ∈ typedNodes ix names (traced ix names)) :
    (∃ e ∈ plan ix names, e.subject.number (traced ix names).blanks = n) ∨
      ∃ v ∈ names, n = .var v ∧ referencedTypes ix v ≠ [] := by
  rcases List.mem_append.mp hn with hn | hn
  · obtain ⟨u, hu, rfl⟩ := exists_of_mem_subjectsOf (List.mem_filter.mp hn).1
    obtain ⟨o, hu⟩ := mem_append_iff.mp hu
    obtain ⟨e, he, -, rfl⟩ := exists_edge_of_mem hu
    exact Or.inl ⟨e, he, rfl⟩
  · obtain ⟨v, hv, rfl⟩ := List.mem_map.mp hn
    obtain ⟨hother, htypes⟩ := List.mem_filter.mp hv
    exact Or.inr ⟨v, (List.mem_filter.mp hother).1, rfl, by simpa using htypes⟩

theorem exists_edge_or_typed {u : Triple} {o : Bool} (hu : u ∈ (ofVariables ix names).buffered o) :
    (∃ e ∈ plan ix names, e.triple (traced ix names).blanks = u) ∨
      ∃ n ∈ typedNodes ix names (traced ix names), typeTriple n = u := by
  cases o with
  | true =>
    rw [show (ofVariables ix names).buffered true = (traced ix names).buffered true from
      (addTypes_spec ix names (traced ix names)).2.1] at hu
    obtain ⟨e, he, -, rfl⟩ := exists_edge_of_mem hu
    exact Or.inl ⟨e, he, rfl⟩
  | false =>
    rw [show (ofVariables ix names).buffered false = _ from
      required_addTypes ix names (traced ix names), List.mem_append, List.mem_map] at hu
    rcases hu with hu | hu
    · exact Or.inr hu
    · obtain ⟨e, he, -, rfl⟩ := exists_edge_of_mem (o := false) hu
      exact Or.inl ⟨e, he, rfl⟩

/-- A triple of a pattern shows an edge, or it is the type triple of a node at which an edge starts
or of a requested variable that refers to a subject with classes. -/
theorem mem_ofVariables_cases {u : Triple} {o : Bool} (hu : u ∈ (ofVariables ix names).buffered o) :
    (∃ e ∈ plan ix names, e.triple (traced ix names).blanks = u) ∨
      ∃ n, typeTriple n = u ∧
        ((∃ e ∈ plan ix names, e.subject.number (traced ix names).blanks = n) ∨
          ∃ v ∈ names, n = .var v ∧ referencedTypes ix v ≠ []) :=
  (exists_edge_or_typed hu).imp_right fun ⟨n, hn, h⟩ => ⟨n, h, typedNodes_cases hn⟩

theorem exists_mem_traced {e : Edge} (he : e ∈ plan ix names) :
    ∃ u ∈ (traced ix names).buffered e.isOptional,
      u.key = (e.triple (traced ix names).blanks).key := by
  rw [(traced_shows ix names).buffered]
  apply exists_mem_buffer
  exact List.mem_map_of_mem (List.mem_filter.mpr ⟨he, by simp⟩)

theorem mem_subjects_traced_iff (hv : isBlankLabel v = false) :
    .var v ∈ (traced ix names).subjects ↔ ∃ n ∈ (traced ix names).subjects, n.name = v := by
  constructor
  · intro h
    exact ⟨.var v, h, rfl⟩
  · rintro ⟨n, hn, hname⟩
    obtain ⟨u, hu, rfl⟩ := exists_of_mem_subjectsOf hn
    obtain ⟨o, hu⟩ := mem_append_iff.mp hu
    obtain ⟨e, -, -, rfl⟩ := exists_edge_of_mem hu
    have hspot := eq_var_of_name_eq (s := e.subject) hv hname
    rwa [Edge.triple, hspot] at hn

theorem exists_subject_of_edge {e : Edge} (he : e ∈ plan ix names) (hsub : e.subject = .var v) :
    ∃ n ∈ (traced ix names).subjects, n.name = v := by
  obtain ⟨u, hu, hkey⟩ := exists_mem_traced he
  obtain ⟨n, hn, hname⟩ := exists_mem_subjectsOf (mem_append_iff.mpr ⟨_, hu⟩)
  refine ⟨n, hn, hname.trans ((congrArg Prod.fst hkey).trans ?_)⟩
  rw [Edge.triple, hsub]
  rfl

/-- A requested variable that has not the name of a subject of the draft has the classes of the
subjects to which it refers. -/
theorem typesOf_of_no_subject (hn : v ∈ names)
    (hs : ∀ n ∈ (traced ix names).subjects, n.name ≠ v) :
    v ∈ otherNames names (traced ix names) ∧
      (ofVariables ix names).typesOf (.var v) = distinct (referencedTypes ix v) := by
  have hother : v ∈ otherNames names (traced ix names) := by
    simpa [otherNames, hn] using hs
  refine ⟨hother, ?_⟩
  rw [ofVariables_eq, typesOf_addTypes]
  split_ifs with hclassed
  · rfl
  · have hnil : referencedTypes ix v = [] := by
      by_contra hne
      exact hclassed (List.mem_filter.mpr ⟨hother, by simpa using hne⟩)
    rw [hnil, typesOf_traced_eq_nil]
    · rfl
    intro e he hsub
    obtain ⟨n, hn, hname⟩ := exists_subject_of_edge he hsub
    exact hs n hn hname

theorem typesOf_of_not_subject (hv : isBlankLabel v = false) (hn : v ∈ names)
    (hs : .var v ∉ (traced ix names).subjects) :
    v ∈ otherNames names (traced ix names) ∧
      (ofVariables ix names).typesOf (.var v) = distinct (referencedTypes ix v) := by
  refine typesOf_of_no_subject hn fun n hmem hname => hs ?_
  exact (mem_subjects_traced_iff hv).mpr ⟨n, hmem, hname⟩

theorem mem_typedNodes_iff (hv : isBlankLabel v = false) (hn : v ∈ names) :
    .var v ∈ typedNodes ix names (traced ix names) ↔
      (ofVariables ix names).typesOf (.var v) ≠ [] := by
  by_cases hs : .var v ∈ (traced ix names).subjects
  · have hother : v ∉ otherNames names (traced ix names) := by
      have hex := (mem_subjects_traced_iff hv).mp hs
      simpa [otherNames, hn] using hex
    have hclassed : v ∉ classedNames ix (otherNames names (traced ix names)) :=
      fun h => hother (List.mem_filter.mp h).1
    rw [ofVariables_eq, typesOf_addTypes, if_neg hclassed]
    simp [typedNodes, hclassed, hs]
  · obtain ⟨hother, htypes⟩ := typesOf_of_not_subject hv hn hs
    rw [htypes]
    simp [typedNodes, hs, classedNames, hother]

end Draft

end SparqlModel.Pattern
