import SparqlModel.Proofs.Plan

/-!
# Drafting a plan

A draft shows the edges of a plan with its blank nodes numbered in the order of their first use and
with one triple for each key. The main statement is `traced_shows`: before the type triples are put
in front, the draft of a request shows its plan.
-/

namespace SparqlModel.Pattern

namespace Draft

/-- The buffer that results from pushing triples one after the other. -/
def buffer (ts : List Triple) : List Triple :=
  ts.foldl (fun b t => push t b) []

theorem buffer_append_singleton (ts : List Triple) (t : Triple) :
    buffer (ts ++ [t]) = push t (buffer ts) := by
  simp [buffer, List.foldl_append]

theorem push_eq (t : Triple) (b : List Triple) :
    push t b = if t.key ∈ b.map (·.key) then b else b ++ [t] := by
  simp [push, List.any_eq_true]

theorem nodup_keys_buffer (ts : List Triple) : ((buffer ts).map (·.key)).Nodup := by
  induction ts using List.reverseRecOn with
  | nil => simp [buffer]
  | append_singleton ts t ih =>
    rw [buffer_append_singleton, push_eq]
    split_ifs with h
    · exact ih
    · rw [List.map_append, List.map_singleton, ← List.concat_eq_append, List.nodup_concat]
      exact ⟨h, ih⟩

theorem mem_of_mem_buffer {ts : List Triple} {u : Triple} (h : u ∈ buffer ts) : u ∈ ts := by
  induction ts using List.reverseRecOn with
  | nil => simp [buffer] at h
  | append_singleton ts t ih =>
    rw [buffer_append_singleton, push_eq] at h
    split_ifs at h with hk
    · exact List.mem_append_left _ (ih h)
    · rw [List.mem_append] at h ⊢
      exact h.imp_left ih

theorem exists_mem_buffer {ts : List Triple} {t : Triple} (h : t ∈ ts) :
    ∃ u ∈ buffer ts, u.key = t.key := by
  induction ts using List.reverseRecOn with
  | nil => simp at h
  | append_singleton ts t' ih =>
    rw [buffer_append_singleton, push_eq]
    rcases List.mem_append.mp h with h | h
    · obtain ⟨u, hu, hk⟩ := ih h
      refine ⟨u, ?_, hk⟩
      split_ifs
      · exact hu
      · exact List.mem_append_left _ hu
    · rw [List.mem_singleton] at h
      subst h
      split_ifs with hk
      · exact List.mem_map.mp hk
      · exact ⟨t, by simp, rfl⟩

def buffered (d : Draft) (isOptional : Bool) : List Triple :=
  if isOptional then d.optional else d.required

@[simp] theorem blanks_add (d : Draft) (t : Triple) (isOptional : Bool) :
    (d.add t isOptional).blanks = d.blanks := by
  cases isOptional <;> rfl

theorem mem_append_iff {d : Draft} {u : Triple} :
    u ∈ d.required ++ d.optional ↔ ∃ o, u ∈ d.buffered o := by
  rw [List.mem_append, Bool.exists_bool]
  rfl

theorem buffered_add (d : Draft) (t : Triple) (o o' : Bool) :
    (d.add t o).buffered o' = if o = o' then push t (d.buffered o') else d.buffered o' := by
  cases o <;> cases o' <;> rfl

/-- The draft of a request before the type triples are put in front. -/
def traced (ix : Index) (names : List String) : Draft :=
  names.foldl (fun d name => d.addVariable ix names name) empty

theorem ofVariables_eq (ix : Index) (names : List String) :
    ofVariables ix names = (traced ix names).addTypes ix names := rfl

/-- The blank nodes of edges, in the order of their first use. -/
def edgeKeys (es : List Edge) : List BlankKey :=
  distinct (es.flatMap fun e => e.object.keys)

/-- A draft shows edges if its blank nodes and its buffers are theirs. A link always comes before
the edges that leave its blank node. -/
structure Shows (d : Draft) (es : List Edge) : Prop where
  blanks : d.blanks = edgeKeys es
  buffered : ∀ o, d.buffered o =
    buffer ((es.filter fun e => e.isOptional == o).map (·.triple d.blanks))
  entered : ∀ e ∈ es, ∀ key ∈ e.subject.keys, key ∈ d.blanks

theorem empty_shows : Shows empty [] :=
  ⟨rfl, fun o => by cases o <;> rfl, by simp⟩

/-- Further keys do not change the numbers of the keys that are there. -/
theorem number_append {keys : List BlankKey} (more : List BlankKey) {s : Spot}
    (h : ∀ key ∈ s.keys, key ∈ keys) : s.number (keys ++ more) = s.number keys := by
  cases s with
  | var n => rfl
  | blank key =>
    have hk : key ∈ keys := h key (by simp [Spot.keys])
    simp [Spot.number, List.idxOf_append_of_mem hk]

namespace Shows

variable {d d' : Draft} {es : List Edge}

theorem object_mem (h : Shows d es) {e : Edge} (he : e ∈ es) :
    ∀ key ∈ e.object.keys, key ∈ d.blanks := by
  intro key hk
  rw [h.blanks, edgeKeys, mem_distinct]
  exact List.mem_flatMap.mpr ⟨e, he, hk⟩

theorem frame (h : Shows d es) (hb : d'.blanks = d.blanks) (hd : d'.buffered = d.buffered) :
    Shows d' es :=
  ⟨hb.trans h.blanks, fun o => by rw [hd, hb, h.buffered],
    fun e he key hk => hb ▸ h.entered e he key hk⟩

theorem map_triple (h : Shows d es) {more : List BlankKey} (hb : d'.blanks = d.blanks ++ more)
    (p : Edge → Bool) :
    (es.filter p).map (·.triple d'.blanks) = (es.filter p).map (·.triple d.blanks) := by
  apply List.map_congr_left
  intro e he
  have hm : e ∈ es := (List.mem_filter.mp he).1
  simp only [Edge.triple, hb, number_append more (h.entered e hm),
    number_append more (h.object_mem hm)]

/-- One more edge, after its blank nodes have been numbered. -/
theorem add (h : Shows d es) {e : Edge} {more : List BlankKey}
    (hb : d'.blanks = d.blanks ++ more) (hk : d'.blanks = edgeKeys (es ++ [e]))
    (hd : d'.buffered = d.buffered) (hs : ∀ key ∈ e.subject.keys, key ∈ d.blanks) :
    Shows (d'.add (e.triple d'.blanks) e.isOptional) (es ++ [e]) := by
  have hent : ∀ e' ∈ es ++ [e], ∀ key ∈ e'.subject.keys, key ∈ d'.blanks := by
    intro e' he' key hkey
    rw [hb]
    apply List.mem_append_left
    rcases List.mem_append.mp he' with he' | he'
    · exact h.entered e' he' key hkey
    · rw [List.mem_singleton] at he'
      exact hs key (he' ▸ hkey)
  refine ⟨by rw [blanks_add, hk], fun o => ?_, by simpa only [blanks_add] using hent⟩
  rw [buffered_add, blanks_add, List.filter_append, List.map_append, h.map_triple hb, hd,
    h.buffered]
  by_cases ho : e.isOptional = o
  · simp [ho, buffer_append_singleton]
  · simp [ho]

end Shows

theorem edgeKeys_append_singleton (es : List Edge) (e : Edge) :
    edgeKeys (es ++ [e]) = match e.object with
      | .var _ => edgeKeys es
      | .blank key => if key ∈ edgeKeys es then edgeKeys es else edgeKeys es ++ [key] := by
  cases ho : e.object with
  | var n => simp [edgeKeys, ho, Spot.keys]
  | blank key => simp [edgeKeys, ho, Spot.keys, distinct_append_singleton]

theorem blankNode_eq (key : BlankKey) (d : Draft) :
    d.blankNode key = ((Spot.blank key).number (d.blankNode key).2.blanks,
      { d with blanks := if key ∈ d.blanks then d.blanks else d.blanks ++ [key] }) := by
  unfold blankNode blankPlace?
  by_cases hk : key ∈ d.blanks
  · have hi : d.blanks.findIdx? (· == key) = some (d.blanks.idxOf key) := by
      rw [List.findIdx?_eq_some_iff_findIdx_eq]
      exact ⟨List.idxOf_lt_length_of_mem hk, rfl⟩
    simp [hi, hk, Spot.number]
  · have hi : d.blanks.findIdx? (· == key) = none := by
      rw [List.findIdx?_eq_none_iff]
      intro x hx
      have hne : x ≠ key := fun he => hk (he ▸ hx)
      simpa using hne
    simp [hi, hk, Spot.number, List.idxOf_append_of_notMem hk]

theorem blanks_blankNode (key : BlankKey) (d : Draft) :
    (d.blankNode key).2.blanks = if key ∈ d.blanks then d.blanks else d.blanks ++ [key] := by
  rw [blankNode_eq]

namespace Shows

variable {d : Draft} {es : List Edge}

/-- A link to a blank node, which is numbered first if it is new. -/
theorem enter (h : Shows d es) {node : Spot} (hs : ∀ key ∈ node.keys, key ∈ d.blanks)
    (path : String) (key : BlankKey) :
    Shows ((d.blankNode key).2.add ⟨node.number d.blanks, path, (d.blankNode key).1⟩ false)
      (es ++ [⟨node, path, .blank key, false⟩]) := by
  obtain ⟨more, hmore⟩ : ∃ more, (d.blankNode key).2.blanks = d.blanks ++ more := by
    rw [blanks_blankNode]
    split_ifs
    · exact ⟨[], by simp⟩
    · exact ⟨[key], rfl⟩
  have hk : (d.blankNode key).2.blanks = edgeKeys (es ++ [⟨node, path, .blank key, false⟩]) := by
    rw [blanks_blankNode, edgeKeys_append_singleton, h.blanks]
  have ht : (⟨node.number d.blanks, path, (d.blankNode key).1⟩ : Triple) =
      (⟨node, path, .blank key, false⟩ : Edge).triple (d.blankNode key).2.blanks := by
    have hn : (d.blankNode key).1 = (Spot.blank key).number (d.blankNode key).2.blanks :=
      congrArg Prod.fst (blankNode_eq key d)
    rw [Edge.triple, hn, hmore, number_append more hs]
  rw [ht]
  exact h.add hmore hk (by rw [blankNode_eq]; rfl) hs

theorem reach (h : Shows d es) {node : Spot} (hs : ∀ key ∈ node.keys, key ∈ d.blanks)
    (path name : String) (isOptional : Bool) :
    Shows (d.add ⟨node.number d.blanks, path, .var name⟩ isOptional)
      (es ++ [⟨node, path, .var name, isOptional⟩]) := by
  have hk : d.blanks = edgeKeys (es ++ [⟨node, path, .var name, isOptional⟩]) := by
    rw [edgeKeys_append_singleton, h.blanks]
  exact h.add (List.append_nil _).symm hk rfl hs

/-- Following the hops of a route adds its links. -/
theorem follow (h : Shows d es) {node : Spot} (hs : ∀ key ∈ node.keys, key ∈ d.blanks)
    (route pending : List String) (hops : List (Step × Option (List String))) :
    ∃ d', followHops (node.number d.blanks) route pending hops d =
        ((linksEnd node route pending hops).1.number d'.blanks,
          (linksEnd node route pending hops).2, d') ∧
      Shows d' (es ++ links node route pending hops) ∧
      ∀ key ∈ (linksEnd node route pending hops).1.keys, key ∈ d'.blanks := by
  induction hops generalizing d es node route pending with
  | nil => exact ⟨d, rfl, by simpa [links] using h, hs⟩
  | cons hop rest ih =>
    obtain ⟨step, types⟩ := hop
    cases types with
    | none => exact ih h hs (route ++ [step.predicate.uri]) (pending ++ [step.predicate.uri])
    | some types =>
      let key : BlankKey := ⟨route ++ [step.predicate.uri], distinct types⟩
      let path := pathSeparator.intercalate (pending ++ [step.predicate.uri])
      have hadd := h.enter hs path key
      have hkey : ∀ k ∈ (Spot.blank key).keys, k ∈ ((d.blankNode key).2.add
          ⟨node.number d.blanks, path, (d.blankNode key).1⟩ false).blanks := by
        intro k hk
        exact hadd.object_mem (List.mem_append_right _ (List.mem_singleton.mpr rfl)) k hk
      have hnode : (d.blankNode key).1 = (Spot.blank key).number ((d.blankNode key).2.add
          ⟨node.number d.blanks, path, (d.blankNode key).1⟩ false).blanks := by
        rw [blanks_add]
        exact congrArg Prod.fst (blankNode_eq key d)
      obtain ⟨d', heq, hshow, hend⟩ := ih hadd hkey (route ++ [step.predicate.uri]) []
      refine ⟨d', ?_, ?_, hend⟩
      · rw [← hnode] at heq
        exact heq
      · simpa [links, List.append_assoc] using hshow

theorem subjectNode (h : Shows d es) (ix : Index) (s : Subject) :
    Shows (d.subjectNode ix s).2 es := by
  unfold Draft.subjectNode
  dsimp only
  split_ifs
  · exact h
  · exact h.frame rfl rfl

theorem addCompressed (h : Shows d es) (ix : Index) (names : List String) (name : String)
    (t : SparqlModel.Triple) (hr : rendering ix names t = .compressed) :
    Shows (d.addCompressed ix names name t)
      (es ++ (linkEdges ix names t ++ [leafEdge ix names name t])) := by
  let path := ix.propertyPath t.object.name (some (anchor ix names t).name)
  have he : linkEdges ix names t ++ [leafEdge ix names name t] =
      [⟨.var (ix.variableFor (anchor ix names t).name), pathSeparator.intercalate path,
        .var name, t.predicate.isOptional⟩] := by
    simp [linkEdges, leafEdge, leafStep, hr, path]
  rw [he]
  exact (h.subjectNode ix (anchor ix names t)).reach (Spot.mem_of_mem_keys_var _) _ name _

theorem addWholeRoute (h : Shows d es) (ix : Index) (names : List String) (name : String)
    (t : SparqlModel.Triple) (hr : rendering ix names t = .wholeRoute) :
    Shows (d.addWholeRoute ix name t)
      (es ++ (linkEdges ix names t ++ [leafEdge ix names name t])) := by
  have h' : Shows (d.report (.untypedPath name)) es := h.frame rfl rfl
  have he : linkEdges ix names t ++ [leafEdge ix names name t] =
      [⟨rootSpot ix t, t.path pathSeparator, .var name, t.predicate.isOptional⟩] := by
    simp [linkEdges, leafEdge, leafStep, hr]
  rw [he]
  exact (h'.subjectNode ix t.subject).reach (Spot.mem_of_mem_keys_var _) _ name _

theorem addExpanded (h : Shows d es) (ix : Index) (names : List String) (name : String)
    (t : SparqlModel.Triple) (hr : rendering ix names t = .expanded) :
    Shows (d.addExpanded ix name t (ix.blankTypes t))
      (es ++ (linkEdges ix names t ++ [leafEdge ix names name t])) := by
  rcases hsub : d.subjectNode ix t.subject with ⟨node, start⟩
  have hnode : node = (rootSpot ix t).number start.blanks := (congrArg Prod.fst hsub).symm
  have hstart : Shows start es := by simpa [hsub] using h.subjectNode ix t.subject
  have hroot : ∀ key ∈ (rootSpot ix t).keys, key ∈ start.blanks := Spot.mem_of_mem_keys_var _
  obtain ⟨d', heq, hshow, hend⟩ := hstart.follow hroot [] [] (typedHops ix t)
  rw [← hnode] at heq
  have hd := hshow.reach hend
    (pathSeparator.intercalate ((linksEnd (rootSpot ix t) [] [] (typedHops ix t)).2
      ++ [t.predicate.uri])) name t.predicate.isOptional
  simp only [typedHops] at heq
  simp only [Draft.addExpanded, hsub, heq]
  simpa [linkEdges, leafEdge, leafStep, hr, typedHops] using hd

/-- One requested variable adds exactly the edges that it asks for. -/
theorem addVariable (h : Shows d es) (ix : Index) (names : List String) (name : String) :
    Shows (d.addVariable ix names name) (es ++ edges ix names name) := by
  unfold Draft.addVariable edges source?
  cases hp : ix.producer? name with
  | none =>
    dsimp only [Option.filter]
    split_ifs
    · simpa using h
    · have h' : Shows (d.report (.unknownVariable name)) es := h.frame rfl rfl
      simpa using h'
  | some t =>
    by_cases hself : t.subject.name = name
    · simpa [Option.filter, hself] using h
    · simp only [Option.filter, bne_iff_ne, ne_eq, hself, not_false_eq_true, if_true,
        beq_iff_eq, if_false]
      split_ifs with hb ht
      · exact h.addWholeRoute ix names name t (by simp [rendering, hb, ht])
      · exact h.addExpanded ix names name t (by simp [rendering, hb, ht])
      · exact h.addCompressed ix names name t (by simp [rendering, hb])

end Shows

/-- The draft of a request shows its plan. -/
theorem traced_shows (ix : Index) (names : List String) :
    Shows (traced ix names) (plan ix names) := by
  -- the variables seen so far vary, the request stays
  have hrun : ∀ seen : List String,
      Shows (seen.foldl (fun d name => d.addVariable ix names name) empty)
        (seen.flatMap (edges ix names)) := by
    intro seen
    induction seen using List.reverseRecOn with
    | nil => exact empty_shows
    | append_singleton seen name ih =>
      rw [List.foldl_append, List.flatMap_append]
      simpa using ih.addVariable ix names name
  exact hrun names

variable {ix : Index} {names : List String} {u : Triple}

theorem exists_edge_of_mem {o : Bool} (hu : u ∈ (traced ix names).buffered o) :
    ∃ e ∈ plan ix names, e.isOptional = o ∧ e.triple (traced ix names).blanks = u := by
  rw [(traced_shows ix names).buffered] at hu
  obtain ⟨e, he, rfl⟩ := List.mem_map.mp (mem_of_mem_buffer hu)
  rw [List.mem_filter, beq_iff_eq] at he
  exact ⟨e, he.1, he.2, rfl⟩

theorem nodup_keys_traced (ix : Index) (names : List String) (o : Bool) :
    (((traced ix names).buffered o).map (·.key)).Nodup := by
  rw [(traced_shows ix names).buffered]
  exact nodup_keys_buffer _

theorem typeVariables_spec (ix : Index) (names : List String) (triples : List Triple) (d : Draft)
    (htypes : ∀ u ∈ triples, u.predicate = "a" ∧ u.object = u.subject) :
    (∀ u ∈ (typeVariables ix names triples d).1, u.predicate = "a" ∧ u.object = u.subject) ∧
      (typeVariables ix names triples d).2.buffered = d.buffered ∧
      (typeVariables ix names triples d).2.blanks = d.blanks := by
  induction names generalizing triples d with
  | nil => exact ⟨htypes, rfl, rfl⟩
  | cons name rest ih =>
    unfold typeVariables
    dsimp only
    split_ifs
    · exact ih triples d htypes
    · apply ih
      intro u hu
      rcases List.mem_append.mp hu with hu | hu
      · exact htypes u hu
      · rw [List.mem_singleton.mp hu]
        exact ⟨rfl, rfl⟩

/-- The type triples are put in front of the required triples, and all else stays. -/
theorem addTypes_spec (ix : Index) (names : List String) (d : Draft) :
    (∃ types, (d.addTypes ix names).required = types ++ d.required ∧
      ∀ u ∈ types, u.predicate = "a" ∧ u.object = u.subject) ∧
    (d.addTypes ix names).optional = d.optional ∧ (d.addTypes ix names).blanks = d.blanks := by
  let own := (d.subjects.filter fun n => !(d.typesOf n).isEmpty).map fun n => (⟨n, "a", n⟩ : Triple)
  let others := names.filter fun v => !d.subjects.any fun n => n.name == v
  have hown : ∀ u ∈ own, u.predicate = "a" ∧ u.object = u.subject := by
    intro u hu
    obtain ⟨n, -, rfl⟩ := List.mem_map.mp hu
    exact ⟨rfl, rfl⟩
  obtain ⟨htypes, hbuffered, hblanks⟩ := typeVariables_spec ix others own d hown
  refine ⟨⟨(typeVariables ix others own d).1, ?_, htypes⟩, ?_, hblanks⟩
  · exact congrArg ((typeVariables ix others own d).1 ++ ·) (congrFun hbuffered false)
  · exact congrFun hbuffered true

theorem blanks_ofVariables (ix : Index) (names : List String) :
    (ofVariables ix names).blanks = (traced ix names).blanks :=
  (addTypes_spec ix names (traced ix names)).2.2

/-- The buffers of a pattern: type triples stand in front of the required triples. -/
theorem buffered_ofVariables (ix : Index) (names : List String) :
    ∃ types : List Triple, (∀ u ∈ types, u.predicate = "a" ∧ u.object = u.subject) ∧
      ∀ o, (ofVariables ix names).buffered o =
        (if o then [] else types) ++ (traced ix names).buffered o := by
  obtain ⟨⟨types, hrequired, htypes⟩, hoptional, -⟩ := addTypes_spec ix names (traced ix names)
  refine ⟨types, htypes, fun o => ?_⟩
  cases o with
  | false => exact hrequired
  | true => exact hoptional

theorem mem_ofVariables {o : Bool} (hu : u ∈ (traced ix names).buffered o) :
    u ∈ (ofVariables ix names).buffered o := by
  obtain ⟨types, -, hbuffered⟩ := buffered_ofVariables ix names
  rw [hbuffered]
  exact List.mem_append_right _ hu

/-- A triple that is no type triple shows an edge of the plan. -/
theorem exists_edge_of_not_isType {o : Bool} (hu : u ∈ (ofVariables ix names).buffered o)
    (ht : u.isType = false) :
    ∃ e ∈ plan ix names, e.isOptional = o ∧ e.triple (traced ix names).blanks = u := by
  obtain ⟨types, htypes, hbuffered⟩ := buffered_ofVariables ix names
  rw [hbuffered, List.mem_append] at hu
  rcases hu with hu | hu
  · split_ifs at hu
    · simp at hu
    · simp [Triple.isType, (htypes u hu).1] at ht
  · exact exists_edge_of_mem hu

end Draft

end SparqlModel.Pattern
