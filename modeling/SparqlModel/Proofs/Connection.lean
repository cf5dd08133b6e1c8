import SparqlModel.Proofs.Expansion
import SparqlModel.Proofs.Ownership
import SparqlModel.Proofs.Tree
import SparqlModel.Proofs.TypeTriples

/-!
# Connected patterns

Every requested variable hangs on a route that starts at some variable. Over a tree of subjects the
routes lead upwards, from variable to variable, until one starts at a variable that is not
requested. The pattern is connected if all routes that end this way start at the same variable. If
no blank node joins the routes of different owners, then it is connected only in this case.
-/

namespace SparqlModel.Pattern

open Index Relation

/-- Two nodes are linked if triples lead from one to the other, in either direction. Type triples do
not count. -/
def Linked (ts : List Triple) : Node → Node → Prop :=
  EqvGen fun n n' => ∃ u ∈ ts, u.isType = false ∧ u.subject = n ∧ u.object = n'

/-- A node of a pattern is a requested variable, or it stands in a triple. -/
def IsNode (names : List String) (ts : List Triple) (n : Node) : Prop :=
  (∃ v ∈ names, n = .var v) ∨ ∃ u ∈ ts, u.subject = n ∨ u.object = n

/-- Any two nodes of a pattern are linked. -/
def Connected (names : List String) (ts : List Triple) : Prop :=
  ∀ n n', IsNode names ts n → IsNode names ts n' → Linked ts n n'

/-- All routes start at requested variables or at one and the same other variable. -/
def OneStart (ix : Index) (names : List String) : Prop :=
  ∃ x, ∀ v ∈ names, ∀ t, source? ix v = some t →
    startName ix names t ∈ names ∨ startName ix names t = x

/-- A route that is not compressed starts at its own subject. This subject is the root, or its
variable is requested. -/
def RoutesAttached (ix : Index) (names : List String) (root : Subject) : Prop :=
  ∀ v ∈ names, ∀ t, source? ix v = some t → rendering ix names t ≠ .compressed →
    t.subject.name = root.name ∨ ix.variableFor t.subject.name ∈ names

theorem Linked.trans {ts : List Triple} {n n' n'' : Node} (h : Linked ts n n')
    (h' : Linked ts n' n'') : Linked ts n n'' :=
  EqvGen.trans _ _ _ h h'

theorem Linked.iff_of_forall {ts : List Triple} {P : Node → Prop}
    (h : ∀ u ∈ ts, u.isType = false → (P u.subject ↔ P u.object)) {n n' : Node}
    (hlinked : Linked ts n n') : P n ↔ P n' := by
  induction hlinked with
  | rel n n' hstep =>
    obtain ⟨u, hu, ht, rfl, rfl⟩ := hstep
    exact h u hu ht
  | refl n => exact Iff.rfl
  | symm n n' _ ih => exact ih.symm
  | trans n n' n'' _ _ ih ih' => exact ih.trans ih'

variable {ix : Index} {names : List String} {v : String} {t : SparqlModel.Triple} {P : Spot → Prop}

/-- What passes along every link of a route holds at all its nodes if it holds at the first one. -/
theorem forall_links {node : Spot} {route pending : List String}
    {hops : List (Step × Option (List String))}
    (hstep : ∀ e ∈ links node route pending hops, P e.subject → P e.object) (hnode : P node) :
    (∀ e ∈ links node route pending hops, P e.subject) ∧
      P (linksEnd node route pending hops).1 := by
  induction hops generalizing node route pending with
  | nil => exact ⟨by simp [links], hnode⟩
  | cons hop rest ih =>
    obtain ⟨step, types⟩ := hop
    cases types with
    | none => exact ih hstep hnode
    | some types =>
      obtain ⟨hfirst, hrest⟩ := List.forall_mem_cons.mp hstep
      obtain ⟨hnodes, hend⟩ := ih hrest (hfirst hnode)
      exact ⟨List.forall_mem_cons.mpr ⟨hnode, hnodes⟩, hend⟩

/-- What passes along every edge of a plan holds where the edges for a variable leave if it holds
where its route starts. -/
theorem forall_edges (hstep : ∀ e ∈ plan ix names, P e.subject → P e.object) (hv : v ∈ names)
    (hs : source? ix v = some t) (hstart : P (.var (startName ix names t))) :
    (∀ e ∈ linkEdges ix names t, P e.subject) ∧ P (leafEdge ix names v t).subject := by
  cases hr : rendering ix names t with
  | compressed => simpa [linkEdges, leafEdge, leafStep, startName, startSubject, hr] using hstart
  | wholeRoute => simpa [linkEdges, leafEdge, leafStep, startName, startSubject, rootSpot, hr] using hstart
  | expanded =>
    have hlinks : linkEdges ix names t = links (rootSpot ix t) [] [] (typedHops ix t) := by
      simp only [linkEdges, hr]
    simp only [startName, startSubject, hr] at hstart
    simp only [leafEdge, leafStep, hr]
    rw [hlinks]
    apply forall_links _ hstart
    intro e he
    exact hstep e (mem_plan_iff.mpr ⟨v, hv, t, hs, Or.inl (hlinks ▸ he)⟩)

theorem mem_names_of_object {e : Edge} (he : e ∈ plan ix names) (ho : e.object = .var v) :
    v ∈ names ∧ ∃ t, source? ix v = some t := by
  obtain ⟨v', hv, t, hs, he⟩ := mem_plan_iff.mp he
  rcases he with he | rfl
  · obtain ⟨⟨key, hkey⟩, -⟩ := links_object (mem_linkEdges he).2
    rw [ho] at hkey
    cases hkey
  · obtain rfl : v' = v := Spot.var.inj ho
    exact ⟨hv, t, hs⟩

theorem exists_leafStep_eq (names : List String) (hp : ix.producer? t.object.name = some t) :
    ∃ before, (leafStep ix names t).2 =
      pathSeparator.intercalate (before ++ [t.predicate.uri]) := by
  cases hr : rendering ix names t with
  | compressed =>
    have hlast : (ix.pathTriples t.object.name (Draft.anchor ix names t).name).getLast? =
        some t := by
      rw [pathTriples, List.getLast?_reverse, head?_stopAt, head?_trail, hp]
    obtain ⟨us, hus⟩ := List.getLast?_eq_some_iff.mp hlast
    refine ⟨us.flatMap (·.uris) ++ t.hops.map (·.predicate.uri), ?_⟩
    simp only [leafStep, hr]
    rw [propertyPath_eq, hus, List.flatMap_append, List.flatMap_singleton, uris_eq,
      List.append_assoc]
  | wholeRoute =>
    simp only [leafStep, hr]
    exact ⟨t.hops.map (·.predicate.uri), by rw [SparqlModel.Triple.path, uris_eq]⟩
  | expanded =>
    simp only [leafStep, hr]
    exact ⟨_, rfl⟩

/-- Every requested variable is the name of an object that is no class. -/
def Drawn (ix : Index) (names : List String) : Prop :=
  ∀ v ∈ names, ∃ t ∈ ix.triples, t.predicate.isType = false ∧ t.object.name = v

theorem drawn_request {m : Model} {root : Subject} (h : m.index.IsTree root)
    (hc : m.index.HasPlainClasses) {request : List String}
    (hrequest : ∀ name ∈ request, ∃ t, m.index.producer? name = some t ∧
      t.predicate.isType = false) :
    Drawn m.index (distinct (request.map m.index.variableFor)) := by
  intro v hv
  rw [mem_distinct, List.mem_map] at hv
  obtain ⟨name, hname, rfl⟩ := hv
  obtain ⟨t, hp, htype⟩ := hrequest name hname
  by_cases hs : m.index.isSubject name
  · obtain ⟨s, hmem, rfl⟩ := isSubject_iff.mp hs
    have hne : s.name ≠ root.name := by
      intro he
      rw [he, h.producer?_root] at hp
      cases hp
    obtain ⟨u, hu, hutype, -, hvariable, -⟩ := h.exists_above hc hmem hne
    exact ⟨u, hu, hutype, hvariable.symm⟩
  · refine ⟨t, producer?_mem hp, htype, ?_⟩
    rw [variableFor, if_neg hs, producer?_name hp hs]

theorem up_startName {m : Model} {root : Subject} (h : m.index.IsTree root) (names : List String)
    {t : SparqlModel.Triple} (ht : t ∈ m.index.triples) (htype : t.predicate.isType = false) :
    TransGen m.index.Up t.object.name (startName m.index names t) := by
  unfold startName startSubject
  split
  · exact up_anchor h names ht htype
  · exact up_trans_variableFor (.single (h.parent?_object ht htype))

/-- The routes that lead to a spot come from a variable that is not requested. -/
inductive Stem (ix : Index) (names : List String) : Spot → String → Prop
  | top {x : String} (h : x ∉ names) : Stem ix names (.var x) x
  | along {e : Edge} {x : String} (he : e ∈ plan ix names) (h : Stem ix names e.subject x) :
    Stem ix names e.object x

section

variable {m : Model} {root : Subject} (h : m.index.IsTree root) (hdrawn : Drawn m.index names)
include h hdrawn

theorem exists_source {v : String} (hv : v ∈ names) : ∃ t ∈ m.index.triples,
    t.predicate.isType = false ∧ t.object.name = v ∧ source? m.index v = some t := by
  obtain ⟨t, ht, htype, rfl⟩ := hdrawn v hv
  refine ⟨t, ht, htype, rfl, source?_eq_some_iff.mpr ⟨h.producer?_object ht htype, ?_⟩⟩
  intro he
  exact (h.apart t ht htype).1 (he ▸ isSubject_subject ht)

theorem of_source? {v : String} {t : SparqlModel.Triple} (hv : v ∈ names)
    (hs : source? m.index v = some t) :
    t ∈ m.index.triples ∧ t.predicate.isType = false ∧ t.object.name = v := by
  obtain ⟨t', ht, htype, hname, hs'⟩ := exists_source h hdrawn hv
  obtain rfl : t' = t := Option.some.inj (hs'.symm.trans hs)
  exact ⟨ht, htype, hname⟩

variable (hc : m.index.HasPlainClasses)
include hc

/-- The anchors of compressed routes are requested, or they are the root. -/
theorem RoutesAttached.oneStart (hattached : RoutesAttached m.index names root) :
    OneStart m.index names := by
  refine ⟨root.name, fun v hv t hs => ?_⟩
  obtain ⟨ht, htype, -⟩ := of_source? h hdrawn hv hs
  have hroot : ∀ s : Subject, s.name = root.name → m.index.variableFor s.name = root.name := by
    intro s he
    rw [he, h.variableFor_root]
  by_cases hr : rendering m.index names t = .compressed
  · simp only [startName, startSubject, hr]
    exact (anchor_requested h hc names ht htype).imp_right (hroot _)
  · have hstart : startName m.index names t = m.index.variableFor t.subject.name := by
      unfold startName startSubject
      split
      · exact absurd ‹_› hr
      · rfl
    rw [hstart]
    exact (hattached v hv t hs hr).symm.imp_right (hroot _)

theorem isTypeUri_edge {e : Edge} (he : e ∈ plan m.index names) :
    isTypeUri e.predicate = false := by
  obtain ⟨v, hv, t, hs, he⟩ := mem_plan_iff.mp he
  obtain ⟨ht, htype, -⟩ := of_source? h hdrawn hv hs
  rcases he with he | rfl
  · exact isTypeUri_links (fun hop hm => hc.hops t ht hop.1 (List.of_mem_zip hm).1)
      (mem_linkEdges he).2
  · obtain ⟨before, hpath⟩ := exists_leafStep_eq names (h.producer?_object ht htype)
    rw [leafEdge, hpath]
    exact isTypeUri_intercalate htype before

section

variable (hm : m.index.HasPlainNames) {ts : List Triple}
  (hts : ts = (Draft.ofVariables m.index names).required ++
    (Draft.ofVariables m.index names).optional)
include hm hts

theorem linked_edge {e : Edge} (he : e ∈ plan m.index names) :
    Linked ts (e.subject.number (Draft.traced m.index names).blanks)
      (e.object.number (Draft.traced m.index names).blanks) := by
  refine .rel _ _ ⟨e.triple _, ?_, isTypeUri_edge h hdrawn hc he, rfl, rfl⟩
  rw [hts]
  exact Draft.mem_append_iff.mpr ⟨_, triple_mem_ofVariables hm he⟩

theorem linked_edges {v : String} {t : SparqlModel.Triple} (hv : v ∈ names)
    (hs : source? m.index v = some t) {e : Edge}
    (he : e ∈ linkEdges m.index names t ∨ e = leafEdge m.index names v t) :
    Linked ts (.var (startName m.index names t))
      (e.subject.number (Draft.traced m.index names).blanks) := by
  let keys := (Draft.traced m.index names).blanks
  let start := startName m.index names t
  have hall := forall_edges (P := fun s => Linked ts (.var start) (s.number keys))
    (fun e he hsubject => hsubject.trans (linked_edge h hdrawn hc hm hts he)) hv hs (.refl _)
  rcases he with he | rfl
  · exact hall.1 e he
  · exact hall.2

/-- If one start has to do for all routes, then every requested variable is linked to it. The
induction leads up the tree: the start of a route is this one, or it is requested itself. -/
theorem linked_requested {x : String} (hx : ∀ v ∈ names, ∀ t, source? m.index v = some t →
    startName m.index names t ∈ names ∨ startName m.index names t = x) {v : String}
    (hv : v ∈ names) : Linked ts (.var x) (.var v) := by
  induction v using (h.wellFounded_up hc).transGen.induction with
  | _ v ih =>
    obtain ⟨t, ht, htype, rfl, hs⟩ := exists_source h hdrawn hv
    have hstart : Linked ts (.var x) (.var (startName m.index names t)) := by
      rcases hx _ hv t hs with hmem | he
      · exact ih _ (transGen_swap.mpr (up_startName h names ht htype)) hmem
      · rw [he]
        exact .refl _
    have hroute := linked_edges h hdrawn hc hm hts hv hs (Or.inr rfl)
    have hleaf := linked_edge h hdrawn hc hm hts (leafEdge_mem_plan hv hs)
    exact (hstart.trans hroute).trans hleaf

theorem OneStart.connected (hone : OneStart m.index names) : Connected names ts := by
  obtain ⟨x, hx⟩ := hone
  have hrequested := fun v => linked_requested h hdrawn hc hm hts hx (v := v)
  have hsubject : ∀ e ∈ plan m.index names,
      Linked ts (.var x) (e.subject.number (Draft.traced m.index names).blanks) := by
    intro e he
    obtain ⟨v, hv, t, hs, he⟩ := mem_plan_iff.mp he
    have hstart : Linked ts (.var x) (.var (startName m.index names t)) := by
      rcases hx v hv t hs with hmem | he
      · exact hrequested _ hmem
      · rw [he]
        exact .refl _
    exact hstart.trans (linked_edges h hdrawn hc hm hts hv hs he)
  have hnode : ∀ n, IsNode names ts n → Linked ts (.var x) n := by
    rintro n (⟨v, hv, rfl⟩ | ⟨u, hu, hn⟩)
    · exact hrequested v hv
    rw [hts] at hu
    obtain ⟨o, hu⟩ := Draft.mem_append_iff.mp hu
    rcases Draft.mem_ofVariables_cases hu with ⟨e, he, rfl⟩ | ⟨n', rfl, hn'⟩
    · rcases hn with rfl | rfl
      · exact hsubject e he
      · exact (hsubject e he).trans (linked_edge h hdrawn hc hm hts he)
    · -- subject and object of a type triple are the same node
      obtain rfl : n' = n := hn.elim id id
      rcases hn' with ⟨e, he, rfl⟩ | ⟨v, hv, rfl, -⟩
      · exact hsubject e he
      · exact hrequested v hv
  intro n n' hn hn'
  exact Linked.trans (.symm _ _ (hnode n hn)) (hnode n' hn')

end

section

variable (howners : OwnersAgree m.index names)
include howners

theorem subject_eq_of_object_eq {e e' : Edge} (he : e ∈ plan m.index names)
    (he' : e' ∈ plan m.index names) (ho : e.object = e'.object) : e.subject = e'.subject := by
  cases hobject : e.object with
  | var v =>
    obtain ⟨-, t, hs⟩ := mem_names_of_object he hobject
    rw [eq_leafEdge_of_object hs he hobject, eq_leafEdge_of_object hs he' (ho ▸ hobject)]
  | blank key =>
    exact howners e he e' he' key (isTypeUri_edge h hdrawn hc he) (isTypeUri_edge h hdrawn hc he')
      hobject (ho ▸ hobject)

theorem Stem.subject {e : Edge} {x : String} (he : e ∈ plan m.index names)
    (hstem : Stem m.index names e.object x) : Stem m.index names e.subject x := by
  generalize ho : e.object = s at hstem
  cases hstem with
  | top hx => exact absurd (mem_names_of_object he ho).1 hx
  | along he' hstem => rwa [subject_eq_of_object_eq h hdrawn hc howners he he' ho]

/-- A spot has one stem at most. -/
theorem Stem.unique {s : Spot} {x y : String} (hx : Stem m.index names s x)
    (hy : Stem m.index names s y) : x = y := by
  induction hx with
  | @top x hx =>
    generalize hs : Spot.var x = s at hy
    cases hy with
    | top _ => exact Spot.var.inj hs
    | along he _ => exact absurd (mem_names_of_object he hs.symm).1 hx
  | along he _ ih => exact ih (Stem.subject h hdrawn hc howners he hy)

/-- Linked variables have the same stem. -/
theorem Stem.of_linked {v v' x : String} (hstem : Stem m.index names (.var v) x)
    (hlinked : Linked ((Draft.ofVariables m.index names).required ++
      (Draft.ofVariables m.index names).optional) (.var v) (.var v')) :
    Stem m.index names (.var v') x := by
  let keys := (Draft.traced m.index names).blanks
  let HasStem (n : Node) : Prop := ∃ s : Spot, s.number keys = n ∧ Stem m.index names s x
  have hends : ∀ u ∈ (Draft.ofVariables m.index names).required ++
      (Draft.ofVariables m.index names).optional, u.isType = false →
      (HasStem u.subject ↔ HasStem u.object) := by
    intro u hu ht
    obtain ⟨o, hu⟩ := Draft.mem_append_iff.mp hu
    obtain ⟨e, he, -, rfl⟩ := Draft.exists_edge_of_not_isType hu ht
    have hshows := Draft.traced_shows m.index names
    constructor
    · rintro ⟨s, hs, hx⟩
      obtain rfl : e.subject = s := Spot.number_injective (hshows.entered e he) hs.symm
      exact ⟨e.object, rfl, .along he hx⟩
    · rintro ⟨s, hs, hx⟩
      obtain rfl : e.object = s := Spot.number_injective (hshows.object_mem he) hs.symm
      exact ⟨e.subject, rfl, Stem.subject h hdrawn hc howners he hx⟩
  obtain ⟨s, hs, hx⟩ := (hlinked.iff_of_forall hends).mp ⟨.var v, rfl, hstem⟩
  rwa [Spot.eq_var_of_number_eq hs] at hx

/-- In a connected pattern all routes that do not start at requested variables have one start. -/
theorem Connected.oneStart (hconnected : Connected names
    ((Draft.ofVariables m.index names).required ++ (Draft.ofVariables m.index names).optional)) :
    OneStart m.index names := by
  have hstem : ∀ v ∈ names, ∀ t, source? m.index v = some t → startName m.index names t ∉ names →
      Stem m.index names (.var v) (startName m.index names t) := by
    intro v hv t hs hstart
    have hroute := forall_edges (P := (Stem m.index names · (startName m.index names t)))
      (fun e he => .along he) hv hs (.top hstart)
    exact .along (leafEdge_mem_plan hv hs) hroute.2
  by_cases hfree : ∃ v ∈ names, ∃ t, source? m.index v = some t ∧ startName m.index names t ∉ names
  · obtain ⟨v, hv, t, hs, hstart⟩ := hfree
    refine ⟨startName m.index names t, fun v' hv' t' hs' => ?_⟩
    by_cases hstart' : startName m.index names t' ∈ names
    · exact Or.inl hstart'
    · right
      have hlinked := hconnected (.var v) (.var v') (Or.inl ⟨v, hv, rfl⟩) (Or.inl ⟨v', hv', rfl⟩)
      exact Stem.unique h hdrawn hc howners (hstem v' hv' t' hs' hstart')
        (Stem.of_linked h hdrawn hc howners (hstem v hv t hs hstart) hlinked)
  · refine ⟨"", fun v hv t hs => Or.inl ?_⟩
    by_contra hstart
    exact hfree ⟨v, hv, t, hs, hstart⟩

end

end

/-- When a pattern over a tree of subjects is connected. It is if every route through blank nodes
that is not compressed starts at the root or at a requested variable, and in general if all routes
that do not start at requested variables have one start. If every blank node has one owner, then it
is connected exactly in this case. -/
theorem generate_connected (m : Model) (hnames : m.index.HasPlainNames)
    (hclasses : m.index.HasPlainClasses) (root : Subject) (htree : m.index.IsTree root)
    (request : Option (List String))
    (hrequest : ∀ name ∈ request.getD m.index.objectNames,
      ∃ t, m.index.producer? name = some t ∧ t.predicate.isType = false)
    (parameters : Parameters) (options : Options) :
    let w := generate m.index request parameters options
    let triples := w.draft.required ++ w.draft.optional
    (RoutesAttached m.index w.variableNames root → OneStart m.index w.variableNames) ∧
    (OneStart m.index w.variableNames → Connected w.variableNames triples) ∧
    (OwnersAgree m.index w.variableNames →
      (Connected w.variableNames triples ↔ OneStart m.index w.variableNames)) := by
  intro w triples
  have hdrawn : Drawn m.index w.variableNames := drawn_request htree hclasses hrequest
  have hconnected : OneStart m.index w.variableNames → Connected w.variableNames triples :=
    OneStart.connected htree hdrawn hclasses hnames rfl
  refine ⟨RoutesAttached.oneStart htree hdrawn hclasses, hconnected, fun howners => ?_⟩
  exact ⟨Connected.oneStart htree hdrawn hclasses howners, hconnected⟩

def labelledEntry : Subject :=
  ⟨"Entry", none, false, [⟨"a", none, [.uri "ex:Entry" "ex:Entry"]⟩,
    ⟨"rdfs:label", none, [.var "entry_label"]⟩, ⟨"ex:gene", none, [.reference "gene" "Gene"]⟩]⟩

def valuedGene : Subject :=
  ⟨"Gene", none, false, [⟨"a", none, [.uri "ex:Gene" "ex:Gene"]⟩,
    ⟨"ex:has", none, [.blank ⟨blankName, none, true,
      [⟨"ex:value", none, [.var "v1", .var "v2"]⟩]⟩]⟩]⟩

def geneValues : Model where
  subjects := [labelledEntry, valuedGene]
  prefixes := [("ex", "http://example.org/"), ("rdfs", "http://www.w3.org/2000/01/rdf-schema#")]
  accepted := by decide +kernel

def geneTriple : SparqlModel.Triple :=
  ⟨0, labelledEntry, [], ⟨⟨"ex:gene", none, [.reference "gene" "Gene"]⟩, 2, 0⟩,
    .reference "gene" "Gene"⟩

theorem geneValues_isTree : geneValues.index.IsTree labelledEntry where
  root_mem := List.mem_cons_self
  root_free := by decide +kernel
  referred := by
    intro s hs hne
    rcases List.mem_pair.mp hs with rfl | rfl
    · exact absurd rfl hne
    · exact ⟨geneTriple, rfl, by decide⟩
  reaches := by
    intro s hs
    rcases List.mem_pair.mp hs with rfl | rfl
    · exact .refl
    · have hmem : geneTriple ∈ geneValues.index.triples :=
        producer?_mem (show geneValues.index.producer? "Gene" = some geneTriple from rfl)
      exact .single ⟨geneTriple, hmem, by decide, rfl⟩
  nodup := by decide +kernel
  apart := by decide +kernel

theorem generate_connected_geneValues :
    let w := generate geneValues.index (some ["entry_label", "gene", "v1", "v2"]) [] {}
    geneValues.index.HasPlainNames ∧ geneValues.index.HasPlainClasses ∧
      geneValues.index.IsTree labelledEntry ∧
      (∀ name ∈ ["entry_label", "gene", "v1", "v2"], ∃ t,
        geneValues.index.producer? name = some t ∧ t.predicate.isType = false) ∧
      w.lines = ["WHERE \x7b", "    ?Entry a ex:Entry ;", "        rdfs:label ?entry_label ;",
        "        ex:gene ?gene .", "    ?gene a ex:Gene ;", "        ex:has / ex:value ?v1 ;",
        "        ex:has / ex:value ?v2 .", "\x7d"] ∧
      RoutesAttached geneValues.index w.variableNames labelledEntry ∧
      Connected w.variableNames (w.draft.required ++ w.draft.optional) := by
  intro w
  have hnames : geneValues.index.HasPlainNames := ⟨by decide +kernel, by decide +kernel⟩
  have hclasses : geneValues.index.HasPlainClasses :=
    ⟨by unfold HasPlainHops; decide +kernel, by decide +kernel⟩
  have hrequest : ∀ name ∈ ["entry_label", "gene", "v1", "v2"], ∃ t,
      geneValues.index.producer? name = some t ∧ t.predicate.isType = false := by
    simp only [List.forall_mem_cons]
    exact ⟨⟨_, rfl, rfl⟩, ⟨_, rfl, rfl⟩, ⟨_, rfl, rfl⟩, ⟨_, rfl, rfl⟩, by simp⟩
  have hattached : RoutesAttached geneValues.index w.variableNames labelledEntry := by
    change ∀ v ∈ w.variableNames, ∀ t ∈ source? geneValues.index v,
      rendering geneValues.index w.variableNames t ≠ .compressed →
        t.subject.name = labelledEntry.name ∨
          geneValues.index.variableFor t.subject.name ∈ w.variableNames
    decide +kernel
  obtain ⟨hone, hconnected, -⟩ := generate_connected geneValues hnames hclasses labelledEntry
    geneValues_isTree (some ["entry_label", "gene", "v1", "v2"]) hrequest [] {}
  exact ⟨hnames, hclasses, geneValues_isTree, hrequest, by decide +kernel, hattached,
    hconnected (hone hattached)⟩

/-- Without the gene in the request nothing joins its values to the entry. -/
theorem geneValues_not_linked :
    let w := generate geneValues.index (some ["entry_label", "v1", "v2"]) [] {}
    w.lines = ["WHERE \x7b", "    ?Entry a ex:Entry ;", "        rdfs:label ?entry_label .",
      "    ?gene a ex:Gene ;", "        ex:has / ex:value ?v1 ;",
      "        ex:has / ex:value ?v2 .", "\x7d"] ∧
    geneValues.index.IsTree labelledEntry ∧
    (∀ name ∈ ["entry_label", "v1", "v2"], ∃ t, geneValues.index.producer? name = some t ∧
      t.object.name = name ∧ t.predicate.isType = false) ∧
    ¬Linked (w.draft.required ++ w.draft.optional) (.var "entry_label") (.var "v1") := by
  intro w
  refine ⟨by decide +kernel, geneValues_isTree, ?_, fun hlinked => ?_⟩
  · simp only [List.forall_mem_cons]
    exact ⟨⟨_, rfl, rfl, rfl⟩, ⟨_, rfl, rfl, rfl⟩, ⟨_, rfl, rfl, rfl⟩, by simp⟩
  -- no triple leaves or enters the side of the entry
  · have hside := hlinked.iff_of_forall (P := (· ∈ [Node.var "Entry", Node.var "entry_label"]))
      (by decide +kernel)
    exact absurd hside (by decide)

end SparqlModel.Pattern
