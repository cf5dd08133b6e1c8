import SparqlModel.Proofs.Coverage

/-!
# Expanded routes

A variable that is reached through blank nodes hangs on a walk of the pattern: from the variable of
its subject through one blank node for each hop at which classes are declared. The paths along the
walk are the route of its triple, cut at these hops. Every hop has the number of its key, and the
numbers of a pattern are those from one to the number of keys.
-/

namespace SparqlModel.Pattern

/-- A walk along triples: each step has the path and the node to which it leads. -/
inductive Walks (ts : List Triple) : Node → List (String × Node) → Prop
  | nil (n : Node) : Walks ts n []
  | step {n next : Node} {path : String} {rest : List (String × Node)} :
    ⟨n, path, next⟩ ∈ ts → Walks ts next rest → Walks ts n ((path, next) :: rest)

variable {ts : List Triple} {keys : List BlankKey} {node : Spot} {route pending : List String}
  {hops : List (Step × Option (List String))}

theorem Walks.links {rest : List (String × Node)}
    (hts : ∀ e ∈ links node route pending hops, e.triple keys ∈ ts)
    (hrest : Walks ts ((linksEnd node route pending hops).1.number keys) rest) :
    Walks ts (node.number keys)
      ((Pattern.links node route pending hops).map (fun e => (e.predicate, e.object.number keys))
        ++ rest) := by
  induction hops generalizing node route pending with
  | nil => exact hrest
  | cons hop hops ih =>
    obtain ⟨step, types⟩ := hop
    cases types with
    | none => exact ih hts hrest
    | some types =>
      have hts' := List.forall_mem_cons.mp hts
      exact .step hts'.1 (ih hts'.2 hrest)

/-- Joined again, the paths of the links and the pending path make the whole route. -/
theorem intercalate_links (node : Spot) (route pending : List String)
    (hops : List (Step × Option (List String))) (uri : String) :
    pathSeparator.intercalate ((links node route pending hops).map (·.predicate)
        ++ [pathSeparator.intercalate ((linksEnd node route pending hops).2 ++ [uri])]) =
      pathSeparator.intercalate (pending ++ hops.map (·.1.predicate.uri) ++ [uri]) := by
  induction hops generalizing node route pending with
  | nil => simp [links, linksEnd]
  | cons hop hops ih =>
    obtain ⟨step, types⟩ := hop
    cases types with
    | none =>
      have h := ih node (route ++ [step.predicate.uri]) (pending ++ [step.predicate.uri])
      simpa only [links, linksEnd, List.map_cons, List.append_assoc, List.cons_append,
        List.nil_append] using h
    | some types =>
      have h := ih (.blank ⟨route ++ [step.predicate.uri], distinct types⟩)
        (route ++ [step.predicate.uri]) []
      simp only [links, linksEnd, List.map_cons, List.cons_append]
      rw [String.intercalate_cons_of_ne_nil (by simp), h,
        ← String.intercalate_append_of_ne_nil (by simp) (by simp)]
      simp

theorem object_links (node : Spot) (route pending : List String)
    (hops : List (Step × Option (List String))) :
    (links node route pending hops).map (·.object) =
      ((List.range hops.length).filter fun i => (hops[i]?.bind (·.2)).isSome).map fun i =>
        .blank ⟨route ++ (hops.map (·.1.predicate.uri)).take (i + 1),
          distinct ((hops[i]?.bind (·.2)).getD [])⟩ := by
  induction hops generalizing node route pending with
  | nil => rfl
  | cons hop hops ih =>
    obtain ⟨step, types⟩ := hop
    rw [List.length_cons, List.range_succ_eq_map]
    cases types with
    | none =>
      simp [links, ih, List.filter_map, Function.comp_def]
    | some types =>
      simp [links, ih, List.filter_map, Function.comp_def]

def typedPlaces (ix : Index) (t : SparqlModel.Triple) : List ℕ :=
  (List.range t.hops.length).filter fun i => (ix.typesAtHop t i).isSome

/-- What identifies the blank node at a hop: the URIs up to it, and its classes, each once. -/
def hopKey (ix : Index) (t : SparqlModel.Triple) (i : ℕ) : BlankKey :=
  ⟨t.uris.take (i + 1), distinct ((ix.typesAtHop t i).getD [])⟩

/-- A requested variable that is reached through the blank nodes on the route of its triple. -/
structure IsExpanded (ix : Index) (names : List String) (name : String) (t : SparqlModel.Triple) :
    Prop where
  requested : name ∈ names
  produced : ix.producer? name = some t
  not_self : t.subject.name ≠ name
  rendering : rendering ix names t = .expanded

def Draft.numberOf (d : Draft) (key : BlankKey) : ℕ :=
  d.blanks.idxOf key + 1

theorem Draft.one_le_numberOf_le_iff {d : Draft} {key : BlankKey} :
    1 ≤ d.numberOf key ∧ d.numberOf key ≤ d.blanks.length ↔ key ∈ d.blanks := by
  rw [← List.idxOf_lt_length_iff, numberOf]
  omega

theorem Draft.typesOf_numberOf {d : Draft} {key : BlankKey} (h : key ∈ d.blanks) :
    d.typesOf (.blank (d.numberOf key)) = key.types := by
  have hk : d.blanks[d.blanks.idxOf key]? = some key := List.getElem?_idxOf h
  simp [typesOf, numberOf, hk]

variable {ix : Index} {names : List String} {name : String} {t : SparqlModel.Triple}

theorem IsExpanded.source (h : IsExpanded ix names name t) : source? ix name = some t :=
  source?_eq_some_iff.mpr ⟨h.produced, h.not_self⟩

theorem uris_eq (t : SparqlModel.Triple) :
    t.uris = t.hops.map (·.predicate.uri) ++ [t.predicate.uri] := by
  simp [Triple.uris, Triple.steps, SparqlModel.Triple.predicate]

theorem length_typedHops (ix : Index) (t : SparqlModel.Triple) :
    (typedHops ix t).length = t.hops.length := by
  simp [typedHops, Index.blankTypes]

theorem typedHops_getElem? {i : ℕ} (hi : i < t.hops.length) :
    (typedHops ix t)[i]?.bind (·.2) = ix.typesAtHop t i := by
  have hz : (typedHops ix t)[i]? = some (t.hops[i], ix.typesAtHop t i) := by
    rw [List.getElem?_eq_getElem ((length_typedHops ix t).symm ▸ hi)]
    simp [typedHops, Index.blankTypes]
  rw [hz]
  rfl

theorem map_uri_typedHops (ix : Index) (t : SparqlModel.Triple) :
    (typedHops ix t).map (·.1.predicate.uri) = t.hops.map (·.predicate.uri) := by
  have hfst : (typedHops ix t).map Prod.fst = t.hops :=
    List.map_fst_zip (by simp [Index.blankTypes])
  rw [← congrArg (List.map (·.predicate.uri)) hfst, List.map_map]
  rfl

/-- The links of an expanded route enter its hops with declared classes. -/
theorem object_links_typedHops (ix : Index) (t : SparqlModel.Triple) :
    (links (rootSpot ix t) [] [] (typedHops ix t)).map (·.object) =
      (typedPlaces ix t).map fun i => .blank (hopKey ix t i) := by
  rw [object_links, length_typedHops, map_uri_typedHops, typedPlaces]
  have hfilter : (List.range t.hops.length).filter
        (fun i => ((typedHops ix t)[i]?.bind (·.2)).isSome) =
      (List.range t.hops.length).filter fun i => (ix.typesAtHop t i).isSome := by
    apply List.filter_congr
    intro i hi
    rw [typedHops_getElem? (List.mem_range.mp hi)]
  rw [hfilter]
  apply List.map_congr_left
  intro i hi
  have hlt : i < t.hops.length := List.mem_range.mp (List.mem_filter.mp hi).1
  have huris : t.uris.take (i + 1) = (t.hops.map (·.predicate.uri)).take (i + 1) := by
    rw [uris_eq, List.take_append_of_le_length (by simpa using hlt)]
  rw [typedHops_getElem? hlt, hopKey, huris, List.nil_append]

/-- The keys of a draft are those of the hops through which its variables are reached. -/
theorem mem_blanks_iff {key : BlankKey} : key ∈ (Draft.traced ix names).blanks ↔
    ∃ name t, IsExpanded ix names name t ∧ ∃ i ∈ typedPlaces ix t, hopKey ix t i = key := by
  have hlinks : ∀ t, (∃ e ∈ links (rootSpot ix t) [] [] (typedHops ix t), e.object = .blank key) ↔
      ∃ i ∈ typedPlaces ix t, hopKey ix t i = key := by
    intro t
    rw [← List.mem_map, object_links_typedHops]
    simp
  rw [(Draft.traced_shows ix names).blanks, Draft.edgeKeys, mem_distinct, List.mem_flatMap]
  constructor
  · rintro ⟨e, he, hkey⟩
    obtain ⟨name, hn, t, hs, he | rfl⟩ := mem_plan_iff.mp he
    · obtain ⟨hr, he⟩ := mem_linkEdges he
      obtain ⟨⟨key', ho⟩, -⟩ := links_object he
      obtain rfl : key = key' := by simpa [ho, Spot.keys] using hkey
      obtain ⟨hp, hne⟩ := source?_eq_some_iff.mp hs
      exact ⟨name, t, ⟨hn, hp, hne, hr⟩, (hlinks t).mp ⟨e, he, ho⟩⟩
    · simp [leafEdge, Spot.keys] at hkey
  · rintro ⟨name, t, h, hi⟩
    obtain ⟨e, he, ho⟩ := (hlinks t).mpr hi
    refine ⟨e, mem_plan_iff.mpr ⟨name, h.requested, t, h.source, Or.inl ?_⟩, by simp [ho, Spot.keys]⟩
    simpa [linkEdges, h.rendering] using he

/-- What a pattern shows of the variables that are reached through blank nodes. -/
structure ExpandsRoutes (ix : Index) (names : List String) (d : Draft) : Prop where
  /-- A walk from the variable of the subject through the hops with declared classes. -/
  walk : ∀ name t, IsExpanded ix names name t → ∃ walk,
    Walks (d.required ++ d.optional) (.var (ix.variableFor t.subject.name)) walk ∧
    pathSeparator.intercalate (walk.map (·.1)) = t.path pathSeparator ∧
    walk.map (·.2) =
      (typedPlaces ix t).map (fun i => .blank (d.numberOf (hopKey ix t i))) ++ [.var name]
  /-- The blank node of a hop has the URIs up to it and the classes that are declared there. -/
  carried : ∀ name t, IsExpanded ix names name t → ∀ i ∈ typedPlaces ix t,
    d.blanks[d.numberOf (hopKey ix t i) - 1]? = some (hopKey ix t i) ∧
    d.typesOf (.blank (d.numberOf (hopKey ix t i))) = distinct ((ix.typesAtHop t i).getD [])
  /-- The numbers go from one to the number of keys. -/
  numbers : ∀ k, (1 ≤ k ∧ k ≤ d.blanks.length) ↔
    ∃ name t, IsExpanded ix names name t ∧ ∃ i ∈ typedPlaces ix t, d.numberOf (hopKey ix t i) = k
  /-- Two hops have the same number exactly if they have the same URIs and the same classes. -/
  shared : ∀ name t name' t', IsExpanded ix names name t → IsExpanded ix names name' t' →
    ∀ i ∈ typedPlaces ix t, ∀ i' ∈ typedPlaces ix t',
      d.numberOf (hopKey ix t i) = d.numberOf (hopKey ix t' i') ↔
        t.uris.take (i + 1) = t'.uris.take (i' + 1) ∧
        distinct ((ix.typesAtHop t i).getD []) = distinct ((ix.typesAtHop t' i').getD [])

variable {m : Model}

theorem exists_walk (hm : m.index.HasPlainNames) (h : IsExpanded m.index names name t) :
    ∃ walk, Walks ((Draft.ofVariables m.index names).required ++
        (Draft.ofVariables m.index names).optional) (.var (m.index.variableFor t.subject.name)) walk ∧
      pathSeparator.intercalate (walk.map (·.1)) = t.path pathSeparator ∧
      walk.map (·.2) = (typedPlaces m.index t).map
        (fun i => .blank ((Draft.ofVariables m.index names).numberOf (hopKey m.index t i)))
          ++ [.var name] := by
  let d := Draft.ofVariables m.index names
  let hops := typedHops m.index t
  have hblanks : d.blanks = (Draft.traced m.index names).blanks := Draft.blanks_ofVariables _ _
  have hmem : ∀ e ∈ plan m.index names, e.triple d.blanks ∈ d.required ++ d.optional := by
    intro e he
    rw [hblanks]
    exact Draft.mem_append_iff.mpr ⟨_, triple_mem_ofVariables hm he⟩
  have hleaf := hmem _ (leafEdge_mem_plan h.requested h.source)
  simp only [Edge.triple, leafEdge, leafStep, h.rendering] at hleaf
  have hlinks : ∀ e ∈ links (rootSpot m.index t) [] [] hops, e.triple d.blanks ∈
      d.required ++ d.optional := by
    intro e he
    apply hmem
    refine mem_plan_iff.mpr ⟨name, h.requested, t, h.source, Or.inl ?_⟩
    simpa [linkEdges, h.rendering] using he
  refine ⟨_, Walks.links hlinks (.step hleaf (.nil _)), ?_, ?_⟩
  · have hpath := intercalate_links (rootSpot m.index t) [] [] hops t.predicate.uri
    rw [map_uri_typedHops, List.nil_append, ← uris_eq] at hpath
    rw [List.map_append, List.map_map]
    exact hpath
  · have hobjects := congrArg (List.map (Spot.number d.blanks)) (object_links_typedHops m.index t)
    rw [List.map_map, List.map_map] at hobjects
    rw [List.map_append, List.map_map]
    exact congrArg (· ++ [Node.var name]) hobjects

/-- Expansion keeps the routes. Every variable that is reached through blank nodes ends a walk with
the URIs of its triple, whose blank nodes are the hops with declared classes, and the numbers of
these hops tell their keys apart. -/
theorem generate_expands (m : Model) (hm : m.index.HasPlainNames)
    (request : Option (List String)) (parameters : Parameters) (options : Options) :
    let w := generate m.index request parameters options
    ExpandsRoutes m.index w.variableNames w.draft := by
  intro w
  have hblanks : w.draft.blanks = (Draft.traced m.index w.variableNames).blanks :=
    Draft.blanks_ofVariables m.index w.variableNames
  have hkeys : ∀ key, key ∈ w.draft.blanks ↔ ∃ name t,
      IsExpanded m.index w.variableNames name t ∧ ∃ i ∈ typedPlaces m.index t,
        hopKey m.index t i = key := by
    intro key
    rw [hblanks, mem_blanks_iff]
  have hnodup : w.draft.blanks.Nodup := by
    rw [hblanks, (Draft.traced_shows m.index w.variableNames).blanks]
    exact nodup_distinct _
  refine ⟨fun name t h => exists_walk hm h, ?_, ?_, ?_⟩
  · intro name t h i hi
    have hmem := (hkeys _).mpr ⟨name, t, h, i, hi, rfl⟩
    exact ⟨List.getElem?_idxOf hmem, Draft.typesOf_numberOf hmem⟩
  · intro k
    constructor
    · rintro ⟨hone, hle⟩
      have hlt : k - 1 < w.draft.blanks.length := by omega
      obtain ⟨name, t, h, i, hi, hkey⟩ := (hkeys _).mp (List.getElem_mem hlt)
      refine ⟨name, t, h, i, hi, ?_⟩
      rw [Draft.numberOf, hkey, hnodup.idxOf_getElem]
      omega
    · rintro ⟨name, t, h, i, hi, rfl⟩
      exact Draft.one_le_numberOf_le_iff.mpr ((hkeys _).mpr ⟨name, t, h, i, hi, rfl⟩)
  · intro name t name' t' h h' i hi i' hi'
    have hmem := (hkeys _).mpr ⟨name, t, h, i, hi, rfl⟩
    rw [Draft.numberOf, Draft.numberOf, Nat.add_right_cancel_iff, List.idxOf_inj hmem, hopKey,
      hopKey, BlankKey.mk.injEq]

/-- The value of a part that an entry holds: the holding has no class, the part has the given
one. -/
def holdingOf (partClass value : String) : Predicate :=
  ⟨"ex:has", none, [.blank ⟨blankName, none, true,
    [⟨"ex:part", none, [.blank ⟨blankName, none, true,
      [⟨"a", none, [.uri partClass partClass]⟩, ⟨"ex:value", none, [.var value]⟩]⟩]⟩]⟩]⟩

/-- An entry with two holdings whose parts have different classes. -/
def twoParts : Model where
  subjects := [⟨"Entry", none, false, [⟨"a", none, [.uri "ex:Entry" "ex:Entry"]⟩,
    holdingOf "ex:A" "value_a", holdingOf "ex:B" "value_b"]⟩]
  prefixes := [("ex", "http://example.org/")]
  accepted := by decide +kernel

theorem generate_expands_twoParts :
    twoParts.index.HasPlainNames ∧
      let w := generate twoParts.index (some ["value_a", "value_b"]) [] {}
      w.lines = ["WHERE \x7b", "    ?Entry a ex:Entry ;", "        ex:has / ex:part _:b1 ;",
        "        ex:has / ex:part _:b2 .", "    _:b1 a ex:A ;", "        ex:value ?value_a .",
        "    _:b2 a ex:B ;", "        ex:value ?value_b .", "\x7d"] ∧
      (∃ t, IsExpanded twoParts.index w.variableNames "value_b" t ∧
        typedPlaces twoParts.index t = [1]) ∧
      ExpandsRoutes twoParts.index w.variableNames w.draft := by
  have hplain : twoParts.index.HasPlainNames := ⟨by decide +kernel, by decide +kernel⟩
  refine ⟨hplain, by decide +kernel, ?_, generate_expands twoParts hplain _ [] {}⟩
  exact ⟨_, ⟨by decide +kernel, rfl, by decide +kernel, by decide +kernel⟩, by decide +kernel⟩

end SparqlModel.Pattern
