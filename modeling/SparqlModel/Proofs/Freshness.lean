import SparqlModel.Proofs.TypeTriples

/-!
# Names of the nodes of a pattern

A request makes variables, which have names of the model, and blank nodes, which are numbered. Nodes
are told apart by their names, so that a variable with the name of a numbered blank node is taken
for it. A node with several classes brings in a class variable, which may be one of the variables of
the model. The main statement is `generate_freshNames`: names meet in no other way.
-/

namespace SparqlModel.Pattern

/-- The nodes that are made for a request: those of its edges, whether or not the triples of the
edges are kept, and those of its type triples. -/
def madeNodes (ix : Index) (names : List String) : List Node :=
  ((plan ix names).flatMap fun e => [e.subject.number (Draft.traced ix names).blanks,
    e.object.number (Draft.traced ix names).blanks])
    ++ Draft.typedNodes ix names (Draft.traced ix names)

/-- Nodes are told apart by their names, and the variables of their classes by their texts: from the
variables among the nodes and from each other. -/
structure FreshNames (nodes : List Node) (typesOf : Node → List String) : Prop where
  apart : ∀ n ∈ nodes, ∀ n' ∈ nodes, n.name = n'.name → n = n'
  fromVariables : ∀ n ∈ nodes, 1 < (typesOf n).length →
    ∀ v, .var v ∈ nodes → n.classVariable ≠ (Node.var v).render
  fromClasses : ∀ n ∈ nodes, 1 < (typesOf n).length →
    ∀ n' ∈ nodes, 1 < (typesOf n').length → n ≠ n' → n.classVariable ≠ n'.classVariable

namespace Node

theorem classVariable_eq_render_iff {n : Node} {v : String} :
    n.classVariable = (var v).render ↔ v = n.name ++ "Class" := by
  rw [classVariable, render, String.append_assoc, String.append_right_inj, eq_comm]

theorem classVariable_inj {n n' : Node} :
    n.classVariable = n'.classVariable ↔ n.name = n'.name := by
  rw [classVariable, classVariable, String.append_left_inj, String.append_right_inj]

end Node

/-- Only two things make names meet: a variable with the name of a blank node, and a variable with
the name of a class variable. -/
theorem freshNames_iff {nodes : List Node} {typesOf : Node → List String}
    (hblank : ∀ k, .blank k ∈ nodes → 0 ≤ k) :
    FreshNames nodes typesOf ↔
      (∀ k, .blank k ∈ nodes → .var (Node.blank k).name ∉ nodes) ∧
      ∀ n ∈ nodes, 1 < (typesOf n).length → .var (n.name ++ "Class") ∉ nodes := by
  constructor
  · intro h
    refine ⟨fun k hk hv => ?_, fun n hn htypes hv => ?_⟩
    · cases h.apart _ hk _ hv rfl
    · exact h.fromVariables n hn htypes _ hv (Node.classVariable_eq_render_iff.mpr rfl)
  · rintro ⟨hlabels, hclasses⟩
    have hapart : ∀ n ∈ nodes, ∀ n' ∈ nodes, n.name = n'.name → n = n' := by
      intro n hn n' hn' hname
      match n, n' with
      | .var _, .var _ => exact congrArg Node.var hname
      | .var a, .blank k =>
        obtain rfl : a = (Node.blank k).name := hname
        exact absurd hn (hlabels k hn')
      | .blank k, .var b =>
        obtain rfl : (Node.blank k).name = b := hname
        exact absurd hn' (hlabels k hn)
      | .blank k, .blank l => exact Node.eq_of_name_eq (hblank k hn) (hblank l hn') hname
    refine ⟨hapart, fun n hn htypes v hv heq => ?_, fun n hn _ n' hn' _ hne heq => ?_⟩
    · exact hclasses n hn htypes (Node.classVariable_eq_render_iff.mp heq ▸ hv)
    · exact hne (hapart n hn n' hn' (Node.classVariable_inj.mp heq))

variable {ix : Index} {names : List String}

theorem mem_madeNodes {n : Node} : n ∈ madeNodes ix names ↔
    (∃ e ∈ plan ix names, e.subject.number (Draft.traced ix names).blanks = n ∨
      e.object.number (Draft.traced ix names).blanks = n) ∨
    n ∈ Draft.typedNodes ix names (Draft.traced ix names) := by
  simp [madeNodes, eq_comm]

theorem nodes_mem_madeNodes {u : Triple} {o : Bool}
    (hu : u ∈ (Draft.ofVariables ix names).buffered o) :
    u.subject ∈ madeNodes ix names ∧ u.object ∈ madeNodes ix names := by
  rcases Draft.exists_edge_or_typed hu with ⟨e, he, rfl⟩ | ⟨n, hn, rfl⟩
  · exact ⟨mem_madeNodes.mpr (Or.inl ⟨e, he, Or.inl rfl⟩),
      mem_madeNodes.mpr (Or.inl ⟨e, he, Or.inr rfl⟩)⟩
  · exact ⟨mem_madeNodes.mpr (Or.inr hn), mem_madeNodes.mpr (Or.inr hn)⟩

theorem number_bounds {keys : List BlankKey} {s : Spot} (hs : ∀ key ∈ s.keys, key ∈ keys) {k : ℤ}
    (h : s.number keys = .blank k) : 1 ≤ k ∧ k ≤ keys.length := by
  cases s with
  | var n => cases h
  | blank key =>
    have hlt := List.idxOf_lt_length_of_mem (hs key (by simp [Spot.keys]))
    have hk := Node.blank.inj h
    omega

/-- The blank nodes are numbered from one without a gap. -/
theorem blank_mem_madeNodes_iff {k : ℤ} : .blank k ∈ madeNodes ix names ↔
    1 ≤ k ∧ k ≤ (Draft.traced ix names).blanks.length := by
  have hshows := Draft.traced_shows ix names
  rw [mem_madeNodes]
  constructor
  · rintro (⟨e, he, h | h⟩ | h)
    · exact number_bounds (hshows.entered e he) h
    · exact number_bounds (hshows.object_mem he) h
    · rcases Draft.typedNodes_cases h with ⟨e, he, h⟩ | ⟨v, -, h, -⟩
      · exact number_bounds (hshows.entered e he) h
      · cases h
  · rintro ⟨hpos, hle⟩
    obtain ⟨i, rfl⟩ : ∃ i : ℕ, k = (i + 1 : ℕ) := ⟨(k - 1).toNat, by omega⟩
    have hi : i < (Draft.traced ix names).blanks.length := by omega
    have hmem := List.getElem_mem hi
    have hnodup : (Draft.traced ix names).blanks.Nodup := by
      rw [hshows.blanks]
      exact nodup_distinct _
    have hidx := hnodup.idxOf_getElem i hi
    generalize (Draft.traced ix names).blanks[i] = key at hmem hidx
    rw [hshows.blanks, Draft.edgeKeys, mem_distinct] at hmem
    obtain ⟨e, he, hkey⟩ := List.mem_flatMap.mp hmem
    have hobject : e.object = .blank key := by
      cases ho : e.object with
      | var n => simp [ho, Spot.keys] at hkey
      | blank key' => simpa [ho, Spot.keys, eq_comm] using hkey
    exact Or.inl ⟨e, he, Or.inr (by rw [hobject, Spot.number, hidx])⟩

theorem isName_of_mem_madeNodes {m : Model} {names : List String} {v : String}
    (h : .var v ∈ madeNodes m.index names) : m.index.IsName v := by
  have hspot : ∀ s : Spot, s.IsNamed m.index →
      s.number (Draft.traced m.index names).blanks = .var v → m.index.IsName v := by
    intro s hs hv
    cases s with
    | var n => exact Node.var.inj hv ▸ hs
    | blank key => cases hv
  rcases mem_madeNodes.mp h with ⟨e, he, hv | hv⟩ | h
  · exact hspot _ (isNamed_of_mem_plan he).1 hv
  · exact hspot _ (isNamed_of_mem_plan he).2 hv
  · rcases Draft.typedNodes_cases h with ⟨e, he, hv⟩ | ⟨x, -, hv, htypes⟩
    · exact hspot _ (isNamed_of_mem_plan he).1 hv
    · obtain rfl := Node.var.inj hv
      cases hp : m.index.producer? v with
      | none => simp [Draft.referencedTypes, hp] at htypes
      | some t => exact Index.IsName.of_producer? hp

/-- The names of a pattern. Its variables have names of the model, and its blank nodes are numbered
from one. The names are fresh exactly if no variable is named like one of the blank nodes or like
the class variable of a node with several classes, in particular over a model that has no such
names. -/
theorem generate_freshNames (m : Model) (request : Option (List String)) (parameters : Parameters)
    (options : Options) :
    let w := generate m.index request parameters options
    let nodes := madeNodes m.index w.variableNames
    (∀ u ∈ w.draft.required ++ w.draft.optional, u.subject ∈ nodes ∧ u.object ∈ nodes) ∧
    (∀ v, .var v ∈ nodes → m.index.IsName v) ∧
    (∀ k : ℤ, .blank k ∈ nodes ↔ 1 ≤ k ∧ k ≤ w.draft.blanks.length) ∧
    (FreshNames nodes w.draft.typesOf ↔
      (∀ k : ℤ, 1 ≤ k → k ≤ w.draft.blanks.length → .var (Node.blank k).name ∉ nodes) ∧
      ∀ n ∈ nodes, 1 < (w.draft.typesOf n).length → .var (n.name ++ "Class") ∉ nodes) ∧
    (m.index.HasPlainNames → (∀ v, m.index.IsName v → ∀ x, v ≠ x ++ "Class") →
      FreshNames nodes w.draft.typesOf) := by
  intro w nodes
  have hnames : ∀ v, .var v ∈ nodes → m.index.IsName v := fun v hv => isName_of_mem_madeNodes hv
  have hblank : ∀ k : ℤ, .blank k ∈ nodes ↔ 1 ≤ k ∧ k ≤ w.draft.blanks.length := by
    intro k
    rw [show w.draft.blanks = _ from Draft.blanks_ofVariables m.index w.variableNames]
    exact blank_mem_madeNodes_iff
  have hpos : ∀ k, .blank k ∈ nodes → 0 ≤ k := fun k hk => by
    have hk := (hblank k).mp hk
    omega
  have hfresh : FreshNames nodes w.draft.typesOf ↔ _ := freshNames_iff hpos
  refine ⟨fun u hu => ?_, hnames, hblank, ?_, fun hplain hclass => hfresh.mpr ⟨?_, ?_⟩⟩
  · obtain ⟨o, hu⟩ := Draft.mem_append_iff.mp hu
    exact nodes_mem_madeNodes hu
  · simpa only [hblank, and_imp] using hfresh
  · intro k hk hv
    obtain ⟨i, rfl⟩ := Int.eq_ofNat_of_zero_le (hpos k hk)
    have hlabel := hplain.isPlain (hnames _ hv)
    rw [Node.isBlankLabel_name_blank] at hlabel
    cases hlabel
  · intro n _ _ hv
    exact hclass _ (hnames _ hv) n.name rfl

/-- An entry with two holdings and a gene, to which it refers by a given name. -/
def holdingsAndGene (reference : String) : List Subject := [
  ⟨"Entry", none, false, [⟨"a", none, [.uri "ex:Entry" "ex:Entry"]⟩,
    ⟨"ex:has", none, [.blank ⟨blankName, none, true,
      [⟨"a", none, [.uri "ex:A" "ex:A"]⟩, ⟨"ex:value", none, [.var "value_a"]⟩]⟩]⟩,
    ⟨"ex:has", none, [.blank ⟨blankName, none, true,
      [⟨"a", none, [.uri "ex:B" "ex:B"]⟩, ⟨"ex:value", none, [.var "value_b"]⟩]⟩]⟩,
    ⟨"ex:gene", none, [.reference reference "Gene"]⟩]⟩,
  ⟨"Gene", none, false, [⟨"a", none, [.uri "ex:Gene" "ex:Gene"]⟩,
    ⟨"rdfs:label", none, [.var "gene_label"]⟩]⟩]

def plainGene : Model where
  subjects := holdingsAndGene "gene"
  prefixes := [("ex", "http://example.org/"), ("rdfs", "http://www.w3.org/2000/01/rdf-schema#")]
  accepted := by decide +kernel

theorem generate_freshNames_plainGene :
    let w := generate plainGene.index (some ["value_a", "value_b", "gene", "gene_label"]) [] {}
    w.lines = ["WHERE \x7b", "    ?Entry a ex:Entry ;", "        ex:has _:b1 ;",
      "        ex:has _:b2 ;", "        ex:gene ?gene .", "    _:b1 a ex:A ;",
      "        ex:value ?value_a .", "    _:b2 a ex:B ;", "        ex:value ?value_b .",
      "    ?gene a ex:Gene ;", "        rdfs:label ?gene_label .", "\x7d"] ∧
    FreshNames (madeNodes plainGene.index w.variableNames) w.draft.typesOf := by
  have h := generate_freshNames plainGene (some ["value_a", "value_b", "gene", "gene_label"]) [] {}
  obtain ⟨-, -, -, -, hfresh⟩ := h
  refine ⟨by decide +kernel, hfresh ⟨by decide +kernel, by decide +kernel⟩ ?_⟩
  intro v hv x hx
  have hend : "Class".toList <:+ v.toList := ⟨x.toList, by rw [hx, String.toList_append]⟩
  have hsubjects : ∀ s ∈ plainGene.index.subjects, ¬ "Class".toList <:+ s.name.toList := by
    decide +kernel
  have hobjects : ∀ t ∈ plainGene.index.triples, ¬ "Class".toList <:+ t.object.name.toList := by
    decide +kernel
  rcases hv with ⟨s, hs, rfl⟩ | ⟨t, ht, rfl⟩
  · exact hsubjects s hs hend
  · exact hobjects t ht hend

/-- The reference to the gene is named like the first blank node of a pattern. -/
def labelNamedGene : Model where
  subjects := holdingsAndGene "_b1"
  prefixes := plainGene.prefixes
  accepted := by decide +kernel

/-- An entry with two classes, and with a variable that is named like the variable of its class. -/
def classNamedValue : Model where
  subjects := [⟨"Entry", none, false,
    [⟨"a", none, [.uri "ex:Entry" "ex:Entry", .uri "ex:Record" "ex:Record"]⟩,
      ⟨"ex:class", none, [.var "EntryClass"]⟩]⟩]
  prefixes := [("ex", "http://example.org/")]
  accepted := by decide +kernel

/-- The label of the gene is stated of the first holding, and the class of the gene is lost. The
value of an entry is bound to the classes of the entry. -/
theorem labelNamedGene_not_freshNames :
    (let w := generate labelNamedGene.index (some ["value_a", "value_b", "_b1", "gene_label"]) [] {}
    w.lines = ["WHERE \x7b", "    ?Entry a ex:Entry ;", "        ex:has _:b1 ;",
      "        ex:has _:b2 ;", "        ex:gene ?_b1 .", "    _:b1 a ex:A ;",
      "        ex:value ?value_a ;", "        rdfs:label ?gene_label .", "    _:b2 a ex:B ;",
      "        ex:value ?value_b .", "\x7d"] ∧
    ¬ FreshNames (madeNodes labelNamedGene.index w.variableNames) w.draft.typesOf) ∧
    (let w := generate classNamedValue.index (some ["EntryClass"]) [] {}
    w.lines = ["WHERE \x7b", "    VALUES ?EntryClass \x7b ex:Entry ex:Record \x7d",
      "    ?Entry a ?EntryClass ;", "        ex:class ?EntryClass .", "\x7d"] ∧
    ¬ FreshNames (madeNodes classNamedValue.index w.variableNames) w.draft.typesOf) := by
  refine ⟨⟨by decide +kernel, fun h => ?_⟩, by decide +kernel, fun h => ?_⟩
  · exact absurd (h.apart (.blank 1) (by decide +kernel) (.var "_b1") (by decide +kernel) rfl)
      (by decide)
  · exact h.fromVariables (.var "Entry") (by decide +kernel) (by decide +kernel) "EntryClass"
      (by decide +kernel) rfl

end SparqlModel.Pattern
