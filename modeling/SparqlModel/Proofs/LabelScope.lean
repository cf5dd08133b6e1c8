import SparqlModel.Proofs.Coverage
import SparqlModel.Proofs.Rows

/-!
# The scope of blank node labels

All required lines make one basic graph pattern, and each optional group makes one of its own. A
label may occur in one of them only. Links to blank nodes are always required. Hence the labels of a
block keep to one pattern as long as no variable that is reached through a numbered blank node is
optional, and no longer.
-/

namespace SparqlModel

/-- No predicate that states a class leads to a blank node. -/
def Index.HasPlainHops (ix : Index) : Prop :=
  ∀ t ∈ ix.triples, ∀ s ∈ t.hops, s.predicate.isType = false

namespace Pattern

/-- No blank node occurs in two basic graph patterns: the required lines together, and the optional
groups one by one. -/
def LabelScope (required optional : List Line) : Prop :=
  (required.flatten :: optional).Pairwise fun p q =>
    ∀ k, Piece.node (.blank k) ∈ p → Piece.node (.blank k) ∉ q

/-- Every variable that is reached through numbered blank nodes is required. -/
def ExpandedAreRequired (ix : Index) (names : List String) : Prop :=
  ∀ name ∈ names, ∀ t, source? ix name = some t → rendering ix names t = .expanded →
    t.predicate.isOptional = false

variable {ix : Index} {names : List String}

theorem leafStep_eq_var {t : SparqlModel.Triple} (h : rendering ix names t ≠ .expanded) :
    ∃ n, (leafStep ix names t).1 = .var n := by
  unfold leafStep
  split
  · exact ⟨_, rfl⟩
  · exact ⟨_, rfl⟩
  · exact absurd ‹_› h

theorem ExpandedAreRequired.optional_nodes (h : ExpandedAreRequired ix names) {u : Triple}
    (hu : u ∈ (Draft.traced ix names).optional) :
    (∃ n, u.subject = .var n) ∧ ∃ n, u.object = .var n := by
  obtain ⟨e, he, hopt, rfl⟩ := Draft.exists_edge_of_mem (o := true) hu
  obtain ⟨name, hn, t, hs, he⟩ := mem_plan_iff.mp he
  rcases he with he | rfl
  · have hreq := (links_object (mem_linkEdges he).2).2
    rw [hreq] at hopt
    cases hopt
  · have hr : rendering ix names t ≠ .expanded := by
      intro hr
      have hfalse : t.predicate.isOptional = false := h name hn t hs hr
      exact Bool.false_ne_true (hfalse.symm.trans hopt)
    obtain ⟨n, hleaf⟩ := leafStep_eq_var hr
    exact ⟨⟨n, by simp [Edge.triple, leafEdge, hleaf, Spot.number]⟩, ⟨name, rfl⟩⟩

theorem ExpandedAreRequired.labelScope (h : ExpandedAreRequired ix names) (indent : String) :
    LabelScope (requiredPieces (Draft.ofVariables ix names) indent)
      (optionalPieces (Draft.ofVariables ix names) indent) := by
  have hoptional := (Draft.addTypes_spec ix names (Draft.traced ix names)).2.1
  have hnone : ∀ l ∈ optionalPieces (Draft.ofVariables ix names) indent, ∀ k,
      Piece.node (.blank k) ∉ l := by
    intro l hl k hk
    obtain ⟨u, hu, rfl⟩ := List.mem_map.mp hl
    rw [Draft.ofVariables_eq, hoptional] at hu
    obtain ⟨⟨n, hsubject⟩, ⟨n', hobject⟩⟩ := h.optional_nodes hu
    have hline : Piece.node (.blank k) ∈ u.line
        ((Draft.ofVariables ix names).typesOf u.object) "" true true := by
      simpa [optionalLine, Row.line] using hk
    rcases Triple.eq_of_blank_mem_line hline with hb | hb
    · rw [hsubject] at hb
      cases hb
    · rw [hobject] at hb
      cases hb
  rw [LabelScope, List.pairwise_cons]
  refine ⟨fun q hq k _ => hnone q hq k, ?_⟩
  exact List.pairwise_of_forall_mem_list fun p hp q hq k _ => hnone q hq k

variable {m : Model} {t : SparqlModel.Triple}

theorem exists_typed_hop (h : rendering m.index names t = .expanded) :
    ∃ hop ∈ typedHops m.index t, hop.2.isSome := by
  unfold rendering at h
  split_ifs at h with hb ht
  obtain ⟨types, hmem, hsome⟩ : ∃ types ∈ m.index.blankTypes t, types.isSome := by
    simpa [Option.isSome_iff_ne_none] using ht
  obtain ⟨i, hi, rfl⟩ := List.getElem_of_mem hmem
  have hlen : (m.index.blankTypes t).length = t.hops.length := by simp [Index.blankTypes]
  have hi' : i < t.hops.length := hlen ▸ hi
  have hz : i < (typedHops m.index t).length := by
    rw [typedHops, List.length_zip]
    omega
  refine ⟨(typedHops m.index t)[i], List.getElem_mem hz, ?_⟩
  simpa [typedHops] using hsome

theorem isTypeUri_intercalate {uri : String} (h : isTypeUri uri = false) (pending : List String) :
    isTypeUri (pathSeparator.intercalate (pending ++ [uri])) = false := by
  cases pending with
  | nil => simpa using h
  | cons first rest =>
    have hslash : '/' ∈ (pathSeparator.intercalate (first :: rest ++ [uri])).toList := by
      rw [String.intercalate_append_of_ne_nil (by simp) (by simp)]
      simp [pathSeparator]
    simp only [isTypeUri, Bool.or_eq_false_iff, beq_eq_false_iff_ne]
    constructor
    · intro he
      rw [he] at hslash
      exact absurd hslash (by decide)
    · intro he
      rw [he] at hslash
      exact absurd hslash (by decide)

theorem isTypeUri_links {node : Spot} {route pending : List String}
    {hops : List (Step × Option (List String))}
    (hplain : ∀ hop ∈ hops, hop.1.predicate.isType = false) {e : Edge}
    (he : e ∈ links node route pending hops) : isTypeUri e.predicate = false := by
  induction hops generalizing node route pending with
  | nil => simp [links] at he
  | cons hop rest ih =>
    obtain ⟨step, types⟩ := hop
    have hrest : ∀ hop ∈ rest, hop.1.predicate.isType = false :=
      fun hop hm => hplain hop (List.mem_cons_of_mem _ hm)
    cases types with
    | none => exact ih hrest he
    | some types =>
      rcases List.mem_cons.mp he with rfl | he
      · exact isTypeUri_intercalate (hplain _ List.mem_cons_self) pending
      · exact ih hrest he

theorem exists_link_to_leaf {name : String} (hn : name ∈ names)
    (hs : source? m.index name = some t) (hr : rendering m.index names t = .expanded) :
    ∃ e ∈ plan m.index names, e ∈ links (rootSpot m.index t) [] [] (typedHops m.index t) ∧
      e.object = (leafStep m.index names t).1 := by
  have hne := links_ne_nil (exists_typed_hop hr) (rootSpot m.index t) [] []
  obtain ⟨e, hlast⟩ := Option.isSome_iff_exists.mp (List.getLast?_isSome.mpr hne)
  have he := List.mem_of_getLast? hlast
  refine ⟨e, mem_plan_iff.mpr ⟨name, hn, t, hs, Or.inl ?_⟩, he, ?_⟩
  · simpa [linkEdges, hr] using he
  · simp [leafStep, hr, linksEnd_eq_getLast, hlast]

/-- A required link shows its blank node in the required lines, and an optional leaf shows it in a
group of its own. -/
theorem ExpandedAreRequired.of_labelScope (hm : m.index.HasPlainNames)
    (hhops : m.index.HasPlainHops) {indent : String}
    (h : LabelScope (requiredPieces (Draft.ofVariables m.index names) indent)
      (optionalPieces (Draft.ofVariables m.index names) indent)) :
    ExpandedAreRequired m.index names := by
  intro name hn t hs hr
  by_contra hopt
  rw [Bool.not_eq_false] at hopt
  obtain ⟨e, heplan, he, hobject⟩ := exists_link_to_leaf hn hs hr
  obtain ⟨⟨key, hkey⟩, hreq⟩ := links_object he
  have hlink := triple_mem_ofVariables hm heplan
  rw [hreq] at hlink
  have htype : (e.triple (Draft.traced m.index names).blanks).isType = false := by
    have ht := Index.producer?_mem (source?_eq_some_iff.mp hs).1
    exact isTypeUri_links (fun hop hm => hhops t ht hop.1 (List.of_mem_zip hm).1) he
  have hshown := node_object_mem_required indent hlink htype
  have hleaf := triple_mem_ofVariables hm (leafEdge_mem_plan hn hs)
  rw [show (leafEdge m.index names name t).isOptional = true from hopt] at hleaf
  obtain ⟨l, hl, hshown'⟩ := exists_group_of_optional indent hleaf
  have hblank : e.object.number (Draft.traced m.index names).blanks =
      .blank ((Draft.traced m.index names).blanks.idxOf key + 1 : ℕ) := by
    rw [hkey, Spot.number]
  simp only [Edge.triple, leafEdge, ← hobject, hblank] at hshown hshown'
  exact (List.pairwise_cons.mp h).1 l hl _ hshown hshown'

/-- The scope of the labels in a block. Its lines are `VALUES` lines, required lines and optional
groups. A label keeps to one basic graph pattern if every variable that is reached through numbered
blank nodes is required, and over plain names only then. -/
theorem generate_labelScope (m : Model) (request : Option (List String)) (parameters : Parameters)
    (options : Options) :
    let w := generate m.index request parameters options
    let required := requiredPieces w.draft options.indentUnit
    let optional := optionalPieces w.draft options.indentUnit
    (∃ values, (∀ l ∈ values, IsValuesLine options.indentUnit l) ∧
      w.lines = "WHERE \x7b" :: values ++ required.map Line.text ++ optional.map Line.text
        ++ ["\x7d"]) ∧
    (ExpandedAreRequired m.index w.variableNames → LabelScope required optional) ∧
    (m.index.HasPlainNames → m.index.HasPlainHops →
      (LabelScope required optional ↔ ExpandedAreRequired m.index w.variableNames)) := by
  intro w required optional
  refine ⟨generate_lines m.index request parameters options, fun h => h.labelScope _, ?_⟩
  intro hm hhops
  exact ⟨ExpandedAreRequired.of_labelScope hm hhops, fun h => h.labelScope _⟩

/-- An entry that holds two blank nodes of one class. -/
def sameHoldings : Model where
  subjects := [⟨"Entry", none, false, [⟨"a", none, [.uri "ex:Entry" "ex:Entry"]⟩,
    ⟨"ex:has", none, [.blank ⟨blankName, none, true,
      [⟨"a", none, [.uri "ex:A" "ex:A"]⟩, ⟨"ex:value", none, [.var "value_a"]⟩]⟩]⟩,
    ⟨"ex:has", none, [.blank ⟨blankName, none, true,
      [⟨"a", none, [.uri "ex:A" "ex:A"]⟩, ⟨"ex:value", none, [.var "value_b"]⟩]⟩]⟩]⟩]
  prefixes := [("ex", "http://example.org/")]
  accepted := by decide +kernel

theorem sameHoldings_plain :
    sameHoldings.index.HasPlainNames ∧ sameHoldings.index.HasPlainHops := by
  unfold Index.HasPlainHops
  exact ⟨⟨by decide +kernel, by decide +kernel⟩, by decide +kernel⟩

theorem generate_labelScope_sameHoldings :
    let w := generate sameHoldings.index (some ["value_a", "value_b"]) [] {}
    w.lines = ["WHERE \x7b", "    ?Entry a ex:Entry ;", "        ex:has _:b1 .",
      "    _:b1 a ex:A ;", "        ex:value ?value_a ;", "        ex:value ?value_b .", "\x7d"] ∧
    sameHoldings.index.HasPlainNames ∧ sameHoldings.index.HasPlainHops ∧
    ExpandedAreRequired sameHoldings.index w.variableNames ∧
    LabelScope (requiredPieces w.draft "    ") (optionalPieces w.draft "    ") := by
  intro w
  have hrequired : ∀ name ∈ w.variableNames, (source? sameHoldings.index name).all
      (fun t => !t.predicate.isOptional) = true := by decide +kernel
  have hexpanded : ExpandedAreRequired sameHoldings.index w.variableNames := by
    intro name hn t hs _
    have h := hrequired name hn
    rw [hs] at h
    simpa using h
  have h := (generate_labelScope sameHoldings (some ["value_a", "value_b"]) [] {}).2.2
    sameHoldings_plain.1 sameHoldings_plain.2
  exact ⟨by decide +kernel, sameHoldings_plain.1, sameHoldings_plain.2, hexpanded,
    h.mpr hexpanded⟩

/-- The label of the first holding occurs in the required lines and in an optional group. -/
theorem twoHoldings_not_labelScope :
    let w := generate twoHoldings.index (some ["value_a", "value_b"]) [] {}
    w.lines = ["WHERE \x7b", "    ?Entry a ex:Entry ;", "        ex:has _:b1 ;",
      "        ex:has _:b2 .", "    _:b2 a ex:B ;", "        ex:value ?value_b .",
      "    _:b1 a ex:A .", "    OPTIONAL \x7b _:b1 ex:value ?value_a . \x7d", "\x7d"] ∧
    ¬ LabelScope (requiredPieces w.draft "    ") (optionalPieces w.draft "    ") := by
  intro w
  refine ⟨by decide +kernel, ?_⟩
  intro h
  have hgroup : [.text "    OPTIONAL \x7b ", .text "", .node (.blank 1), .text " ",
      .text "ex:value ", .node (.var "value_a"), .text " .", .text " \x7d"] ∈
      optionalPieces w.draft "    " := by decide +kernel
  have hlink : Piece.node (.blank 1) ∈ (requiredPieces w.draft "    ").flatten := by
    decide +kernel
  exact (List.pairwise_cons.mp h).1 _ hgroup 1 hlink (by simp)

end Pattern

end SparqlModel
