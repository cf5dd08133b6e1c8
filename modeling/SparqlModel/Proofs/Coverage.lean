import SparqlModel.Proofs.PlainNames

/-!
# Every requested variable is drawn once

After the type triples have been put in front, the buffers hold one triple for each variable that
is drawn from a triple of the model, in the buffer that the cardinality of its last predicate asks
for. All other triples are required links to blank nodes.
-/

namespace SparqlModel.Pattern

variable {ix : Index} {names : List String} {name : String} {t : SparqlModel.Triple}

theorem eq_leafEdge_of_object {e : Edge} (hs : source? ix name = some t) (he : e ∈ plan ix names)
    (ho : e.object = .var name) : e = leafEdge ix names name t := by
  obtain ⟨name', -, t', hs', he⟩ := mem_plan_iff.mp he
  rcases he with he | rfl
  · obtain ⟨⟨key, hk⟩, -⟩ := links_object (mem_linkEdges he).2
    rw [ho] at hk
    cases hk
  · obtain rfl : name' = name := Spot.var.inj ho
    obtain rfl : t' = t := Option.some.inj (hs'.symm.trans hs)
    rfl

theorem Spot.eq_var_of_number_eq {s : Spot} {keys : List BlankKey}
    (h : s.number keys = .var name) : s = .var name := by
  cases s with
  | var n => exact congrArg Spot.var (Node.var.inj h)
  | blank key => cases h

/-- A triple that ends at a drawn variable is the triple of its leaf edge, in the buffer of that
edge. -/
theorem eq_leaf_of_object {u : Triple} {o : Bool} (hs : source? ix name = some t)
    (hu : u ∈ (Draft.traced ix names).buffered o) (ho : u.object = .var name) :
    u = (leafEdge ix names name t).triple (Draft.traced ix names).blanks ∧
      o = t.predicate.isOptional := by
  obtain ⟨e, he, rfl, rfl⟩ := Draft.exists_edge_of_mem hu
  have hleaf := eq_leafEdge_of_object hs he (Spot.eq_var_of_number_eq ho)
  exact ⟨by rw [hleaf], by rw [hleaf]; rfl⟩

theorem filter_object (m : Model) (hm : m.index.HasPlainNames) (hn : name ∈ names)
    (hs : source? m.index name = some t) (o : Bool) :
    ((Draft.traced m.index names).buffered o).filter (fun u => u.object = .var name) =
      if o = t.predicate.isOptional then
        [(leafEdge m.index names name t).triple (Draft.traced m.index names).blanks]
      else [] := by
  split_ifs with ho
  · have hmem := triple_mem_buffered hm (leafEdge_mem_plan hn hs)
    have hnodup := (Draft.nodup_keys_traced m.index names o).of_map
    apply eq_singleton_of_nodup (hnodup.filter _)
    · exact List.mem_filter.mpr ⟨ho ▸ hmem, by simp [Edge.triple, leafEdge, Spot.number]⟩
    · intro u hu
      obtain ⟨hu, hobj⟩ := List.mem_filter.mp hu
      exact (eq_leaf_of_object hs hu (by simpa using hobj)).1
  · rw [List.filter_eq_nil_iff]
    intro u hu hobj
    exact ho (eq_leaf_of_object hs hu (by simpa using hobj)).2

/-- What the buffers of a request hold before the type triples are put in front. -/
structure Covers (ix : Index) (names : List String) (required optional : List Triple) : Prop where
  /-- A drawn variable ends exactly one triple, which is optional if and only if the last predicate
  has a cardinality without a positive least number. -/
  once : ∀ name ∈ names, ∀ t, ix.producer? name = some t → t.subject.name ≠ name →
    ∃ u, (required ++ optional).filter (fun u => u.object = .var name) = [u] ∧
      (u ∈ optional ↔
        ∃ c, t.predicate.cardinality = some c ∧ (c.min = none ∨ c.min = some 0))
  /-- A required triple ends at a drawn variable or at a blank node. -/
  required_object : ∀ u ∈ required, (∃ k, u.object = .blank k) ∨
    ∃ name ∈ names, ∃ t, ix.producer? name = some t ∧ t.subject.name ≠ name ∧ u.object = .var name
  /-- An optional triple ends at a drawn variable. -/
  optional_object : ∀ u ∈ optional,
    ∃ name ∈ names, ∃ t, ix.producer? name = some t ∧ t.subject.name ≠ name ∧ u.object = .var name
  required_keys : (required.map (·.key)).Nodup
  optional_keys : (optional.map (·.key)).Nodup

theorem isOptional_iff (p : Predicate) :
    p.isOptional = true ↔ ∃ c, p.cardinality = some c ∧ (c.min = none ∨ c.min = some 0) := by
  unfold Predicate.isOptional
  cases p.cardinality <;> simp [Cardinality.isOptional]

/-- A triple ends at a drawn variable, or it is a required link. -/
theorem object_cases {u : Triple} {o : Bool} (hu : u ∈ (Draft.traced ix names).buffered o) :
    ((∃ k, u.object = .blank k) ∧ o = false) ∨
      ∃ name ∈ names, ∃ t, ix.producer? name = some t ∧ t.subject.name ≠ name ∧
        u.object = .var name := by
  obtain ⟨e, he, rfl, rfl⟩ := Draft.exists_edge_of_mem hu
  obtain ⟨name, hn, t, hs, he⟩ := mem_plan_iff.mp he
  rcases he with he | rfl
  · obtain ⟨⟨key, hk⟩, hopt⟩ := links_object (mem_linkEdges he).2
    exact Or.inl ⟨⟨_, by rw [Edge.triple, hk]; rfl⟩, hopt⟩
  · obtain ⟨hp, hne⟩ := source?_eq_some_iff.mp hs
    exact Or.inr ⟨name, hn, t, hp, hne, rfl⟩

/-- The draft of any request covers it. -/
theorem traced_covers (m : Model) (hm : m.index.HasPlainNames) (names : List String) :
    Covers m.index names (Draft.traced m.index names).required
      (Draft.traced m.index names).optional where
  once := by
    intro name hn t hp hne
    have hs := source?_eq_some_iff.mpr ⟨hp, hne⟩
    have hreq := filter_object m hm hn hs false
    have hopt := filter_object m hm hn hs true
    have hleaf := triple_mem_buffered hm (leafEdge_mem_plan hn hs)
    refine ⟨(leafEdge m.index names name t).triple (Draft.traced m.index names).blanks, ?_, ?_⟩
    · change List.filter _ ((Draft.traced m.index names).buffered false ++
        (Draft.traced m.index names).buffered true) = _
      rw [List.filter_append, hreq, hopt]
      cases t.predicate.isOptional <;> simp
    · rw [← isOptional_iff]
      constructor
      · intro hu
        exact (eq_leaf_of_object hs (o := true) hu rfl).2.symm
      · intro ho
        rwa [leafEdge, ho] at hleaf
  required_object u hu := (object_cases (o := false) hu).imp_left And.left
  optional_object u hu := (object_cases (o := true) hu).resolve_left fun h => Bool.noConfusion h.2
  required_keys := Draft.nodup_keys_traced m.index names false
  optional_keys := Draft.nodup_keys_traced m.index names true

/-- Coverage and partition of the generated pattern. Apart from the type triples in front, it holds
one triple for each drawn variable, in the buffer that the variable asks for, and otherwise only
required links to blank nodes. -/
theorem generate_covers (m : Model) (hm : m.index.HasPlainNames)
    (request : Option (List String)) (parameters : Parameters) (options : Options) :
    let w := generate m.index request parameters options
    let body := Draft.traced m.index w.variableNames
    (∃ types, w.draft.required = types ++ body.required ∧
      ∀ u ∈ types, u.predicate = "a" ∧ u.object = u.subject) ∧
    w.draft.optional = body.optional ∧
    Covers m.index w.variableNames body.required body.optional := by
  intro w body
  obtain ⟨hrequired, hoptional, -⟩ := Draft.addTypes_spec m.index w.variableNames body
  exact ⟨hrequired, hoptional, traced_covers m hm w.variableNames⟩

/-- An entry that holds two blank nodes of different classes. The value of the first one is
optional. -/
def twoHoldings : Model where
  subjects := [⟨"Entry", none, false,
    [⟨"a", none, [.uri "ex:Entry" "ex:Entry"]⟩,
      ⟨"ex:has", none, [.blank ⟨blankName, none, true,
        [⟨"a", none, [.uri "ex:A" "ex:A"]⟩,
          ⟨"ex:value", some ⟨some 0, some 1⟩, [.var "value_a"]⟩]⟩]⟩,
      ⟨"ex:has", none, [.blank ⟨blankName, none, true,
        [⟨"a", none, [.uri "ex:B" "ex:B"]⟩, ⟨"ex:value", none, [.var "value_b"]⟩]⟩]⟩]⟩]
  prefixes := [("ex", "http://example.org/")]
  accepted := by decide +kernel

theorem twoHoldings_plain : twoHoldings.index.HasPlainNames :=
  ⟨by decide +kernel, by decide +kernel⟩

theorem generate_covers_twoHoldings :
    twoHoldings.index.HasPlainNames ∧
      let w := generate twoHoldings.index (some ["value_a", "value_b"]) [] {}
      let body := Draft.traced twoHoldings.index w.variableNames
      body.required = [⟨.var "Entry", "ex:has", .blank 1⟩, ⟨.var "Entry", "ex:has", .blank 2⟩,
        ⟨.blank 2, "ex:value", .var "value_b"⟩] ∧
      body.optional = [⟨.blank 1, "ex:value", .var "value_a"⟩] ∧
      Covers twoHoldings.index w.variableNames body.required body.optional :=
  ⟨twoHoldings_plain, by decide +kernel, by decide +kernel,
    (generate_covers twoHoldings twoHoldings_plain (some ["value_a", "value_b"]) [] {}).2.2⟩

end SparqlModel.Pattern
