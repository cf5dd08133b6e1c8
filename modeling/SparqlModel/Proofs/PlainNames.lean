import SparqlModel.Proofs.Drafting

/-!
# Plans over plain names

In a model none of whose names has the form of a blank node's name, nodes with the same name are
the same node. Then no edge of a plan is dropped for the key of another one: the buffers hold the
triples of the plan, and nothing else.
-/

namespace SparqlModel

def Index.IsName (ix : Index) (v : String) : Prop :=
  (∃ s ∈ ix.subjects, s.name = v) ∨ ∃ t ∈ ix.triples, t.object.name = v

namespace Index.IsName

variable {ix : Index}

theorem of_variableFor {s : Subject} (hs : s ∈ ix.subjects) :
    ix.IsName (ix.variableFor s.name) := by
  rcases ix.variableFor_cases s.name with h | ⟨t, ht, h⟩
  · exact Or.inl ⟨s, hs, h.symm⟩
  · exact Or.inr ⟨t, ht, h.symm⟩

theorem of_producer? {name : String} {t : Triple} (h : ix.producer? name = some t) :
    ix.IsName name := by
  by_cases hs : ix.isSubject name
  · exact Or.inl (Index.isSubject_iff.mp hs)
  · exact Or.inr ⟨t, Index.producer?_mem h, Index.producer?_name h hs⟩

end Index.IsName

/-- No subject and no object has a name of the form in which blank nodes are numbered. -/
structure Index.HasPlainNames (ix : Index) : Prop where
  subjects : ∀ s ∈ ix.subjects, Pattern.isBlankLabel s.name = false
  objects : ∀ t ∈ ix.triples, Pattern.isBlankLabel t.object.name = false

theorem Index.HasPlainNames.isPlain {ix : Index} (h : ix.HasPlainNames) {v : String}
    (hv : ix.IsName v) : Pattern.isBlankLabel v = false := by
  rcases hv with ⟨s, hs, rfl⟩ | ⟨t, ht, rfl⟩
  · exact h.subjects s hs
  · exact h.objects t ht

namespace Pattern

/-- A spot that is a blank node or a variable with a name of the model. -/
def Spot.IsNamed (ix : Index) : Spot → Prop
  | var n => ix.IsName n
  | blank _ => True

def Spot.IsPlain : Spot → Prop
  | var n => isBlankLabel n = false
  | blank _ => True

theorem Spot.IsNamed.isPlain {ix : Index} (h : ix.HasPlainNames) {s : Spot} (hs : s.IsNamed ix) :
    s.IsPlain := by
  cases s with
  | var n => exact h.isPlain hs
  | blank key => trivial

theorem Spot.IsPlain.number {s : Spot} (h : s.IsPlain) (keys : List BlankKey) :
    (s.number keys).IsPlain := by
  cases s with
  | var n => exact h
  | blank key => exact Int.natCast_nonneg _

theorem Spot.number_injective {keys : List BlankKey} {s s' : Spot}
    (hs : ∀ key ∈ s.keys, key ∈ keys) (h : s.number keys = s'.number keys) : s = s' := by
  cases s with
  | var n =>
    cases s' with
    | var n' => exact congrArg Spot.var (Node.var.inj h)
    | blank key' => cases h
  | blank key =>
    cases s' with
    | var n' => cases h
    | blank key' =>
      have hk : key ∈ keys := hs key (by simp [Spot.keys])
      have hi : keys.idxOf key = keys.idxOf key' := by
        have := Node.blank.inj h
        omega
      rw [(List.idxOf_inj hk).mp hi]

theorem anchor_mem {m : Model} (names : List String) {t : SparqlModel.Triple}
    (ht : t ∈ m.index.triples) : Draft.anchor m.index names t ∈ m.subjects := by
  unfold Draft.anchor
  dsimp only
  split
  · rename_i s hs
    obtain ⟨name, -, hf⟩ := Option.bind_eq_some_iff.mp hs
    exact (Index.findSubject?_spec hf).1
  · exact m.subject_mem ht

variable {m : Model}

theorem isNamed_rootSpot {t : SparqlModel.Triple} (ht : t ∈ m.index.triples) :
    (rootSpot m.index t).IsNamed m.index :=
  Index.IsName.of_variableFor (m.subject_mem ht)

theorem isNamed_leafStep (names : List String) {t : SparqlModel.Triple}
    (ht : t ∈ m.index.triples) : (leafStep m.index names t).1.IsNamed m.index := by
  unfold leafStep
  split
  · exact Index.IsName.of_variableFor (anchor_mem names ht)
  · exact isNamed_rootSpot ht
  · dsimp only
    rw [linksEnd_eq_getLast]
    cases hl : (links (rootSpot m.index t) [] [] (typedHops m.index t)).getLast? with
    | none => exact isNamed_rootSpot ht
    | some e =>
      obtain ⟨⟨key, hk⟩, -⟩ := links_object (List.mem_of_getLast? hl)
      simp [hk, Spot.IsNamed]

theorem isNamed_of_mem_plan {names : List String} {e : Edge} (he : e ∈ plan m.index names) :
    e.subject.IsNamed m.index ∧ e.object.IsNamed m.index := by
  obtain ⟨name, -, t, hs, he⟩ := mem_plan_iff.mp he
  have hp := (source?_eq_some_iff.mp hs).1
  have ht := Index.producer?_mem hp
  rcases he with he | rfl
  · obtain ⟨-, he⟩ := mem_linkEdges he
    obtain ⟨⟨key, hk⟩, -⟩ := links_object he
    refine ⟨?_, by rw [hk]; trivial⟩
    rcases links_subject he with h | ⟨key', h⟩
    · rw [h]
      exact isNamed_rootSpot ht
    · rw [h]
      trivial
  · exact ⟨isNamed_leafStep names ht, Index.IsName.of_producer? hp⟩

section

variable (hm : m.index.HasPlainNames)
include hm

theorem isPlain_of_mem_plan {names : List String} {e : Edge} (he : e ∈ plan m.index names) :
    e.subject.IsPlain ∧ e.object.IsPlain :=
  (isNamed_of_mem_plan he).imp (Spot.IsNamed.isPlain hm) (Spot.IsNamed.isPlain hm)

theorem triple_eq_of_key_eq {names : List String} {e e' : Edge} (he : e ∈ plan m.index names)
    (he' : e' ∈ plan m.index names) {keys : List BlankKey}
    (h : (e.triple keys).key = (e'.triple keys).key) : e.triple keys = e'.triple keys := by
  obtain ⟨hs, ho⟩ := isPlain_of_mem_plan hm he
  obtain ⟨hs', ho'⟩ := isPlain_of_mem_plan hm he'
  simp only [Triple.key, Edge.triple, Prod.mk.injEq] at h
  have hsubject := Node.eq_of_name_eq (hs.number keys) (hs'.number keys) h.1
  have hobject := Node.eq_of_name_eq (ho.number keys) (ho'.number keys) h.2.2
  simp only [Edge.triple, hsubject, h.2.1, hobject]

/-- No edge of a plan is lost. -/
theorem triple_mem_buffered {names : List String} {e : Edge} (he : e ∈ plan m.index names) :
    e.triple (Draft.traced m.index names).blanks ∈
      (Draft.traced m.index names).buffered e.isOptional := by
  have hmem : e.triple (Draft.traced m.index names).blanks ∈
      ((plan m.index names).filter fun e' => e'.isOptional == e.isOptional).map
        (·.triple (Draft.traced m.index names).blanks) :=
    List.mem_map_of_mem (List.mem_filter.mpr ⟨he, by simp⟩)
  obtain ⟨u, hu, hkey⟩ := Draft.exists_mem_buffer hmem
  rw [← (Draft.traced_shows m.index names).buffered] at hu
  obtain ⟨e', he', -, rfl⟩ := Draft.exists_edge_of_mem hu
  rwa [triple_eq_of_key_eq hm he he' hkey.symm]

/-- The pattern of a request shows every edge of its plan. -/
theorem triple_mem_ofVariables {names : List String} {e : Edge} (he : e ∈ plan m.index names) :
    e.triple (Draft.traced m.index names).blanks ∈
      (Draft.ofVariables m.index names).buffered e.isOptional :=
  Draft.mem_ofVariables (triple_mem_buffered hm he)

end

end Pattern

end SparqlModel
