import SparqlModel.Proofs.Expansion
import SparqlModel.Proofs.TypeTriples

/-!
# The classes of nodes

The classes of a variable are those of a subject at which a route starts, or those of the subjects
to which the variable refers, and a blank node has the classes of its key. Hence no node has a class
twice, and all classes are declared in the model.
-/

namespace SparqlModel.Pattern

theorem startSubject_mem {m : Model} (names : List String) {t : SparqlModel.Triple}
    (ht : t ∈ m.index.triples) : startSubject m.index names t ∈ m.subjects := by
  unfold startSubject
  split
  · exact anchor_mem names ht
  · exact m.subject_mem ht

namespace Draft

theorem exists_key_of_typesOf_blank {d : Draft} {k : Int} (h : d.typesOf (.blank k) ≠ []) :
    ∃ key ∈ d.blanks, d.typesOf (.blank k) = key.types := by
  simp only [typesOf] at h ⊢
  split_ifs at h ⊢ with hk
  · exact absurd rfl h
  · cases hkey : d.blanks[(k - 1).toNat]? with
    | none =>
      rw [hkey] at h
      exact absurd rfl h
    | some key => exact ⟨key, List.mem_of_getElem? hkey, rfl⟩

theorem typesOf_addTypes_blank (ix : Index) (names : List String) (d : Draft) (k : Int) :
    (d.addTypes ix names).typesOf (.blank k) = d.typesOf (.blank k) := by
  unfold typesOf
  rw [(addTypes_spec ix names d).2.2]

theorem nodup_typesOf (ix : Index) (names : List String) (n : Node) :
    ((ofVariables ix names).typesOf n).Nodup := by
  cases n with
  | var v =>
    rw [ofVariables_eq, typesOf_addTypes, typesOf_traced]
    split_ifs
    · exact nodup_distinct _
    · cases (classGivers ix names names v).getLast? with
      | none => exact List.nodup_nil
      | some s => exact nodup_distinct s.types
  | blank k =>
    by_cases hnil : (ofVariables ix names).typesOf (.blank k) = []
    · rw [hnil]
      exact List.nodup_nil
    · obtain ⟨key, hkey, htypes⟩ := exists_key_of_typesOf_blank hnil
      rw [blanks_ofVariables, mem_blanks_iff] at hkey
      obtain ⟨name, t, -, i, -, rfl⟩ := hkey
      rw [htypes]
      exact nodup_distinct _

end Draft

variable {m : Model} {names : List String}

/-- A name that is declared as a class: of a subject of the model, or in a triple. -/
def IsClass (m : Model) (c : String) : Prop :=
  (∃ s ∈ m.subjects, c ∈ s.types) ∨
    ∃ t ∈ m.index.triples, t.predicate.isType = true ∧ t.object.name = c

theorem isClass_of_referencedTypes {v c : String}
    (hc : c ∈ Draft.referencedTypes m.index v) : IsClass m c := by
  unfold Draft.referencedTypes at hc
  split at hc
  · simp at hc
  · obtain ⟨name, -, hc⟩ := List.mem_flatMap.mp hc
    cases hs : m.index.findSubject? name with
    | none => simp [hs] at hc
    | some s => exact Or.inl ⟨s, (Index.findSubject?_spec hs).1, by simpa [hs] using hc⟩

theorem isClass_of_typesAtHop {t : SparqlModel.Triple} {i : ℕ} {c : String}
    (hc : c ∈ (m.index.typesAtHop t i).getD []) : IsClass m c := by
  have hdeclared : ∃ u ∈ m.index.typeTriples t i, u.object.name = c := by
    unfold Index.typesAtHop at hc
    split at hc
    · simp at hc
    · rw [Option.getD_some, mem_distinct] at hc
      obtain ⟨u, hu, hc⟩ := List.mem_flatMap.mp hc
      obtain ⟨b, -, rfl⟩ := List.mem_map.mp hc
      exact ⟨u, hu, rfl⟩
  obtain ⟨u, hu, rfl⟩ := hdeclared
  obtain ⟨hu, ht⟩ := List.mem_filter.mp hu
  exact Or.inr ⟨u, hu, (Bool.and_eq_true _ _ ▸ ht).2, rfl⟩

theorem isClass_of_mem_typesOf {n : Node} {c : String}
    (hc : c ∈ (Draft.ofVariables m.index names).typesOf n) : IsClass m c := by
  cases n with
  | var v =>
    rw [Draft.ofVariables_eq, Draft.typesOf_addTypes, Draft.typesOf_traced] at hc
    split_ifs at hc
    · exact isClass_of_referencedTypes (mem_distinct.mp hc)
    · cases hl : (classGivers m.index names names v).getLast? with
      | none => simp [hl] at hc
      | some s =>
        obtain ⟨⟨name, -, t, ht, rfl⟩, -⟩ := mem_classGivers.mp (List.mem_of_getLast? hl)
        have hmem := Index.producer?_mem (source?_eq_some_iff.mp ht).1
        exact Or.inl ⟨_, startSubject_mem names hmem, by simpa [hl] using hc⟩
  | blank k =>
    obtain ⟨key, hkey, htypes⟩ := Draft.exists_key_of_typesOf_blank (List.ne_nil_of_mem hc)
    rw [Draft.blanks_ofVariables, mem_blanks_iff] at hkey
    obtain ⟨name, t, -, i, -, rfl⟩ := hkey
    rw [htypes] at hc
    exact isClass_of_typesAtHop (mem_distinct.mp hc)

section

variable (hm : m.index.HasPlainNames)
include hm

/-- The subjects of a draft are the nodes at which the edges of its plan start. -/
theorem mem_subjects_iff {n : Node} : n ∈ (Draft.traced m.index names).subjects ↔
    ∃ e ∈ plan m.index names, e.subject.number (Draft.traced m.index names).blanks = n := by
  constructor
  · intro hn
    obtain ⟨u, hu, rfl⟩ := Draft.exists_of_mem_subjectsOf hn
    obtain ⟨o, hu⟩ := Draft.mem_append_iff.mp hu
    obtain ⟨e, he, -, rfl⟩ := Draft.exists_edge_of_mem hu
    exact ⟨e, he, rfl⟩
  · rintro ⟨e, he, rfl⟩
    have hu := Draft.mem_append_iff.mpr ⟨_, triple_mem_buffered hm he⟩
    obtain ⟨n, hn, hname⟩ := Draft.exists_mem_subjectsOf hu
    obtain ⟨u, hu, rfl⟩ := Draft.exists_of_mem_subjectsOf hn
    obtain ⟨o, hu⟩ := Draft.mem_append_iff.mp hu
    obtain ⟨e', he', -, rfl⟩ := Draft.exists_edge_of_mem hu
    have heq := Node.eq_of_name_eq ((isPlain_of_mem_plan hm he').1.number _)
      ((isPlain_of_mem_plan hm he).1.number _) hname
    exact heq ▸ hn

theorem isPlain_of_referencedTypes {v : String} (h : Draft.referencedTypes m.index v ≠ []) :
    isBlankLabel v = false := by
  unfold Draft.referencedTypes at h
  split at h
  · exact absurd rfl h
  · exact hm.isPlain (Index.IsName.of_producer? ‹_›)

/-- A type triple belongs to a subject with classes, or to a requested variable that is no subject
and refers to subjects with classes. -/
theorem mem_typedNodes {n : Node} :
    n ∈ Draft.typedNodes m.index names (Draft.traced m.index names) ↔
      (n ∈ (Draft.traced m.index names).subjects ∧ (Draft.traced m.index names).typesOf n ≠ []) ∨
      ∃ v ∈ names, n = .var v ∧ .var v ∉ (Draft.traced m.index names).subjects ∧
        Draft.referencedTypes m.index v ≠ [] := by
  rw [Draft.typedNodes, List.mem_append, List.mem_filter, List.mem_map]
  apply or_congr
  · simp
  · simp only [Draft.classedNames, Draft.otherNames, List.mem_filter, Bool.not_eq_true',
      List.isEmpty_eq_false_iff]
    constructor
    · rintro ⟨v, ⟨⟨hv, hother⟩, htypes⟩, rfl⟩
      refine ⟨v, hv, rfl, fun hs => ?_, htypes⟩
      have := List.any_eq_false.mp hother (.var v) hs
      simp [Node.name] at this
    · rintro ⟨v, hv, rfl, hs, htypes⟩
      refine ⟨v, ⟨⟨hv, List.any_eq_false.mpr fun n hn => ?_⟩, htypes⟩, rfl⟩
      rw [beq_iff_eq]
      intro hname
      have hlabel := isPlain_of_referencedTypes hm htypes
      exact hs ((Draft.mem_subjects_traced_iff hlabel).mpr ⟨n, hn, hname⟩)

theorem mem_ofVariables_iff {o : Bool} {u : Triple} :
    u ∈ (Draft.ofVariables m.index names).buffered o ↔
      (o = false ∧ ∃ n ∈ Draft.typedNodes m.index names (Draft.traced m.index names),
        Draft.typeTriple n = u) ∨
      ∃ e ∈ plan m.index names, e.isOptional = o ∧
        e.triple (Draft.traced m.index names).blanks = u := by
  have hedge : u ∈ (Draft.traced m.index names).buffered o ↔ ∃ e ∈ plan m.index names,
      e.isOptional = o ∧ e.triple (Draft.traced m.index names).blanks = u := by
    constructor
    · exact Draft.exists_edge_of_mem
    · rintro ⟨e, he, rfl, rfl⟩
      exact triple_mem_buffered hm he
  rw [← hedge]
  cases o with
  | true =>
    have hoptional := (Draft.addTypes_spec m.index names (Draft.traced m.index names)).2.1
    rw [show (Draft.ofVariables m.index names).buffered true =
      (Draft.traced m.index names).buffered true from hoptional]
    simp
  | false =>
    have hrequired := Draft.required_addTypes m.index names (Draft.traced m.index names)
    rw [show (Draft.ofVariables m.index names).buffered false = _ from hrequired, List.mem_append,
      List.mem_map]
    simp [Draft.buffered]

end

end SparqlModel.Pattern
