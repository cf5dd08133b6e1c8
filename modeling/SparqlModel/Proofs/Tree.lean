import Mathlib.Logic.Relation
import SparqlModel.Proofs.LabelScope
import SparqlModel.Proofs.Route

/-!
# Trees of subjects

The references of a model may form a tree: one subject at the root, every other one below the only
object that refers to it. Then the step up from a name is well founded, every climb ends at the
root, and the anchor of a variable is the root or a subject whose variable is requested.
-/

namespace SparqlModel.Index

open Relation

/-- One step up leads from a name to another. -/
def Up (ix : Index) (a b : String) : Prop :=
  ix.parent? a = some b

variable {ix : Index} {free : List String} {name : String}

theorem up_of_mem_climb {s : String} (h : s ∈ ix.climb free name) : TransGen ix.Up name s := by
  fun_induction climb ix free name with
  | case1 => simp at h
  | case2 free name up hup hfree ih =>
    rcases List.mem_cons.mp h with rfl | h
    · exact .single hup
    · exact .head hup (ih h)
  | case3 => simp at h

/-- A climb that never meets a name twice goes on until no step leads further. -/
theorem parent?_getLast_climb (hacyclic : ∀ z, ¬TransGen ix.Up z z)
    (hfree : ∀ z, TransGen ix.Up name z → z ∈ free) :
    ∀ s, (name :: ix.climb free name).getLast? = some s → ix.parent? s = none := by
  fun_induction climb ix free name with
  | case1 free name hnone =>
    intro s hs
    rwa [← Option.some.inj hs]
  | case2 free name up hup hmem ih =>
    intro s hs
    apply ih _ s (by rwa [List.getLast?_cons_cons] at hs)
    intro z hz
    have hne : z ≠ up := by
      rintro rfl
      exact hacyclic z hz
    exact (List.mem_erase_of_ne hne).mpr (hfree z (.head hup hz))
  | case3 free name up hup hmem => exact absurd (hfree up (.single hup)) hmem

theorem up_variableFor (ix : Index) (s : String) :
    ix.variableFor s = s ∨ ix.Up s (ix.variableFor s) := by
  by_cases hs : ix.isSubject s
  · cases hx : ix.asObject? s with
    | none => exact Or.inl (by rw [variableFor, if_pos hs, hx, Option.getD_none])
    | some x =>
      have hv : ix.variableFor s = x := by rw [variableFor, if_pos hs, hx, Option.getD_some]
      by_cases he : x = s
      · exact Or.inl (hv.trans he)
      · right
        rw [hv, Up, parent?_of_isSubject hs, hx]
        simp [he]
  · exact Or.inl (by rw [variableFor, if_neg hs])

theorem up_trans_variableFor {ix : Index} {a s : String} (h : TransGen ix.Up a s) :
    TransGen ix.Up a (ix.variableFor s) := by
  rcases ix.up_variableFor s with he | hup
  · rwa [he]
  · exact h.tail hup

/-- The references of a graph form a tree. Objects that are no classes have names of their own. -/
structure IsTree (ix : Index) (root : Subject) : Prop where
  root_mem : root ∈ ix.subjects
  root_free : ∀ t ∈ ix.triples, root.name ∉ t.object.subjectNames
  /-- Every other subject is referred to by exactly one object, which belongs to another subject. -/
  referred : ∀ s ∈ ix.subjects, s.name ≠ root.name → ∃ t,
    ix.triples.filter (fun t => t.object.subjectNames.contains s.name) = [t] ∧
      t.subject.name ≠ s.name
  /-- Following the references upwards leads to the root. -/
  reaches : ∀ s ∈ ix.subjects, ReflTransGen
    (fun a b => ∃ t ∈ ix.triples, a ∈ t.object.subjectNames ∧ t.subject.name = b)
    s.name root.name
  nodup : ((ix.triples.filter fun t => !t.predicate.isType).map (·.object.name)).Nodup
  /-- No object has the name of a subject or of a class. -/
  apart : ∀ t ∈ ix.triples, t.predicate.isType = false → ¬ix.isSubject t.object.name ∧
    ∀ u ∈ ix.triples, u.predicate.isType = true → u.object.name ≠ t.object.name

/-- Type predicates lead neither to blank nodes nor to subjects. -/
structure HasPlainClasses (ix : Index) : Prop where
  hops : ix.HasPlainHops
  objects : ∀ t ∈ ix.triples, t.predicate.isType = true → t.object.subjectNames = []

namespace IsTree

variable {root : Subject} (h : ix.IsTree root)
include h

theorem producer?_object {t : Triple} (ht : t ∈ ix.triples) (htype : t.predicate.isType = false) :
    ix.producer? t.object.name = some t := by
  obtain ⟨hsubject, hclass⟩ := h.apart t ht htype
  rw [producer?, if_neg hsubject]
  obtain ⟨u, hu⟩ : ∃ u, ix.triples.find? (fun u => u.object.name == t.object.name) = some u := by
    rw [← Option.isSome_iff_exists, List.find?_isSome]
    exact ⟨t, ht, by simp⟩
  have hmem := List.mem_of_find?_eq_some hu
  have hname : u.object.name = t.object.name := by simpa using List.find?_some hu
  have hutype : u.predicate.isType = false := by
    by_contra hne
    exact hclass u hmem (by simpa using hne) hname
  have hut : u = t := List.inj_on_of_nodup_map h.nodup (List.mem_filter.mpr ⟨hmem, by simp [hutype]⟩)
    (List.mem_filter.mpr ⟨ht, by simp [htype]⟩) hname
  rw [hu, hut]

theorem exists_referrer {s : Subject} (hs : s ∈ ix.subjects) (hne : s.name ≠ root.name) :
    ∃ t ∈ ix.triples, s.name ∈ t.object.subjectNames ∧
      (∀ u ∈ ix.triples, s.name ∈ u.object.subjectNames → u = t) ∧
      ix.producer? s.name = some t ∧ ix.asObject? s.name = some t.object.name := by
  obtain ⟨t, hfilter, hown⟩ := h.referred s hs hne
  have hmem : t ∈ ix.triples.filter fun t => t.object.subjectNames.contains s.name := by
    rw [hfilter]
    exact List.mem_singleton_self t
  have honly : ∀ u ∈ ix.triples, s.name ∈ u.object.subjectNames → u = t := by
    intro u hu hrefers
    have hu' : u ∈ ix.triples.filter fun t => t.object.subjectNames.contains s.name :=
      List.mem_filter.mpr ⟨hu, by simpa using hrefers⟩
    rw [hfilter] at hu'
    exact List.mem_singleton.mp hu'
  obtain ⟨ht, hrefers⟩ := List.mem_filter.mp hmem
  have hrefers : s.name ∈ t.object.subjectNames := by simpa using hrefers
  refine ⟨t, ht, hrefers, honly, ?_, ?_⟩
  · have hsub : ix.isSubject s.name := isSubject_iff.mpr ⟨s, hs, rfl⟩
    cases hp : ix.producer? s.name with
    | none =>
      rw [producer?, if_pos hsub, List.find?_eq_none] at hp
      exact absurd (by simpa using hrefers) (hp t ht)
    | some u => rw [honly u (producer?_mem hp) (producer?_refers hp hsub)]
  · rw [asObject?_eq]
    cases hr : ix.referrer? s.name with
    | none =>
      rw [referrer?, List.find?_eq_none] at hr
      exact absurd (by simp [hrefers, hown]) (hr t ht)
    | some u =>
      obtain ⟨hu, hu', -⟩ := referrer?_spec hr
      rw [honly u hu hu', Option.map_some]

theorem asObject?_root : ix.asObject? root.name = none := by
  rw [asObject?_eq, Option.map_eq_none_iff, referrer?, List.find?_eq_none]
  intro t ht
  simp [h.root_free t ht]

theorem parent?_root : ix.parent? root.name = none := by
  rw [parent?_of_isSubject (isSubject_iff.mpr ⟨root, h.root_mem, rfl⟩), h.asObject?_root]

theorem variableFor_root : ix.variableFor root.name = root.name := by
  rw [variableFor, h.asObject?_root]
  simp

theorem producer?_root : ix.producer? root.name = none := by
  rw [producer?, if_pos (isSubject_iff.mpr ⟨root, h.root_mem, rfl⟩), List.find?_eq_none]
  intro t ht
  simp [h.root_free t ht]

theorem parent?_object {t : Triple} (ht : t ∈ ix.triples) (htype : t.predicate.isType = false) :
    ix.parent? t.object.name = some t.subject.name := by
  rw [parent?, if_neg (h.apart t ht htype).1, h.producer?_object ht htype, Option.map_some]

end IsTree

theorem HasPlainClasses.isType_of_refers {ix : Index} (h : ix.HasPlainClasses) {t : Triple}
    (ht : t ∈ ix.triples) {name : String} (hname : name ∈ t.object.subjectNames) :
    t.predicate.isType = false := by
  by_contra hne
  rw [h.objects t ht (by simpa using hne)] at hname
  simp at hname

theorem mem_parentNames_of_up {ix : Index} {a b : String} (h : ix.Up a b) : b ∈ ix.parentNames := by
  have hmem : ∀ t ∈ ix.triples, t.object.name ∈ ix.parentNames ∧ t.subject.name ∈ ix.parentNames := by
    intro t ht
    simp only [parentNames, mem_distinct, List.mem_flatMap]
    exact ⟨⟨t, ht, by simp⟩, ⟨t, ht, by simp⟩⟩
  by_cases hs : ix.isSubject a
  · rw [Up, parent?_of_isSubject hs, asObject?_eq] at h
    cases hr : ix.referrer? a with
    | none => simp [hr] at h
    | some t =>
      obtain ⟨hobject, hsubject⟩ := hmem t (referrer?_spec hr).1
      simp only [hr, Option.map_some] at h
      split_ifs at h
      · rwa [← Option.some.inj h]
      · rwa [← Option.some.inj h]
  · rw [Up, parent?, if_neg hs] at h
    obtain ⟨t, hp, rfl⟩ := Option.map_eq_some_iff.mp h
    exact (hmem t (producer?_mem hp)).2

theorem isSubject_subject {m : Model} {t : Triple} (ht : t ∈ m.index.triples) :
    m.index.isSubject t.subject.name :=
  isSubject_iff.mpr ⟨t.subject, m.subject_mem ht, rfl⟩

namespace IsTree

variable {m : Model} {root : Subject} (h : m.index.IsTree root) (hc : m.index.HasPlainClasses)
include h hc

/-- A subject below the root has a variable, which leads to the subject that refers to it. -/
theorem exists_above {s : Subject} (hs : s ∈ m.subjects) (hne : s.name ≠ root.name) :
    ∃ t ∈ m.index.triples, t.predicate.isType = false ∧ m.index.producer? s.name = some t ∧
      m.index.variableFor s.name = t.object.name ∧ m.index.parent? s.name = some t.object.name ∧
      ∀ u ∈ m.index.triples, s.name ∈ u.object.subjectNames → u = t := by
  obtain ⟨t, ht, hrefers, honly, hproducer, hobject⟩ := h.exists_referrer hs hne
  have htype := hc.isType_of_refers ht hrefers
  have hsub : m.index.isSubject s.name := isSubject_iff.mpr ⟨s, hs, rfl⟩
  have hname : t.object.name ≠ s.name := fun he => (h.apart t ht htype).1 (he ▸ hsub)
  refine ⟨t, ht, htype, hproducer, ?_, ?_, honly⟩
  · rw [variableFor, if_pos hsub, hobject, Option.getD_some]
  · rw [parent?_of_isSubject hsub, hobject]
    simp [hname]

theorem acc_subject {name : String} (hs : m.index.isSubject name) :
    Acc (fun b a => m.index.Up a b) name := by
  obtain ⟨s, hmem, rfl⟩ := isSubject_iff.mp hs
  have hreaches := h.reaches s hmem
  generalize s.name = name at hs hreaches
  clear hmem
  -- along the references up to the root, which has nothing above it
  induction hreaches using ReflTransGen.head_induction_on with
  | refl =>
    refine Acc.intro _ fun b hb => ?_
    rw [Up, h.parent?_root] at hb
    cases hb
  | @head a c hstep _ ih =>
    obtain ⟨s, hmem, rfl⟩ := isSubject_iff.mp hs
    obtain ⟨u, hu, hrefers, rfl⟩ := hstep
    have hne : s.name ≠ root.name := fun he => h.root_free u hu (he ▸ hrefers)
    obtain ⟨t, ht, htype, -, -, hparent, honly⟩ := h.exists_above hc hmem hne
    obtain rfl : u = t := honly u hu hrefers
    refine Acc.intro _ fun b hb => ?_
    obtain rfl : u.object.name = b := Option.some.inj (hparent.symm.trans hb)
    refine Acc.intro _ fun b hb => ?_
    obtain rfl : u.subject.name = b := Option.some.inj ((h.parent?_object hu htype).symm.trans hb)
    exact ih (isSubject_subject hu)

/-- In a tree the steps up come to an end. -/
theorem wellFounded_up : WellFounded fun b a => m.index.Up a b := by
  refine ⟨fun name => ?_⟩
  by_cases hs : m.index.isSubject name
  · exact h.acc_subject hc hs
  · refine Acc.intro _ fun b hb => ?_
    rw [Up, parent?, if_neg hs] at hb
    obtain ⟨t, hp, rfl⟩ := Option.map_eq_some_iff.mp hb
    exact h.acc_subject hc (isSubject_subject (producer?_mem hp))

theorem not_transGen_up (z : String) : ¬TransGen m.index.Up z z := by
  intro hz
  exact (h.wellFounded_up hc).transGen.irrefl.irrefl z (transGen_swap.mpr hz)

theorem up_target {a b : String} (hup : m.index.Up a b) : m.index.isSubject b ∨
    ∃ u ∈ m.index.triples, u.predicate.isType = false ∧ u.object.name = b := by
  by_cases ha : m.index.isSubject a
  · obtain ⟨s, hs, rfl⟩ := isSubject_iff.mp ha
    have hne : s.name ≠ root.name := by
      intro he
      rw [Up, he, h.parent?_root] at hup
      cases hup
    obtain ⟨u, hu, htype, -, -, hparent, -⟩ := h.exists_above hc hs hne
    exact Or.inr ⟨u, hu, htype, Option.some.inj (hparent.symm.trans hup)⟩
  · rw [Up, parent?, if_neg ha] at hup
    obtain ⟨t, hp, rfl⟩ := Option.map_eq_some_iff.mp hup
    exact Or.inl (isSubject_subject (producer?_mem hp))

theorem eq_root_of_parent? {a b : String} (hup : m.index.Up a b)
    (hnone : m.index.parent? b = none) : b = root.name := by
  rcases h.up_target hc hup with hb | ⟨u, hu, htype, rfl⟩
  · obtain ⟨s, hs, rfl⟩ := isSubject_iff.mp hb
    by_contra hne
    obtain ⟨u, -, -, -, -, hparent, -⟩ := h.exists_above hc hs hne
    rw [hparent] at hnone
    cases hnone
  · rw [h.parent?_object hu htype] at hnone
    cases hnone

/-- The climb from an object ends at the root. -/
theorem getLast?_climb {t : Triple} (ht : t ∈ m.index.triples)
    (htype : t.predicate.isType = false) :
    (m.index.climb (m.index.parentNames.erase t.object.name) t.object.name).getLast? =
      some root.name := by
  let v := t.object.name
  let free := m.index.parentNames.erase v
  have hfree : ∀ z, TransGen m.index.Up v z → z ∈ free := by
    intro z hz
    have hne : z ≠ v := by
      rintro rfl
      exact h.not_transGen_up hc _ hz
    obtain ⟨a, -, hup⟩ := TransGen.tail'_iff.mp hz
    exact (List.mem_erase_of_ne hne).mpr (mem_parentNames_of_up hup)
  have hlast := parent?_getLast_climb (h.not_transGen_up hc) hfree
  cases hclimb : (m.index.climb free v).getLast? with
  | none =>
    rw [List.getLast?_eq_none_iff] at hclimb
    have hnone := hlast v (by rw [hclimb]; rfl)
    rw [h.parent?_object ht htype] at hnone
    cases hnone
  | some s =>
    have hnone := hlast s (by rw [List.getLast?_cons, hclimb]; rfl)
    obtain ⟨a, -, hup⟩ := TransGen.tail'_iff.mp (up_of_mem_climb (List.mem_of_getLast? hclimb))
    rw [h.eq_root_of_parent? hc hup hnone]

theorem variableFor_mem {names : List String} {s : Subject} (hs : s ∈ m.subjects)
    (hrequested : Pattern.Draft.isRequested m.index names s.name = true) :
    m.index.variableFor s.name ∈ names := by
  rw [Pattern.Draft.isRequested, Bool.or_eq_true, List.contains_iff_mem] at hrequested
  rcases hrequested with hv | hv
  · exact hv
  · by_cases hne : s.name = root.name
    · rw [hne, h.producer?_root] at hv
      cases hv
    · obtain ⟨t, -, -, hproducer, hvariable, -⟩ := h.exists_above hc hs hne
      rw [hproducer] at hv
      rw [hvariable]
      simpa using hv

end IsTree

end SparqlModel.Index

namespace SparqlModel.Pattern

open Index Relation

theorem anchorName?_spec {p : String → Bool} {l : List String} {x : String}
    (h : l.getLast? = some x) :
    ∃ a, Draft.anchorName? p l = some a ∧ (p a = true ∨ a = x) := by
  fun_induction Draft.anchorName? p l with
  | case1 => cases h
  | case2 name => exact ⟨name, rfl, Or.inr (Option.some.inj h)⟩
  | case3 name rest hne hp => exact ⟨name, rfl, Or.inl hp⟩
  | case4 name rest hne hp ih =>
    apply ih
    cases rest with
    | nil => exact absurd rfl hne
    | cons next rest => rwa [List.getLast?_cons_cons] at h

theorem up_anchor {m : Model} {root : Subject} (h : m.index.IsTree root) (names : List String)
    {t : SparqlModel.Triple} (ht : t ∈ m.index.triples) (htype : t.predicate.isType = false) :
    TransGen m.index.Up t.object.name
      (m.index.variableFor (Draft.anchor m.index names t).name) := by
  apply up_trans_variableFor
  rcases anchor_cases m.index names t with he | ⟨hmem, -⟩
  · rw [he]
    exact .single (h.parent?_object ht htype)
  · exact up_of_mem_climb hmem

/-- The anchor of a variable is the root, or its own variable is requested. -/
theorem anchor_requested {m : Model} {root : Subject} (h : m.index.IsTree root)
    (hc : m.index.HasPlainClasses) (names : List String) {t : SparqlModel.Triple}
    (ht : t ∈ m.index.triples) (htype : t.predicate.isType = false) :
    m.index.variableFor (Draft.anchor m.index names t).name ∈ names ∨
      (Draft.anchor m.index names t).name = root.name := by
  let above := (m.index.ancestorSubjects t.object.name).reverse
  have habove : above =
      (m.index.climb (m.index.parentNames.erase t.object.name) t.object.name).filter
        m.index.isSubject := by
    simp [above, ancestorSubjects, ancestors, List.filter_reverse]
  have hlast : above.getLast? = some root.name := by
    obtain ⟨below, hclimb⟩ := List.getLast?_eq_some_iff.mp (h.getLast?_climb hc ht htype)
    have hroot : m.index.isSubject root.name := isSubject_iff.mpr ⟨root, h.root_mem, rfl⟩
    rw [habove, hclimb, List.filter_append]
    simp [hroot]
  obtain ⟨a, ha, hcases⟩ := anchorName?_spec (p := Draft.isRequested m.index names) hlast
  have hsubject : m.index.isSubject a := by
    have hmem : a ∈ above := mem_of_anchorName? ha
    rw [habove, List.mem_filter] at hmem
    exact hmem.2
  obtain ⟨s, hs⟩ := exists_findSubject? hsubject
  have hanchor : Draft.anchor m.index names t = s := by
    unfold Draft.anchor
    dsimp only
    rw [show Draft.anchorName? (Draft.isRequested m.index names)
      (m.index.ancestorSubjects t.object.name).reverse = some a from ha, Option.bind_some, hs]
  obtain ⟨hmem, rfl⟩ := findSubject?_spec hs
  rw [hanchor]
  exact hcases.imp_left (h.variableFor_mem hc hmem)

end SparqlModel.Pattern
