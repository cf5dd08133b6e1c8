import SparqlModel.Proofs.Connection
import SparqlModel.Proofs.Constraints
import SparqlModel.Proofs.Route
import SparqlModel.Proofs.TypeLines

/-!
# Variables that are joined with themselves

The climb for an anchor never comes back to the name at which it starts, but it may come to a
subject for which this very name stands. Such a subject counts as requested, so the path to the
variable starts at the variable. This takes a cycle of references: in a tree of subjects no
variable is joined with itself.
-/

namespace SparqlModel

namespace Index

theorem IsTree.referencesApart {m : Model} {root : Subject} (h : m.index.IsTree root)
    (hc : m.index.HasPlainClasses) : m.index.ReferencesApart := by
  intro s hs r hr
  obtain ⟨hmem, hrefers, -⟩ := referrer?_spec hr
  have htype := hc.isType_of_refers hmem hrefers
  exact ⟨h.producer?_object hmem htype, fun hsub => absurd hsub (h.apart r hmem htype).1⟩

theorem ReferencesApart.variableFor_subject_ne {ix : Index} (h : ix.ReferencesApart) {v : String}
    {t : Triple} (ht : ix.isSubject t.subject.name) (hp : ix.producer? v = some t)
    (hne : t.subject.name ≠ v) : ix.variableFor t.subject.name ≠ v := by
  intro hv
  cases hx : ix.asObject? t.subject.name with
  | none =>
    rw [variableFor, if_pos ht, hx] at hv
    exact hne hv
  | some x =>
    rw [variableFor, if_pos ht, hx, Option.getD_some] at hv
    subst hv
    obtain ⟨r, hr, hp', -⟩ := h.referrer ht hx
    obtain rfl : t = r := Option.some.inj (hp.symm.trans hp')
    exact (referrer?_spec hr).2.2 rfl

end Index

namespace Pattern

open Index Relation

/-- A triple that states no class and has a variable both as its subject and as its object. -/
structure Triple.JoinsItself (u : Triple) (v : String) : Prop where
  subject : u.subject = .var v
  object : u.object = .var v
  plain : u.isType = false

def nearestRequested? (ix : Index) (names : List String) (name : String) : Option String :=
  (ix.ancestorSubjects name).reverse.find? (Draft.isRequested ix names)

/-- The ways in which the path to a variable starts at the variable itself. -/
inductive LeadsBack (ix : Index) (names : List String) (v : String) (t : SparqlModel.Triple) : Prop
  /-- The variable stands for the nearest requested subject above the object. -/
  | above {a : String} (hr : rendering ix names t = .compressed)
      (ha : nearestRequested? ix names t.object.name = some a) (hv : ix.variableFor a = v)
  /-- No subject is above the object, and the variable stands for the subject of the triple. -/
  | alone (hr : rendering ix names t = .compressed)
      (hnone : ix.ancestorSubjects t.object.name = []) (hv : ix.variableFor t.subject.name = v)
  /-- The whole route is written, and the variable stands for the subject of the triple. -/
  | whole (hr : rendering ix names t = .wholeRoute) (hv : ix.variableFor t.subject.name = v)

variable {ix : Index} {names : List String} {t : SparqlModel.Triple} {v : String}

/-- The first requested name, and the last name if none is requested. -/
theorem anchorName?_eq (p : String → Bool) (l : List String) :
    Draft.anchorName? p l = (l.find? p).or l.getLast? := by
  fun_induction Draft.anchorName? p l with
  | case1 => rfl
  | case2 name => cases hp : p name <;> simp [hp]
  | case3 name rest hne hp => simp [hp]
  | case4 name rest hne hp ih =>
    cases rest with
    | nil => exact absurd rfl hne
    | cons next rest => rw [ih, List.find?_cons_of_neg hp, List.getLast?_cons_cons]

theorem anchor_name (ix : Index) (names : List String) (t : SparqlModel.Triple) :
    (Draft.anchor ix names t).name = ((nearestRequested? ix names t.object.name).or
      (ix.ancestorSubjects t.object.name).head?).getD t.subject.name := by
  have heq := anchorName?_eq (Draft.isRequested ix names)
    (ix.ancestorSubjects t.object.name).reverse
  rw [List.getLast?_reverse] at heq
  rw [nearestRequested?, ← heq, Draft.anchor]
  cases hname : Draft.anchorName? (Draft.isRequested ix names)
      (ix.ancestorSubjects t.object.name).reverse with
  | none => rfl
  | some a =>
    have hmem : a ∈ ix.ancestorSubjects t.object.name :=
      List.mem_reverse.mp (mem_of_anchorName? hname)
    obtain ⟨s, hs⟩ := exists_findSubject? (List.mem_filter.mp hmem).2
    simp only [Option.bind_some, hs, Option.getD_some]
    exact (findSubject?_spec hs).2

/-- Unless blank nodes are numbered on its route, the path to a variable leaves the variable of its
start. -/
theorem leafStep_start (h : rendering ix names t ≠ .expanded) :
    (leafStep ix names t).1 = .var (startName ix names t) := by
  rw [leafStep, startName, startSubject]
  cases hr : rendering ix names t with
  | compressed => rfl
  | wholeRoute => rfl
  | expanded => exact absurd hr h

/-- A requested variable is the start of its own path in just these ways. -/
theorem leadsBack_iff (hv : v ∈ names) : LeadsBack ix names v t ↔
    rendering ix names t ≠ .expanded ∧ startName ix names t = v := by
  have hanchor := anchor_name ix names t
  constructor
  · intro h
    cases h with
    | above hr ha hva =>
      rw [ha, Option.some_or, Option.getD_some] at hanchor
      rw [startName, startSubject, hr, hanchor]
      exact ⟨by decide, hva⟩
    | alone hr hnone hvs =>
      rw [nearestRequested?, hnone] at hanchor
      rw [startName, startSubject, hr]
      refine ⟨by decide, ?_⟩
      rw [hanchor]
      exact hvs
    | whole hr hvs =>
      rw [startName, startSubject, hr]
      exact ⟨by decide, hvs⟩
  · rintro ⟨hr, hstart⟩
    rw [startName, startSubject] at hstart
    cases hr' : rendering ix names t with
    | expanded => exact absurd hr' hr
    | wholeRoute =>
      rw [hr'] at hstart
      exact .whole hr' hstart
    | compressed =>
      simp only [hr', hanchor] at hstart
      cases ha : nearestRequested? ix names t.object.name with
      | some a =>
        rw [ha, Option.some_or, Option.getD_some] at hstart
        exact .above hr' ha hstart
      | none =>
        rw [ha, Option.none_or] at hstart
        cases hhead : (ix.ancestorSubjects t.object.name).head? with
        | none =>
          rw [hhead] at hstart
          exact .alone hr' (List.head?_eq_none_iff.mp hhead) hstart
        | some a =>
          rw [hhead, Option.getD_some] at hstart
          rw [nearestRequested?, List.find?_eq_none] at ha
          have hnot := ha a (List.mem_reverse.mpr (List.mem_of_mem_head? hhead))
          rw [Draft.isRequested, hstart] at hnot
          simp [hv] at hnot

theorem isTypeUri_leafStep (h : rendering ix names t ≠ .expanded) :
    isTypeUri (leafStep ix names t).2 = true ↔ ReachedByType ix names t := by
  rw [leafStep, ReachedByType]
  cases hr : rendering ix names t with
  | compressed => simp [isTypeUri_intercalate_iff]
  | wholeRoute =>
    have hblank : t.crossesBlank = true := by
      unfold rendering at hr
      split_ifs at hr with hb
      exact (Bool.and_eq_true_iff.mp hb).1
    have hhops : t.hops ≠ [] := by simpa [Triple.crossesBlank] using hblank
    obtain ⟨hop, hops, he⟩ := List.exists_cons_of_ne_nil hhops
    simp [SparqlModel.Triple.path, isTypeUri_intercalate_iff, uris_eq, he]
  | expanded => exact absurd hr h

variable {m : Model} {u : Triple}

theorem rendering_ne_expanded {n : String} (hv : v ∈ names) (hs : source? m.index v = some t)
    (h : (leafStep m.index names t).1 = .var n) : rendering m.index names t ≠ .expanded := by
  intro hr
  obtain ⟨e, -, he, hobject⟩ := exists_link_to_leaf hv hs hr
  obtain ⟨⟨key, hkey⟩, -⟩ := links_object he
  rw [hobject, h] at hkey
  cases hkey

theorem Triple.JoinsItself.leadsBack (h : u.JoinsItself v)
    (hu : u ∈ (Draft.ofVariables m.index names).required ++
      (Draft.ofVariables m.index names).optional) :
    v ∈ names ∧ ∃ t, source? m.index v = some t ∧ LeadsBack m.index names v t ∧
      ¬ReachedByType m.index names t := by
  obtain ⟨o, hu⟩ := Draft.mem_append_iff.mp hu
  obtain ⟨e, he, -, rfl⟩ := Draft.exists_edge_of_not_isType hu h.plain
  have hsubject : e.subject = .var v := Spot.eq_var_of_number_eq h.subject
  have hobject : e.object = .var v := Spot.eq_var_of_number_eq h.object
  obtain ⟨name, hname, t, hs, he⟩ := mem_plan_iff.mp he
  rcases he with he | rfl
  · -- a link ends at a blank node
    obtain ⟨⟨key, hkey⟩, -⟩ := links_object (mem_linkEdges he).2
    rw [hobject] at hkey
    cases hkey
  · obtain rfl : name = v := Spot.var.inj hobject
    have hr := rendering_ne_expanded hname hs hsubject
    have hstart := Spot.var.inj ((leafStep_start hr).symm.trans hsubject)
    refine ⟨hname, t, hs, (leadsBack_iff hname).mpr ⟨hr, hstart⟩, fun htype => ?_⟩
    exact Bool.false_ne_true (h.plain.symm.trans ((isTypeUri_leafStep hr).mpr htype))

/-- A path that leads back to its variable joins it with itself, unless the path states a class. -/
theorem LeadsBack.exists_joinsItself (h : LeadsBack m.index names v t)
    (hlabel : isBlankLabel v = false) (hv : v ∈ names) (hs : source? m.index v = some t)
    (htype : ¬ReachedByType m.index names t) :
    ∃ u ∈ (Draft.ofVariables m.index names).required ++
      (Draft.ofVariables m.index names).optional, u.JoinsItself v := by
  obtain ⟨hr, hstart⟩ := (leadsBack_iff hv).mp h
  obtain ⟨u, hu, hpredicate, hsubject, hobject⟩ :=
    exists_triple_of_edge hlabel (leafEdge_mem_plan hv hs)
  refine ⟨u, hu, hsubject ?_, hobject rfl, ?_⟩
  · rw [← hstart]
    exact leafStep_start hr
  · rw [← Bool.not_eq_true, Triple.isType, hpredicate]
    exact (isTypeUri_leafStep hr).not.mpr htype

section

variable {name : String} (h : m.index.ReferencesApart)
  (hs : source? m.index (m.index.variableFor name) = some t)
include h hs

/-- Over references that are apart, only a subject above a variable leads back to it. -/
theorem leadsBack_iff_of_apart :
    LeadsBack m.index names (m.index.variableFor name) t ↔
      rendering m.index names t = .compressed ∧
        ∃ a, nearestRequested? m.index names (m.index.variableFor name) = some a ∧
          m.index.variableFor a = m.index.variableFor name := by
  obtain ⟨hp, hne⟩ := source?_eq_some_iff.mp hs
  obtain ⟨hobject, -⟩ := h.object_of_variableFor hp hne
  have hown := h.variableFor_subject_ne (isSubject_subject (producer?_mem hp)) hp hne
  constructor
  · intro hback
    cases hback with
    | above hr ha hv => exact ⟨hr, _, hobject ▸ ha, hv⟩
    | alone hr hnone hv => exact absurd hv hown
    | whole hr hv => exact absurd hv hown
  · rintro ⟨hr, a, ha, hv⟩
    exact .above hr (hobject ▸ ha) hv

/-- The path that leads back has more than one predicate, so it states no class. -/
theorem LeadsBack.not_reachedByType (hv : m.index.variableFor name ∈ names)
    (hback : LeadsBack m.index names (m.index.variableFor name) t) :
    ¬ReachedByType m.index names t := by
  rintro ⟨hr, uri, hpath, -⟩
  obtain ⟨hp, hne⟩ := source?_eq_some_iff.mp hs
  have hown := h.variableFor_subject_ne (isSubject_subject (producer?_mem hp)) hp hne
  have hstart := ((leadsBack_iff hv).mp hback).2
  rw [startName, startSubject, hr] at hstart
  have hroute := (isRoute_pathTriples_iff m (anchor_mem names (producer?_mem hp)) t).mpr
    (retraced_of_apart h names hs)
  rw [propertyPath_eq] at hpath
  generalize m.index.pathTriples t.object.name (Draft.anchor m.index names t).name = ts
    at hpath hroute
  rcases ts with _ | ⟨u, _ | ⟨u', rest⟩⟩
  · cases hpath
  · -- a single triple is the leaf, whose subject is not the anchor
    obtain rfl : u = t := Option.some.inj hroute.last
    have hanchor : u.subject = Draft.anchor m.index names u := Option.some.inj hroute.head
    rw [hanchor] at hown
    exact hown hstart
  · have hlength := congrArg List.length hpath
    have hu := List.length_pos_iff.mpr (uris_ne_nil u)
    have hu' := List.length_pos_iff.mpr (uris_ne_nil u')
    simp only [List.flatMap_cons, List.length_append, List.length_singleton] at hlength
    omega

theorem LeadsBack.up (hback : LeadsBack m.index names (m.index.variableFor name) t) :
    TransGen m.index.Up (m.index.variableFor name) (m.index.variableFor name) := by
  obtain ⟨-, a, ha, hv⟩ := (leadsBack_iff_of_apart h hs).mp hback
  have hmem := List.mem_reverse.mp (List.mem_of_find?_eq_some ha)
  have habove := List.mem_reverse.mp (List.mem_filter.mp hmem).1
  have hup := up_trans_variableFor (up_of_mem_climb habove)
  rwa [hv] at hup

end

/-- The variables that are joined with themselves. A triple that joins a variable with itself
belongs to a requested variable whose path leads back to it and states no class, and every such
variable is joined with itself. Over references that are apart these are the variables with one
path that stand for the nearest requested subject above them, which takes a cycle of steps up. In
a tree of subjects no variable is joined with itself. -/
theorem generate_selfJoins (m : Model) (request : Option (List String)) (parameters : Parameters)
    (options : Options) :
    let w := generate m.index request parameters options
    let names := w.variableNames
    let triples := w.draft.required ++ w.draft.optional
    (∀ v, ∀ u ∈ triples, u.JoinsItself v → v ∈ names ∧ ∃ t, source? m.index v = some t ∧
      LeadsBack m.index names v t ∧ ¬ReachedByType m.index names t) ∧
    (∀ v ∈ names, isBlankLabel v = false → ∀ t, source? m.index v = some t →
      LeadsBack m.index names v t → ¬ReachedByType m.index names t →
        ∃ u ∈ triples, u.JoinsItself v) ∧
    (m.index.ReferencesApart → ∀ v ∈ names, isBlankLabel v = false →
      ((∃ u ∈ triples, u.JoinsItself v) ↔ ∃ t, source? m.index v = some t ∧
        rendering m.index names t = .compressed ∧
          ∃ a, nearestRequested? m.index names v = some a ∧ m.index.variableFor a = v)) ∧
    (m.index.ReferencesApart → ∀ v, ∀ u ∈ triples, u.JoinsItself v →
      TransGen m.index.Up v v) ∧
    (∀ root, m.index.IsTree root → m.index.HasPlainClasses →
      ∀ v, ∀ u ∈ triples, ¬u.JoinsItself v) := by
  intro w names triples
  have hback : ∀ v, ∀ u ∈ triples, u.JoinsItself v → v ∈ names ∧ ∃ t,
      source? m.index v = some t ∧ LeadsBack m.index names v t ∧ ¬ReachedByType m.index names t :=
    fun v u hu hjoins => hjoins.leadsBack hu
  have hname : ∀ v ∈ names, ∃ name, m.index.variableFor name = v := by
    intro v hv
    obtain ⟨name, -, he⟩ := List.mem_map.mp (mem_distinct.mp hv)
    exact ⟨name, he⟩
  have hcycle : m.index.ReferencesApart → ∀ v, ∀ u ∈ triples, u.JoinsItself v →
      TransGen m.index.Up v v := by
    intro h v u hu hjoins
    obtain ⟨hv, t, hs, hleads, -⟩ := hback v u hu hjoins
    obtain ⟨name, rfl⟩ := hname v hv
    exact hleads.up h hs
  refine ⟨hback, fun v hv hlabel t hs hleads htype => hleads.exists_joinsItself hlabel hv hs htype,
    ?_, hcycle, ?_⟩
  · intro h v hv hlabel
    obtain ⟨name, rfl⟩ := hname v hv
    constructor
    · rintro ⟨u, hu, hjoins⟩
      obtain ⟨-, t, hs, hleads, -⟩ := hback _ u hu hjoins
      exact ⟨t, hs, (leadsBack_iff_of_apart h hs).mp hleads⟩
    · rintro ⟨t, hs, habove⟩
      have hleads := (leadsBack_iff_of_apart h hs).mpr habove
      exact hleads.exists_joinsItself hlabel hv hs (hleads.not_reachedByType h hs hv)
  · intro root htree hclasses v u hu hjoins
    exact htree.not_transGen_up hclasses v (hcycle (htree.referencesApart hclasses) v u hu hjoins)

/-- Two subjects that refer to each other. -/
def cyclicPair : Model where
  subjects := [⟨"A", none, false, [⟨"a", none, [.uri "ex:A" "ex:A"]⟩,
      ⟨"ex:b", none, [.reference "b" "B"]⟩]⟩,
    ⟨"B", none, false, [⟨"a", none, [.uri "ex:B" "ex:B"]⟩,
      ⟨"ex:a", none, [.reference "a" "A"]⟩]⟩]
  prefixes := [("ex", "http://example.org/")]
  accepted := by decide +kernel

theorem cyclicPair_apart : cyclicPair.index.ReferencesApart := by
  have ha : cyclicPair.index.producer? "a" = cyclicPair.index.referrer? "A" := rfl
  have hb : cyclicPair.index.producer? "b" = cyclicPair.index.referrer? "B" := rfl
  have hvariables : cyclicPair.index.asObject? "A" = some "a" ∧
      cyclicPair.index.asObject? "B" = some "b" := ⟨rfl, rfl⟩
  have hplain : cyclicPair.index.isSubject "a" = false ∧
      cyclicPair.index.isSubject "b" = false := by decide +kernel
  simp only [asObject?_eq, Option.map_eq_some_iff] at hvariables
  obtain ⟨⟨r, hr, hname⟩, ⟨r', hr', hname'⟩⟩ := hvariables
  intro s hs u hu
  rcases List.mem_pair.mp hs with rfl | rfl
  · obtain rfl : r = u := Option.some.inj (hr.symm.trans hu)
    rw [hname, hplain.1]
    exact ⟨ha.trans hr, nofun⟩
  · obtain rfl : r' = u := Option.some.inj (hr'.symm.trans hu)
    rw [hname', hplain.2]
    exact ⟨hb.trans hr', nofun⟩

theorem generate_selfJoins_cyclicPair :
    let w := generate cyclicPair.index (some ["a", "b"]) [] {}
    cyclicPair.index.ReferencesApart ∧
      w.lines = ["WHERE \x7b", "    ?b a ex:B ;", "        ex:a ?a .", "    ?a a ex:A ;",
        "        ex:b ?b .", "\x7d"] ∧
      ∀ v ∈ w.variableNames, ¬∃ u ∈ w.draft.required ++ w.draft.optional, u.JoinsItself v := by
  intro w
  refine ⟨cyclicPair_apart, by decide +kernel, fun v hv hjoins => ?_⟩
  have hlabel : ∀ v ∈ w.variableNames, isBlankLabel v = false := by decide +kernel
  have hother : ∀ v ∈ w.variableNames,
      ∀ a ∈ nearestRequested? cyclicPair.index w.variableNames v,
        cyclicPair.index.variableFor a ≠ v := by decide +kernel
  obtain ⟨t, -, -, a, ha, hva⟩ := ((generate_selfJoins cyclicPair (some ["a", "b"]) [] {}).2.2.1
    cyclicPair_apart v hv (hlabel v hv)).mp hjoins
  exact hother v hv a ha hva

/-- Where only one of them is requested, its path goes round and starts at itself. -/
theorem cyclicPair_joinsItself :
    let w := generate cyclicPair.index (some ["a"]) [] {}
    w.lines = ["WHERE \x7b", "    ?a a ex:A ;", "        ex:b / ex:a ?a .", "\x7d"] ∧
    ¬∀ u ∈ w.draft.required ++ w.draft.optional, ∀ v, ¬u.JoinsItself v := by
  intro w
  refine ⟨by decide +kernel, fun h => ?_⟩
  exact h ⟨.var "a", "ex:b / ex:a", .var "a"⟩ (by decide +kernel) "a" ⟨rfl, rfl, by decide⟩

end Pattern

end SparqlModel
