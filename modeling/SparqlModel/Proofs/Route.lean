import SparqlModel.Proofs.Coverage
import SparqlModel.Proofs.Trail

/-!
# The routes of compressed paths

The anchor of a compressed path comes from a climb over the names above a variable, and the path
itself from a trail of triples. The climb follows the referring triples, while the trail looks up
the names of their objects. The two agree when every such name leads back to its triple, and then
every path follows a route of the model.
-/

namespace SparqlModel.Index

/-- The variable that stands for a subject leads back to the reference from which it comes, and it
is not the name of another subject. -/
def ReferencesApart (ix : Index) : Prop :=
  ∀ s ∈ ix.subjects, ∀ r, ix.referrer? s.name = some r →
    ix.producer? r.object.name = some r ∧ (ix.isSubject r.object.name → r.object.name = s.name)

/-- A name under which objects are looked up: if it belongs to a subject, it stands for that
subject. -/
def IsVariable (ix : Index) (name : String) : Prop :=
  ix.isSubject name → ix.asObject? name = some name

theorem mem_leafNames_of_asObject? {ix : Index} {name x : String}
    (hx : ix.asObject? name = some x) : x ∈ ix.leafNames := by
  rw [asObject?_eq] at hx
  obtain ⟨r, hr, rfl⟩ := Option.map_eq_some_iff.mp hx
  simp only [leafNames, mem_distinct]
  exact List.mem_map_of_mem (referrer?_spec hr).1

/-- A step up from a subject leads to the object that stands for it, or past it if that object has
the name of the subject. -/
theorem parent?_of_isSubject {ix : Index} {name : String} (hs : ix.isSubject name) :
    ix.parent? name = match ix.asObject? name with
      | none => none
      | some x => if x != name then some x else (ix.referrer? name).map (·.subject.name) := by
  rw [parent?, if_pos hs]
  rfl

namespace ReferencesApart

variable {ix : Index} (h : ix.ReferencesApart)
include h

theorem referrer {name x : String} (hn : ix.isSubject name) (hx : ix.asObject? name = some x) :
    ∃ r, ix.referrer? name = some r ∧ ix.producer? x = some r ∧ ix.IsVariable x ∧
      (ix.isSubject x → x = name) := by
  rw [asObject?_eq] at hx
  obtain ⟨r, hr, rfl⟩ := Option.map_eq_some_iff.mp hx
  obtain ⟨s, hs, rfl⟩ := isSubject_iff.mp hn
  obtain ⟨hp, hname⟩ := h s hs r hr
  refine ⟨r, hr, hp, ?_, hname⟩
  intro hsub
  have he := hname hsub
  rw [asObject?_eq, he, hr, Option.map_some, he]

theorem parent?_eq {name : String} (hn : ix.IsVariable name) :
    ix.parent? name = (ix.producer? name).map (·.subject.name) := by
  by_cases hs : ix.isSubject name
  · obtain ⟨r, hr, hp, -⟩ := h.referrer hs (hn hs)
    rw [parent?_of_isSubject hs, hn hs, hp, hr]
    simp
  · rw [parent?, if_neg hs]

/-- What a climb from a variable meets: the subject of its producer, or else what a climb from the
object that stands for this subject meets, without coming back to that object. -/
theorem climb_step (hsub : ∀ t ∈ ix.triples, ix.isSubject t.subject.name)
    {free : List String} {name s : String} (hfree : free.Nodup) (hn : ix.IsVariable name)
    (hs : s ∈ ix.climb free name) (hsubject : ix.isSubject s) :
    ∃ t, ix.producer? name = some t ∧ (t.subject.name = s ∨
      ∃ x rest, ix.asObject? t.subject.name = some x ∧ x ∈ free ∧ rest.Nodup ∧
        (∀ z ∈ rest, z ∈ free ∧ z ≠ x) ∧ s ∈ ix.climb rest x) := by
  rw [climb, h.parent?_eq hn] at hs
  cases hp : ix.producer? name with
  | none => simp [hp] at hs
  | some t =>
    refine ⟨t, rfl, ?_⟩
    simp only [hp, Option.map_some] at hs
    split_ifs at hs with hmem
    · rcases List.mem_cons.mp hs with rfl | hs
      · exact Or.inl rfl
      right
      have ht : ix.isSubject t.subject.name := hsub t (producer?_mem hp)
      have herase := hfree.erase t.subject.name
      cases hx : ix.asObject? t.subject.name with
      | none =>
        rw [climb, parent?_of_isSubject ht, hx] at hs
        simp at hs
      | some x =>
        by_cases he : x = t.subject.name
        · -- the object has the name of the subject, so the climb is at the object already
          subst he
          refine ⟨_, _, rfl, hmem, herase, fun z hz => ?_, hs⟩
          exact (hfree.mem_erase_iff.mp hz).symm
        · rw [climb, parent?_of_isSubject ht, hx] at hs
          simp only [bne_iff_ne, ne_eq, he, not_false_eq_true, if_true] at hs
          split_ifs at hs with hmem'
          · rcases List.mem_cons.mp hs with rfl | hs
            · obtain ⟨r, -, -, -, hname⟩ := h.referrer ht hx
              exact absurd (hname hsubject) he
            · refine ⟨x, _, rfl, List.mem_of_mem_erase hmem', herase.erase x, fun z hz => ?_, hs⟩
              obtain ⟨hne, hz⟩ := herase.mem_erase_iff.mp hz
              exact ⟨List.mem_of_mem_erase hz, hne⟩
          · simp at hs
    · simp at hs

/-- Every subject that a climb meets is the subject of a triple of the trail, as long as the trail
may use all object names that the climb may use. -/
theorem exists_mem_trail (hsub : ∀ t ∈ ix.triples, ix.isSubject t.subject.name)
    {free free' : List String} {name s : String} (hfree : free.Nodup)
    (hle : ∀ x ∈ free, x ∈ ix.leafNames → x ∈ free') (hn : ix.IsVariable name)
    (hs : s ∈ ix.climb free name) (hsubject : ix.isSubject s) :
    ∃ u ∈ ix.trail free' name, u.subject.name = s := by
  -- the trail shortens its own list of free names, and the climb keeps pace with it
  fun_induction trail ix free' name generalizing free with
  | case1 free' name hp =>
    obtain ⟨t, hp', -⟩ := h.climb_step hsub hfree hn hs hsubject
    rw [hp] at hp'
    cases hp'
  | case2 free' name t hp hx =>
    obtain ⟨t', hp', hs⟩ := h.climb_step hsub hfree hn hs hsubject
    obtain rfl : t = t' := Option.some.inj (hp.symm.trans hp')
    rcases hs with rfl | ⟨x, rest, hx', -⟩
    · exact ⟨t, List.mem_singleton_self t, rfl⟩
    · rw [hx] at hx'
      cases hx'
  | case3 free' name t hp x hx hmem ih =>
    obtain ⟨t', hp', hs⟩ := h.climb_step hsub hfree hn hs hsubject
    obtain rfl : t = t' := Option.some.inj (hp.symm.trans hp')
    rcases hs with rfl | ⟨x', rest, hx', hx'', hrest, hz, hs⟩
    · exact ⟨t, List.mem_cons_self, rfl⟩
    · obtain rfl : x = x' := Option.some.inj (hx.symm.trans hx')
      obtain ⟨r, -, -, hvar, -⟩ := h.referrer (hsub t (producer?_mem hp)) hx
      have hle' : ∀ z ∈ rest, z ∈ ix.leafNames → z ∈ free'.erase x := fun z hz' hleaf =>
        (List.mem_erase_of_ne (hz z hz').2).mpr (hle z (hz z hz').1 hleaf)
      obtain ⟨u, hu, hus⟩ := ih hrest hle' hvar hs
      exact ⟨u, List.mem_cons_of_mem t hu, hus⟩
  | case4 free' name t hp x hx hmem =>
    obtain ⟨t', hp', hs⟩ := h.climb_step hsub hfree hn hs hsubject
    obtain rfl : t = t' := Option.some.inj (hp.symm.trans hp')
    rcases hs with rfl | ⟨x', rest, hx', hx'', -⟩
    · exact ⟨t, List.mem_singleton_self t, rfl⟩
    · obtain rfl : x = x' := Option.some.inj (hx.symm.trans hx')
      exact absurd (hle x hx'' (mem_leafNames_of_asObject? hx)) hmem

theorem object_of_variableFor {name : String} {t : Triple}
    (hp : ix.producer? (ix.variableFor name) = some t)
    (hne : t.subject.name ≠ ix.variableFor name) :
    t.object.name = ix.variableFor name ∧ ix.IsVariable (ix.variableFor name) := by
  by_cases hsub : ix.isSubject (ix.variableFor name)
  · have hrefers := producer?_refers hp hsub
    by_cases hn : ix.isSubject name
    · cases hx : ix.asObject? name with
      | none =>
        have hv : ix.variableFor name = name := by simp [variableFor, hx]
        rw [hv] at hne hrefers
        rw [asObject?_eq, Option.map_eq_none_iff, referrer?, List.find?_eq_none] at hx
        have hnot := hx t (producer?_mem hp)
        simp [hrefers, hne] at hnot
      | some x =>
        have hv : ix.variableFor name = x := by simp [variableFor, hn, hx]
        rw [hv] at hp ⊢
        obtain ⟨r, hr, hp', hvar, -⟩ := h.referrer hn hx
        obtain rfl : t = r := Option.some.inj (hp.symm.trans hp')
        rw [asObject?_eq, hr] at hx
        exact ⟨Option.some.inj hx, hvar⟩
    · have hv : ix.variableFor name = name := by simp [variableFor, hn]
      rw [hv] at hsub
      exact absurd hsub hn
  · exact ⟨producer?_name hp hsub, fun hs => absurd hs hsub⟩

end ReferencesApart

end SparqlModel.Index

namespace SparqlModel.Pattern

open Index

theorem mem_of_anchorName? {p : String → Bool} {l : List String} {name : String}
    (h : Draft.anchorName? p l = some name) : name ∈ l := by
  fun_induction Draft.anchorName? p l with
  | case1 => cases h
  | case2 n => exact List.mem_singleton.mpr (Option.some.inj h).symm
  | case3 n rest hne hp =>
    rw [← Option.some.inj h]
    exact List.mem_cons_self
  | case4 n rest hne hp ih => exact List.mem_cons_of_mem n (ih h)

/-- The anchor is the subject of the triple or a subject that the climb from its object meets. -/
theorem anchor_cases (ix : Index) (names : List String) (t : SparqlModel.Triple) :
    Draft.anchor ix names t = t.subject ∨
      ((Draft.anchor ix names t).name ∈
          ix.climb (ix.parentNames.erase t.object.name) t.object.name ∧
        ix.isSubject (Draft.anchor ix names t).name) := by
  unfold Draft.anchor
  dsimp only
  split
  · rename_i s hs
    obtain ⟨name, hname, hf⟩ := Option.bind_eq_some_iff.mp hs
    obtain ⟨-, rfl⟩ := findSubject?_spec hf
    right
    simpa [ancestorSubjects, ancestors] using mem_of_anchorName? hname
  · exact Or.inl rfl

/-- Over references that are apart, the walk for the path of a drawn variable retraces a route. -/
theorem retraced_of_apart {m : Model} (h : m.index.ReferencesApart) (names : List String)
    {name : String} {t : SparqlModel.Triple}
    (hs : source? m.index (m.index.variableFor name) = some t) :
    m.index.Retraced (Draft.anchor m.index names t) t := by
  obtain ⟨hp, hne⟩ := source?_eq_some_iff.mp hs
  obtain ⟨hobject, hvar⟩ := h.object_of_variableFor hp hne
  rw [← hobject] at hp hvar
  have hsub : ∀ u ∈ m.index.triples, m.index.isSubject u.subject.name :=
    fun u hu => isSubject_iff.mpr ⟨u.subject, m.subject_mem hu, rfl⟩
  set a := Draft.anchor m.index names t with ha
  let trail := m.index.trail (m.index.leafNames.erase t.object.name) t.object.name
  have hmeets : ∃ u ∈ trail, u.subject.name = a.name := by
    rcases anchor_cases m.index names t with he | ⟨hmem, hsubject⟩
    · refine ⟨t, List.mem_of_head? ((head?_trail _ _).trans hp), ?_⟩
      rw [ha, he]
    · have hnodup : (m.index.parentNames.erase t.object.name).Nodup :=
        (nodup_distinct _).erase _
      refine h.exists_mem_trail hsub hnodup (fun x hx hleaf => ?_) hvar hmem hsubject
      have hx' := ((nodup_distinct _).mem_erase_iff.mp hx).1
      exact (List.mem_erase_of_ne hx').mpr hleaf
  refine ⟨hp, ?_, ?_⟩
  · obtain ⟨u, hu, hua⟩ := getLast?_stopAt hmeets
    exact ⟨u, List.mem_reverse.mpr (List.mem_of_getLast? hu), hua⟩
  · intro u hu _ x r hx hr
    have hu' := mem_of_mem_stopAt (List.mem_reverse.mp hu)
    obtain ⟨r', hr', hp', -⟩ := h.referrer (hsub u (mem_triples_of_mem_trail hu')) hx
    obtain rfl : r = r' := Option.some.inj (hr.symm.trans hp')
    exact (referrer?_spec hr').2.1

/-- The routes of compressed paths. A variable that is reached by one path is drawn from the
variable of its anchor with the URIs of the triples that the walk has met. These triples make a
route exactly if the walk retraces it, and where the path can be read in one way only, no other
route has its URIs. References that are apart are always retraced. -/
theorem generate_routes (m : Model) (request : Option (List String)) (parameters : Parameters)
    (options : Options) :
    let w := generate m.index request parameters options
    let body := Draft.traced m.index w.variableNames
    ((∃ types, w.draft.required = types ++ body.required ∧
      ∀ u ∈ types, u.predicate = "a" ∧ u.object = u.subject) ∧
      w.draft.optional = body.optional) ∧
    ∀ v ∈ w.variableNames, ∀ t, m.index.producer? v = some t → t.subject.name ≠ v →
      rendering m.index w.variableNames t = .compressed →
      let a := Draft.anchor m.index w.variableNames t
      let ts := m.index.pathTriples t.object.name a.name
      let path := ts.flatMap (·.uris)
      (∀ u ∈ body.required ++ body.optional, u.object = .var v →
        u.subject = .var (m.index.variableFor a.name) ∧
          u.predicate = pathSeparator.intercalate path) ∧
      (m.index.IsRoute a ts t ↔ m.index.Retraced a t) ∧
      (m.index.Retraced a t → m.index.HasRoute a t path) ∧
      (m.index.ReadsOnce ts t → (m.index.HasRoute a t path ↔ m.index.Retraced a t)) ∧
      (m.index.ReferencesApart → m.index.HasRoute a t path) := by
  intro w body
  obtain ⟨hrequired, hoptional, -⟩ := Draft.addTypes_spec m.index w.variableNames body
  refine ⟨⟨hrequired, hoptional⟩, ?_⟩
  intro v hv t hp hne hr a ts path
  have hs := source?_eq_some_iff.mpr ⟨hp, hne⟩
  have hroute := isRoute_pathTriples_iff m (anchor_mem w.variableNames (producer?_mem hp)) t
  refine ⟨?_, hroute, fun h => ⟨ts, hroute.mpr h, rfl⟩, fun h => h.hasRoute_iff.trans hroute, ?_⟩
  · intro u hu ho
    obtain ⟨o, hu⟩ := Draft.mem_append_iff.mp hu
    obtain ⟨rfl, -⟩ := eq_leaf_of_object hs hu ho
    simp only [Edge.triple, leafEdge, leafStep, hr, Spot.number, propertyPath_eq]
    exact ⟨rfl, rfl⟩
  · intro h
    obtain ⟨name, -, rfl⟩ := List.mem_map.mp (mem_distinct.mp hv)
    exact ⟨ts, hroute.mpr (retraced_of_apart h w.variableNames hs), rfl⟩

def geneSubject : Subject :=
  ⟨"Gene", none, false, [⟨"a", none, [.uri "ex:Gene" "ex:Gene"]⟩,
    ⟨"rdfs:label", none, [.var "gene_label"]⟩, ⟨"ex:parent", none, [.reference "parent" "Gene"]⟩]⟩

def entrySubject : Subject :=
  ⟨"Entry", none, false, [⟨"a", none, [.uri "ex:Entry" "ex:Entry"]⟩,
    ⟨"ex:gene", none, [.reference "Gene" "Gene"]⟩]⟩

/-- A gene that also refers to itself, below an entry that refers to it under its own name. -/
def entryFirst : Model where
  subjects := [entrySubject, geneSubject]
  prefixes := [("ex", "http://example.org/"), ("rdfs", "http://www.w3.org/2000/01/rdf-schema#")]
  accepted := by decide +kernel

def geneFirst : Model where
  subjects := [geneSubject, entrySubject]
  prefixes := [("ex", "http://example.org/"), ("rdfs", "http://www.w3.org/2000/01/rdf-schema#")]
  accepted := by decide +kernel

/-- The triple of the gene's label, where the gene is the root subject of the given number. -/
def labelTriple (root : ℕ) : SparqlModel.Triple :=
  ⟨root, geneSubject, [], ⟨⟨"rdfs:label", none, [.var "gene_label"]⟩, 1, 0⟩, .var "gene_label"⟩

theorem entryFirst_apart : entryFirst.index.ReferencesApart := by
  have hentry : entryFirst.index.referrer? "Entry" = none := rfl
  have hgene : entryFirst.index.producer? "Gene" = entryFirst.index.referrer? "Gene" := rfl
  have hname : entryFirst.index.asObject? "Gene" = some "Gene" := rfl
  intro s hs r hr
  have hs : s ∈ [entrySubject, geneSubject] := hs
  rcases List.mem_pair.mp hs with rfl | rfl
  · cases hentry.symm.trans hr
  · rw [asObject?_eq, show entryFirst.index.referrer? "Gene" = some r from hr] at hname
    have hobject : r.object.name = "Gene" := Option.some.inj hname
    rw [hobject]
    exact ⟨hgene.trans hr, fun _ => rfl⟩

theorem generate_routes_entryFirst :
    let w := generate entryFirst.index (some ["gene_label"]) [] {}
    entryFirst.index.ReferencesApart ∧
      entryFirst.index.producer? "gene_label" = some (labelTriple 1) ∧
      w.lines = ["WHERE \x7b", "    ?Entry a ex:Entry ;",
        "        ex:gene / rdfs:label ?gene_label .", "\x7d"] ∧
      entryFirst.index.HasRoute entrySubject (labelTriple 1) ["ex:gene", "rdfs:label"] := by
  intro w
  refine ⟨entryFirst_apart, rfl, by decide +kernel, ?_⟩
  have hanchor : Draft.anchor entryFirst.index w.variableNames (labelTriple 1) = entrySubject := by
    have hproducer : entryFirst.index.producer? "gene_label" = some (labelTriple 1) := rfl
    apply entryFirst.eq_of_name_eq (anchor_mem _ (producer?_mem hproducer))
    · simp [entryFirst]
    · decide +kernel
  have hpath : (entryFirst.index.pathTriples (labelTriple 1).object.name
      entrySubject.name).flatMap (·.uris) = ["ex:gene", "rdfs:label"] := by decide +kernel
  have h := ((generate_routes entryFirst (some ["gene_label"]) [] {}).2 "gene_label"
    (by decide +kernel) (labelTriple 1) rfl (by decide) (by decide +kernel)).2.2.2.2
      entryFirst_apart
  change entryFirst.index.HasRoute (Draft.anchor entryFirst.index w.variableNames (labelTriple 1))
    _ ((entryFirst.index.pathTriples _
      (Draft.anchor entryFirst.index w.variableNames (labelTriple 1)).name).flatMap _) at h
  rwa [hanchor, hpath] at h

/-- The path of the label starts with the gene's reference to itself, but its anchor is the
entry. -/
theorem geneFirst_not_hasRoute :
    let w := generate geneFirst.index (some ["gene_label"]) [] {}
    w.lines = ["WHERE \x7b", "    ?Entry a ex:Entry ;",
      "        ex:parent / rdfs:label ?gene_label .", "\x7d"] ∧
    geneFirst.index.producer? "gene_label" = some (labelTriple 0) ∧
    (Draft.anchor geneFirst.index w.variableNames (labelTriple 0)).name = "Entry" ∧
    ¬ geneFirst.index.HasRoute entrySubject (labelTriple 0) ["ex:parent", "rdfs:label"] := by
  intro w
  refine ⟨by decide +kernel, rfl, by decide +kernel, ?_⟩
  rintro ⟨ts, hroute, he⟩
  have hentry : ∀ u ∈ geneFirst.index.triples, u.subject.name = "Entry" →
      u.uris.head? ≠ some "ex:parent" := by decide +kernel
  cases ts with
  | nil => cases he
  | cons u rest =>
    have hsubject : u.subject = entrySubject := Option.some.inj hroute.head
    apply hentry u (hroute.mem u List.mem_cons_self) (by rw [hsubject]; rfl)
    rw [List.flatMap_cons] at he
    rw [← List.head?_append_of_ne_nil _ (uris_ne_nil u), he]
    rfl

end SparqlModel.Pattern
