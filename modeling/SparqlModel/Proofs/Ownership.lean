import SparqlModel.Proofs.Expansion
import SparqlModel.Proofs.LabelScope

/-!
# The owners of blank nodes

A blank node is known by its key: the route of URIs that leads to it and the classes that are
declared there. Neither the subject at which the route starts nor the classes on the way belong to
the key. Hence all links to one label leave the same node if and only if the hops with its key
belong to subjects with one variable and have the same classes above them. Subjects with different
variables do not share labels in that case.
-/

namespace SparqlModel.Pattern

/-- All triples that enter one blank node leave the same node. Type triples show no object. -/
def OneOwner (triples : List Triple) : Prop :=
  ∀ u ∈ triples, ∀ u' ∈ triples, ∀ k, u.isType = false → u'.isType = false →
    u.object = .blank k → u'.object = .blank k → u.subject = u'.subject

/-- All links of a plan to one blank node leave the same node. -/
def OwnersAgree (ix : Index) (names : List String) : Prop :=
  ∀ e ∈ plan ix names, ∀ e' ∈ plan ix names, ∀ key, isTypeUri e.predicate = false →
    isTypeUri e'.predicate = false → e.object = .blank key → e'.object = .blank key →
      e.subject = e'.subject

/-- Hops of expanded routes that have the same URIs up to them and the same classes belong to
subjects with the same mark, and the same classes are declared at the hops before them. -/
def HopsAgree (ix : Index) (names : List String) (mark : Subject → String) : Prop :=
  ∀ name t name' t', IsExpanded ix names name t → IsExpanded ix names name' t' →
    ∀ i ∈ typedPlaces ix t, i ∈ typedPlaces ix t' → hopKey ix t i = hopKey ix t' i →
      mark t.subject = mark t'.subject ∧ ∀ j < i, ix.typesAtHop t j = ix.typesAtHop t' j

/-- The last hop before another one at which classes are declared. -/
def typedBefore? (ix : Index) (t : SparqlModel.Triple) (i : ℕ) : Option ℕ :=
  ((List.range i).filter fun j => (ix.typesAtHop t j).isSome).getLast?

/-- The node from which a hop is entered: the blank node before it, or the variable of the
subject. -/
def ownerSpot (ix : Index) (t : SparqlModel.Triple) (i : ℕ) : Spot :=
  ((typedBefore? ix t i).map fun j => .blank (hopKey ix t j)).getD (rootSpot ix t)

variable {ix : Index} {t t' : SparqlModel.Triple} {i j : ℕ}

theorem mem_typedPlaces : i ∈ typedPlaces ix t ↔
    i < t.hops.length ∧ (ix.typesAtHop t i).isSome = true := by
  rw [typedPlaces, List.mem_filter, List.mem_range]

theorem typedBefore?_eq_none_iff : typedBefore? ix t i = none ↔
    ∀ j < i, ix.typesAtHop t j = none := by
  rw [typedBefore?, List.getLast?_eq_none_iff, List.filter_eq_nil_iff]
  simp

theorem of_typedBefore?_eq_some (h : typedBefore? ix t i = some j) :
    j < i ∧ (ix.typesAtHop t j).isSome = true ∧
      ∀ l < i, j < l → ix.typesAtHop t l = none := by
  obtain ⟨hj, htyped⟩ := List.mem_filter.mp (List.mem_of_getLast? h)
  refine ⟨List.mem_range.mp hj, htyped, fun l hl hlt => ?_⟩
  by_contra hne
  have hmem : l ∈ (List.range i).filter fun j => (ix.typesAtHop t j).isSome :=
    List.mem_filter.mpr ⟨List.mem_range.mpr hl, Option.isSome_iff_ne_none.mpr hne⟩
  obtain ⟨front, hfront⟩ := List.getLast?_eq_some_iff.mp h
  have hsorted : (front ++ [j]).Pairwise (· < ·) := hfront ▸ List.pairwise_lt_range.filter _
  rw [hfront, List.mem_append, List.mem_singleton] at hmem
  have hle : l ≤ j := hmem.elim
    (fun hm => ((List.pairwise_append.mp hsorted).2.2 l hm j (List.mem_singleton_self j)).le) (·.le)
  omega

theorem typedBefore?_congr (h : ∀ j < i, ix.typesAtHop t j = ix.typesAtHop t' j) :
    typedBefore? ix t i = typedBefore? ix t' i := by
  rw [typedBefore?, typedBefore?]
  congr 1
  exact List.filter_congr fun j hj => by rw [h j (List.mem_range.mp hj)]

theorem hopKey_eq_of_lt (hkey : hopKey ix t i = hopKey ix t' i) (hj : j < i)
    (htypes : ix.typesAtHop t j = ix.typesAtHop t' j) : hopKey ix t j = hopKey ix t' j := by
  have huris : t.uris.take (i + 1) = t'.uris.take (i + 1) := congrArg BlankKey.route hkey
  have htake := congrArg (List.take (j + 1)) huris
  rw [List.take_take, List.take_take, Nat.min_eq_left (by omega)] at htake
  rw [hopKey, hopKey, htake, htypes]

theorem length_route (hi : i ∈ typedPlaces ix t) : (hopKey ix t i).route.length = i + 1 := by
  have hlt := (mem_typedPlaces.mp hi).1
  rw [hopKey, uris_eq, List.length_take, List.length_append, List.length_map]
  simp only [List.length_singleton]
  omega

theorem eq_of_hopKey_eq (hi : i ∈ typedPlaces ix t) (hj : j ∈ typedPlaces ix t')
    (h : hopKey ix t i = hopKey ix t' j) : i = j := by
  have hlen := length_route hi
  rw [h, length_route hj] at hlen
  omega

theorem nodup_typesAtHop {types : List String} (h : ix.typesAtHop t i = some types) :
    types.Nodup := by
  unfold Index.typesAtHop at h
  split at h
  · cases h
  · cases h
    exact nodup_distinct _

/-- At hops with declared classes, equal keys declare the same classes. -/
theorem typesAtHop_eq (hi : (ix.typesAtHop t i).isSome = true)
    (hi' : (ix.typesAtHop t' i).isSome = true) (h : hopKey ix t i = hopKey ix t' i) :
    ix.typesAtHop t i = ix.typesAtHop t' i := by
  obtain ⟨types, htypes⟩ := Option.isSome_iff_exists.mp hi
  obtain ⟨types', htypes'⟩ := Option.isSome_iff_exists.mp hi'
  have heq := congrArg BlankKey.types h
  simp only [hopKey, htypes, htypes', Option.getD_some, distinct_of_nodup (nodup_typesAtHop htypes),
    distinct_of_nodup (nodup_typesAtHop htypes')] at heq
  rw [htypes, htypes', heq]

theorem subject_links (node : Spot) (route pending : List String)
    (hops : List (Step × Option (List String))) :
    (links node route pending hops).map (·.subject) =
      (node :: (links node route pending hops).map (·.object)).dropLast := by
  induction hops generalizing node route pending with
  | nil => rfl
  | cons hop rest ih =>
    obtain ⟨step, types⟩ := hop
    cases types with
    | none => exact ih node _ _
    | some types =>
      rw [links, List.map_cons, List.map_cons, ih, List.dropLast_cons_cons]

theorem dropLast_cons_map {α : Type} {ps : List ℕ} (h : ps.Pairwise (· < ·)) (f : ℕ → α) (a : α) :
    (a :: ps.map f).dropLast =
      ps.map fun i => ((ps.filter (· < i)).getLast?.map f).getD a := by
  induction ps using List.reverseRecOn with
  | nil => rfl
  | append_singleton ps p ih =>
    obtain ⟨hps, -, hlt⟩ := List.pairwise_append.mp h
    have hp : ∀ j ∈ ps, j < p := fun j hj => hlt j hj p (List.mem_singleton_self p)
    have hbefore : (ps ++ [p]).filter (· < p) = ps := by
      rw [List.filter_append, List.filter_eq_self.mpr (by simpa using hp)]
      simp
    have hinner : ∀ i ∈ ps, (ps ++ [p]).filter (· < i) = ps.filter (· < i) := by
      intro i hi
      simp [List.filter_append, (hp i hi).le]
    calc (a :: (ps ++ [p]).map f).dropLast
        = a :: ps.map f := by
          rw [List.map_append, ← List.cons_append, List.map_singleton, List.dropLast_concat]
      _ = (a :: ps.map f).dropLast ++ [(ps.getLast?.map f).getD a] := by
          rw [List.dropLast_append_getLast?]
          simp [List.getLast?_cons]
      _ = (ps ++ [p]).map fun i => (((ps ++ [p]).filter (· < i)).getLast?.map f).getD a := by
          rw [ih hps, List.map_append, List.map_singleton, hbefore]
          congr 1
          exact List.map_congr_left fun i hi => by rw [hinner i hi]

/-- The links of an expanded route: each enters a hop with declared classes from its owner. -/
theorem links_typedHops (ix : Index) (t : SparqlModel.Triple) :
    (links (rootSpot ix t) [] [] (typedHops ix t)).map (fun e => (e.subject, e.object)) =
      (typedPlaces ix t).map fun i => (ownerSpot ix t i, .blank (hopKey ix t i)) := by
  have hsorted : (typedPlaces ix t).Pairwise (· < ·) := List.pairwise_lt_range.filter _
  have hbefore : ∀ i ∈ typedPlaces ix t, ((typedPlaces ix t).filter (· < i)).getLast? =
      typedBefore? ix t i := by
    intro i hi
    have hlt := (mem_typedPlaces.mp hi).1
    rw [typedPlaces, List.filter_filter, typedBefore?]
    congr 1
    have hrange : (List.range t.hops.length).filter (· < i) = List.range i := by
      obtain ⟨n, hn⟩ := Nat.exists_eq_add_of_le hlt.le
      rw [hn, List.range_add, List.filter_append, List.filter_eq_self.mpr (by simp),
        List.filter_eq_nil_iff.mpr (by simp), List.append_nil]
    rw [← hrange, List.filter_filter]
    exact List.filter_congr fun j _ => Bool.and_comm _ _
  rw [← List.zip_map', subject_links, object_links_typedHops, dropLast_cons_map hsorted,
    List.zip_map']
  refine List.map_congr_left fun i hi => ?_
  rw [hbefore i hi]
  rfl

theorem exists_site {e : Edge} (he : e ∈ links (rootSpot ix t) [] [] (typedHops ix t)) :
    ∃ i ∈ typedPlaces ix t, e.subject = ownerSpot ix t i ∧ e.object = .blank (hopKey ix t i) := by
  have hmem := List.mem_map_of_mem (f := fun e : Edge => (e.subject, e.object)) he
  rw [links_typedHops] at hmem
  obtain ⟨i, hi, heq⟩ := List.mem_map.mp hmem
  exact ⟨i, hi, (Prod.mk.inj heq).1.symm, (Prod.mk.inj heq).2.symm⟩

theorem exists_link (hi : i ∈ typedPlaces ix t) :
    ∃ e ∈ links (rootSpot ix t) [] [] (typedHops ix t),
      e.subject = ownerSpot ix t i ∧ e.object = .blank (hopKey ix t i) := by
  have hmem := List.mem_map_of_mem
    (f := fun i => (ownerSpot ix t i, Spot.blank (hopKey ix t i))) hi
  rw [← links_typedHops] at hmem
  obtain ⟨e, he, heq⟩ := List.mem_map.mp hmem
  exact ⟨e, he, (Prod.mk.inj heq).1, (Prod.mk.inj heq).2⟩

variable {names : List String}

theorem exists_key_of_object {e : Edge} (he : e ∈ plan ix names) {k : Int}
    (hk : e.object.number (Draft.traced ix names).blanks = .blank k) :
    ∃ key ∈ (Draft.traced ix names).blanks, e.object = .blank key ∧
      k = (Draft.traced ix names).blanks.idxOf key + 1 := by
  cases ho : e.object with
  | var n =>
    rw [ho] at hk
    cases hk
  | blank key =>
    have hmem := (Draft.traced_shows ix names).object_mem he key (by simp [ho, Spot.keys])
    refine ⟨key, hmem, rfl, ?_⟩
    rw [ho] at hk
    exact_mod_cast (Node.blank.inj hk).symm

theorem object_eq_of_number_eq {e e' : Edge} (he : e ∈ plan ix names) {k : Int}
    (hk : e.object.number (Draft.traced ix names).blanks = .blank k)
    (hk' : e'.object.number (Draft.traced ix names).blanks = .blank k) : e.object = e'.object :=
  Spot.number_injective ((Draft.traced_shows ix names).object_mem he) (hk.trans hk'.symm)

theorem OwnersAgree.oneOwner (h : OwnersAgree ix names) :
    OneOwner ((Draft.ofVariables ix names).required ++ (Draft.ofVariables ix names).optional) := by
  intro u hu u' hu' k ht ht' hk hk'
  obtain ⟨o, hu⟩ := Draft.mem_append_iff.mp hu
  obtain ⟨o', hu'⟩ := Draft.mem_append_iff.mp hu'
  obtain ⟨e, he, -, rfl⟩ := Draft.exists_edge_of_not_isType hu ht
  obtain ⟨e', he', -, rfl⟩ := Draft.exists_edge_of_not_isType hu' ht'
  obtain ⟨key, -, hkey, -⟩ := exists_key_of_object he hk
  have hkey' : e'.object = .blank key := (object_eq_of_number_eq he hk hk').symm.trans hkey
  have howner := h e he e' he' key ht ht' hkey hkey'
  exact congrArg (Spot.number _) howner

/-- No link is dropped over plain names, so that the labels show all links of the plan. -/
theorem OneOwner.ownersAgree {m : Model} (hm : m.index.HasPlainNames)
    (h : OneOwner ((Draft.ofVariables m.index names).required ++
      (Draft.ofVariables m.index names).optional)) : OwnersAgree m.index names := by
  intro e he e' he' key ht ht' hkey hkey'
  have hk : e.object.number (Draft.traced m.index names).blanks =
      .blank ((Draft.traced m.index names).blanks.idxOf key + 1 : ℕ) := by rw [hkey, Spot.number]
  have hk' : e'.object.number (Draft.traced m.index names).blanks =
      .blank ((Draft.traced m.index names).blanks.idxOf key + 1 : ℕ) := by rw [hkey', Spot.number]
  have hu := Draft.mem_append_iff.mpr ⟨_, triple_mem_ofVariables hm he⟩
  have hu' := Draft.mem_append_iff.mpr ⟨_, triple_mem_ofVariables hm he'⟩
  have howner := h _ hu _ hu' _ ht ht' hk hk'
  exact Spot.number_injective ((Draft.traced_shows m.index names).entered e he) howner

/-- An edge that enters a blank node belongs to a hop of an expanded route. -/
theorem exists_site_of_mem_plan {e : Edge} (he : e ∈ plan ix names) {key : BlankKey}
    (hkey : e.object = .blank key) : ∃ name t, IsExpanded ix names name t ∧
      ∃ i ∈ typedPlaces ix t, e.subject = ownerSpot ix t i ∧ key = hopKey ix t i := by
  obtain ⟨name, hn, t, hs, he | rfl⟩ := mem_plan_iff.mp he
  · obtain ⟨hr, he⟩ := mem_linkEdges he
    obtain ⟨hp, hne⟩ := source?_eq_some_iff.mp hs
    obtain ⟨i, hi, hsubject, hobject⟩ := exists_site he
    exact ⟨name, t, ⟨hn, hp, hne, hr⟩, i, hi, hsubject, Spot.blank.inj (hkey.symm.trans hobject)⟩
  · cases hkey

theorem exists_edge_of_site {name : String} {t : SparqlModel.Triple}
    (h : IsExpanded ix names name t) {i : ℕ} (hi : i ∈ typedPlaces ix t) :
    ∃ e ∈ plan ix names, e ∈ links (rootSpot ix t) [] [] (typedHops ix t) ∧
      e.subject = ownerSpot ix t i ∧ e.object = .blank (hopKey ix t i) := by
  obtain ⟨e, he, hends⟩ := exists_link hi
  refine ⟨e, mem_plan_iff.mpr ⟨name, h.requested, t, h.source, Or.inl ?_⟩, he, hends⟩
  simpa [linkEdges, h.rendering] using he

theorem HopsAgree.ownersAgree (h : HopsAgree ix names fun s => ix.variableFor s.name) :
    OwnersAgree ix names := by
  intro e he e' he' key _ _ hkey hkey'
  obtain ⟨name, t, ht, i, hi, hsubject, rfl⟩ := exists_site_of_mem_plan he hkey
  obtain ⟨name', t', ht', i', hi', hsubject', heq⟩ := exists_site_of_mem_plan he' hkey'
  obtain rfl := eq_of_hopKey_eq hi hi' heq
  obtain ⟨hvariable, htypes⟩ := h name t name' t' ht ht' i hi hi' heq
  rw [hsubject, hsubject', ownerSpot, ownerSpot, typedBefore?_congr htypes]
  cases hbefore : typedBefore? ix t' i with
  | none => exact congrArg Spot.var hvariable
  | some j =>
    have hj := (of_typedBefore?_eq_some hbefore).1
    exact congrArg Spot.blank (hopKey_eq_of_lt heq hj (htypes j hj))

/-- Hops with one owner have the last hop with declared classes before them at the same place, or
they have none and are entered from the variables of their subjects. -/
theorem ownerSpot_eq_cases {t t' : SparqlModel.Triple} {i : ℕ} (hi : i ∈ typedPlaces ix t)
    (hi' : i ∈ typedPlaces ix t') (h : ownerSpot ix t i = ownerSpot ix t' i) :
    (typedBefore? ix t i = none ∧ typedBefore? ix t' i = none ∧
        ix.variableFor t.subject.name = ix.variableFor t'.subject.name) ∨
      ∃ j ∈ typedPlaces ix t, j ∈ typedPlaces ix t' ∧ typedBefore? ix t i = some j ∧
        typedBefore? ix t' i = some j ∧ hopKey ix t j = hopKey ix t' j := by
  have hplace : ∀ {t j}, i ∈ typedPlaces ix t → typedBefore? ix t i = some j →
      j ∈ typedPlaces ix t := fun hi hbefore =>
    have ⟨hj, htyped, _⟩ := of_typedBefore?_eq_some hbefore
    mem_typedPlaces.mpr ⟨hj.trans (mem_typedPlaces.mp hi).1, htyped⟩
  unfold ownerSpot at h
  cases hbefore : typedBefore? ix t i with
  | none =>
    cases hbefore' : typedBefore? ix t' i with
    | none =>
      rw [hbefore, hbefore'] at h
      exact Or.inl ⟨rfl, rfl, Spot.var.inj h⟩
    | some j' =>
      rw [hbefore, hbefore'] at h
      cases h
  | some j =>
    cases hbefore' : typedBefore? ix t' i with
    | none =>
      rw [hbefore, hbefore'] at h
      cases h
    | some j' =>
      rw [hbefore, hbefore'] at h
      have hkey : hopKey ix t j = hopKey ix t' j' := Spot.blank.inj h
      obtain rfl := eq_of_hopKey_eq (hplace hi hbefore) (hplace hi' hbefore') hkey
      exact Or.inr ⟨j, hplace hi hbefore, hplace hi' hbefore', rfl, rfl, hkey⟩

/-- From hop to hop upwards: the owners of equal keys are equal keys again, or they are the variables
of the subjects. -/
theorem OwnersAgree.hopsAgree (hhops : ix.HasPlainHops) (h : OwnersAgree ix names) :
    HopsAgree ix names fun s => ix.variableFor s.name := by
  intro name t name' t' ht ht' i
  have hplain : ∀ {name t e}, IsExpanded ix names name t →
      e ∈ links (rootSpot ix t) [] [] (typedHops ix t) → isTypeUri e.predicate = false := by
    intro name t e ht he
    exact isTypeUri_links (fun hop hm => hhops t (Index.producer?_mem ht.produced) hop.1
      (List.of_mem_zip hm).1) he
  induction i using Nat.strong_induction_on with
  | _ i ih =>
    intro hi hi' hkey
    obtain ⟨e, he, hlink, hsubject, hobject⟩ := exists_edge_of_site ht hi
    obtain ⟨e', he', hlink', hsubject', hobject'⟩ := exists_edge_of_site ht' hi'
    have howner : ownerSpot ix t i = ownerSpot ix t' i := by
      rw [← hsubject, ← hsubject']
      exact h e he e' he' _ (hplain ht hlink) (hplain ht' hlink') hobject (hkey ▸ hobject')
    rcases ownerSpot_eq_cases hi hi' howner with
      ⟨hbefore, hbefore', hvariable⟩ | ⟨j, hj, hj', hbefore, hbefore', hkey⟩
    · refine ⟨hvariable, fun j hj => ?_⟩
      rw [typedBefore?_eq_none_iff.mp hbefore j hj, typedBefore?_eq_none_iff.mp hbefore' j hj]
    · obtain ⟨hlt, htyped, hlater⟩ := of_typedBefore?_eq_some hbefore
      obtain ⟨-, htyped', hlater'⟩ := of_typedBefore?_eq_some hbefore'
      obtain ⟨hvariable, htypes⟩ := ih j hlt hj hj' hkey
      refine ⟨hvariable, fun l hl => ?_⟩
      rcases lt_trichotomy l j with hlt | rfl | hgt
      · exact htypes l hlt
      · exact typesAtHop_eq htyped htyped' hkey
      · rw [hlater l hl hgt, hlater' l hl hgt]

theorem HopsAgree.congr {mark mark' : Subject → String} (h : HopsAgree ix names mark)
    (hmark : ∀ name t name' t', IsExpanded ix names name t → IsExpanded ix names name' t' →
      mark t.subject = mark t'.subject → mark' t.subject = mark' t'.subject) :
    HopsAgree ix names mark' := by
  intro name t name' t' ht ht' i hi hi' hkey
  obtain ⟨hsame, htypes⟩ := h name t name' t' ht ht' i hi hi' hkey
  exact ⟨hmark name t name' t' ht ht' hsame, htypes⟩

/-- The owners of the blank nodes in a pattern. A triple that enters a label belongs to a hop of an
expanded route, and leaves the owner of this hop. Two hops have one label exactly if they have the
same URIs up to them and the same classes. All triples that enter a label leave the same node if the
hops with one label agree in the variable of their subject and in the classes above them, and over
plain names only then. If no two subjects have one variable, they agree in their subjects too. -/
theorem generate_owners (m : Model) (request : Option (List String)) (parameters : Parameters)
    (options : Options) :
    let w := generate m.index request parameters options
    let triples := w.draft.required ++ w.draft.optional
    let names := w.variableNames
    (∀ u ∈ triples, ∀ k, u.isType = false → u.object = .blank k →
      ∃ name t, IsExpanded m.index names name t ∧ ∃ i ∈ typedPlaces m.index t,
        k = w.draft.numberOf (hopKey m.index t i) ∧
        u.subject = (ownerSpot m.index t i).number w.draft.blanks) ∧
    (∀ name t name' t', IsExpanded m.index names name t → IsExpanded m.index names name' t' →
      ∀ i ∈ typedPlaces m.index t, ∀ i' ∈ typedPlaces m.index t',
        (w.draft.numberOf (hopKey m.index t i) = w.draft.numberOf (hopKey m.index t' i') ↔
          hopKey m.index t i = hopKey m.index t' i')) ∧
    (HopsAgree m.index names (fun s => m.index.variableFor s.name) → OneOwner triples) ∧
    (m.index.HasPlainNames → m.index.HasPlainHops →
      (OneOwner triples ↔ HopsAgree m.index names fun s => m.index.variableFor s.name) ∧
      ((∀ s ∈ m.subjects, ∀ s' ∈ m.subjects,
          m.index.variableFor s.name = m.index.variableFor s'.name → s.name = s'.name) →
        (OneOwner triples ↔ HopsAgree m.index names (·.name)))) := by
  intro w triples names
  have hblanks : w.draft.blanks = (Draft.traced m.index names).blanks :=
    Draft.blanks_ofVariables m.index names
  have hiff (hm : m.index.HasPlainNames) (hhops : m.index.HasPlainHops) :
      OneOwner triples ↔ HopsAgree m.index names fun s => m.index.variableFor s.name :=
    ⟨fun h => (OneOwner.ownersAgree hm h).hopsAgree hhops, fun h => h.ownersAgree.oneOwner⟩
  refine ⟨?_, ?_, fun h => h.ownersAgree.oneOwner, fun hm hhops => ⟨hiff hm hhops, ?_⟩⟩
  · intro u hu k ht hk
    obtain ⟨o, hu⟩ := Draft.mem_append_iff.mp hu
    obtain ⟨e, he, -, rfl⟩ := Draft.exists_edge_of_not_isType hu ht
    obtain ⟨key, -, hkey, hnumber⟩ := exists_key_of_object he hk
    obtain ⟨name, t, ht, i, hi, hsubject, rfl⟩ := exists_site_of_mem_plan he hkey
    refine ⟨name, t, ht, i, hi, ?_, ?_⟩
    · rw [hnumber, Draft.numberOf, hblanks]
      rfl
    · rw [hblanks, ← hsubject]
      rfl
  · intro name t name' t' ht ht' i hi i' hi'
    have hmem : hopKey m.index t i ∈ w.draft.blanks := by
      rw [hblanks]
      exact mem_blanks_iff.mpr ⟨name, t, ht, i, hi, rfl⟩
    rw [Draft.numberOf, Draft.numberOf, Nat.add_right_cancel_iff, List.idxOf_inj hmem]
  · intro hvariables
    have hsubject : ∀ {name t}, IsExpanded m.index names name t → t.subject ∈ m.subjects :=
      fun ht => m.subject_mem (Index.producer?_mem ht.produced)
    rw [hiff hm hhops]
    constructor
    · exact fun h => h.congr fun _ _ _ _ ht ht' => hvariables _ (hsubject ht) _ (hsubject ht')
    · exact fun h => h.congr fun _ _ _ _ _ _ hname => congrArg m.index.variableFor hname

theorem generate_owners_sameHoldings :
    let w := generate sameHoldings.index (some ["value_a", "value_b"]) [] {}
    w.lines = ["WHERE \x7b", "    ?Entry a ex:Entry ;", "        ex:has _:b1 .",
      "    _:b1 a ex:A ;", "        ex:value ?value_a ;", "        ex:value ?value_b .", "\x7d"] ∧
    sameHoldings.index.HasPlainNames ∧ sameHoldings.index.HasPlainHops ∧
    OneOwner (w.draft.required ++ w.draft.optional) ∧
    HopsAgree sameHoldings.index w.variableNames (fun s => sameHoldings.index.variableFor s.name) ∧
    HopsAgree sameHoldings.index w.variableNames (·.name) := by
  intro w
  have howner : OneOwner (w.draft.required ++ w.draft.optional) := by
    have hobjects : ∀ u ∈ w.draft.required ++ w.draft.optional,
        ∀ u' ∈ w.draft.required ++ w.draft.optional, u.isType = false → u'.isType = false →
          u.object = u'.object → u.subject = u'.subject := by decide +kernel
    exact fun u hu u' hu' k ht ht' hk hk' => hobjects u hu u' hu' ht ht' (hk.trans hk'.symm)
  have h := generate_owners sameHoldings (some ["value_a", "value_b"]) [] {}
  obtain ⟨hvariables, hsubjects⟩ := h.2.2.2 sameHoldings_plain.1 sameHoldings_plain.2
  exact ⟨by decide +kernel, sameHoldings_plain.1, sameHoldings_plain.2, howner, hvariables.mp howner,
    (hsubjects (by decide +kernel)).mp howner⟩

/-- An entry with a list of two parts, each of which holds a blank node of one class. -/
def listedParts : Model where
  subjects := [
    ⟨"Entry", none, false, [⟨"a", none, [.uri "ex:Entry" "ex:Entry"]⟩,
      ⟨"ex:part", none, [.choice "part" [.reference "part" "A", .reference "part" "B"]]⟩]⟩,
    ⟨"A", none, false, [⟨"a", none, [.uri "ex:A" "ex:A"]⟩,
      ⟨"ex:has", none, [.blank ⟨blankName, none, true,
        [⟨"a", none, [.uri "ex:X" "ex:X"]⟩, ⟨"ex:v", none, [.var "va"]⟩]⟩]⟩]⟩,
    ⟨"B", none, false, [⟨"a", none, [.uri "ex:B" "ex:B"]⟩,
      ⟨"ex:has", none, [.blank ⟨blankName, none, true,
        [⟨"a", none, [.uri "ex:X" "ex:X"]⟩, ⟨"ex:v", none, [.var "vb"]⟩]⟩]⟩]⟩]
  prefixes := [("ex", "http://example.org/")]
  accepted := by decide +kernel

/-- Both parts have the variable of their list, which is then the one owner of the blank nodes of
both. -/
example :
    let w := generate listedParts.index (some ["va", "vb"]) [] {}
    w.lines = ["WHERE \x7b", "    ?part a ex:B ;", "        ex:has _:b1 .",
      "    _:b1 a ex:X ;", "        ex:v ?va ;", "        ex:v ?vb .", "\x7d"] ∧
    listedParts.index.variableFor "A" = "part" ∧ listedParts.index.variableFor "B" = "part" := by
  decide +kernel

/-- Two subjects that each hold a blank node under the same predicate and with the same class. -/
def leftAndRight : Model where
  subjects := [
    ⟨"Left", none, false, [⟨"a", none, [.uri "ex:Left" "ex:Left"]⟩,
      ⟨"ex:has", none, [.blank ⟨blankName, none, true,
        [⟨"a", none, [.uri "ex:A" "ex:A"]⟩, ⟨"ex:value", none, [.var "value_a"]⟩]⟩]⟩]⟩,
    ⟨"Right", none, false, [⟨"a", none, [.uri "ex:Right" "ex:Right"]⟩,
      ⟨"ex:has", none, [.blank ⟨blankName, none, true,
        [⟨"a", none, [.uri "ex:A" "ex:A"]⟩, ⟨"ex:value", none, [.var "value_b"]⟩]⟩]⟩]⟩]
  prefixes := [("ex", "http://example.org/")]
  accepted := by decide +kernel

/-- Both subjects enter the same blank node. -/
theorem leftAndRight_not_oneOwner :
    let w := generate leftAndRight.index (some ["value_a", "value_b"]) [] {}
    w.lines = ["WHERE \x7b", "    ?Left a ex:Left ;", "        ex:has _:b1 .",
      "    _:b1 a ex:A ;", "        ex:value ?value_a ;", "        ex:value ?value_b .",
      "    ?Right a ex:Right ;", "        ex:has _:b1 .", "\x7d"] ∧
    ¬ OneOwner (w.draft.required ++ w.draft.optional) := by
  intro w
  refine ⟨by decide +kernel, ?_⟩
  intro h
  have hleft : ⟨.var "Left", "ex:has", .blank 1⟩ ∈ w.draft.required ++ w.draft.optional := by
    decide +kernel
  have hright : ⟨.var "Right", "ex:has", .blank 1⟩ ∈ w.draft.required ++ w.draft.optional := by
    decide +kernel
  exact absurd (h _ hleft _ hright 1 rfl rfl rfl rfl) (by decide)

end SparqlModel.Pattern
