import SparqlModel.Proofs.Visits

/-!
# The classes at the hops of a route

At a hop a route enters one of the blank nodes under a predicate. The classes that the index gives
there are those of the entered node, but also those of every other blank node under the predicate
that nests a further blank node. Hence they are the classes of the entered node exactly if the
classes of the nesting nodes before it are the first ones of its own, and those of the nesting nodes
behind it are among them.
-/

namespace SparqlModel

section

variable {α : Type} [BEq α] [LawfulBEq α] [DecidableEq α] (xs ys zs : List α)

theorem distinct_append_eq_left_iff : distinct (xs ++ ys) = distinct xs ↔ ys ⊆ xs := by
  rw [distinct_append, List.append_right_eq_self, List.filter_eq_nil_iff]
  simp [List.subset_def]

theorem distinct_append_eq_right_iff :
    distinct (xs ++ ys) = distinct ys ↔ distinct xs <+: distinct ys := by
  rw [distinct_append]
  constructor
  · intro h
    exact ⟨_, h⟩
  · rintro ⟨rest, h⟩
    have hnodup := nodup_distinct ys
    rw [← h, List.nodup_append] at hnodup
    have hfirst : (distinct xs).filter (· ∉ xs) = [] := by
      rw [List.filter_eq_nil_iff]
      simp
    have hrest : rest.filter (· ∉ xs) = rest := by
      rw [List.filter_eq_self]
      intro x hx
      have hne := fun hmem => hnodup.2.2 x (mem_distinct.mpr hmem) x hx rfl
      simpa using hne
    rw [← h, List.filter_append, hfirst, hrest, List.nil_append]

/-- More elements around a list change nothing exactly if those before it begin it, and those behind
it occur in it. -/
theorem distinct_around_eq_iff :
    distinct (xs ++ ys ++ zs) = distinct ys ↔ distinct xs <+: distinct ys ∧ zs ⊆ ys := by
  constructor
  · intro h
    have hmem : ∀ x, x ∈ xs ++ ys ++ zs → x ∈ ys := by
      intro x hx
      rwa [← mem_distinct, h, mem_distinct] at hx
    have hzs : zs ⊆ ys := fun x hx => hmem x (List.mem_append_right _ hx)
    refine ⟨?_, hzs⟩
    rw [← distinct_append_eq_right_iff, ← h]
    exact ((distinct_append_eq_left_iff (xs ++ ys) zs).mpr
      (List.subset_append_of_subset_right xs hzs)).symm
  · rintro ⟨hxs, hzs⟩
    rw [(distinct_append_eq_left_iff (xs ++ ys) zs).mpr
      (List.subset_append_of_subset_right xs hzs)]
    exact (distinct_append_eq_right_iff xs ys).mpr hxs

end

def Subject.nests (s : Subject) : Bool :=
  s.objects.any (·.isBlankNode)

def Object.isUri : Object → Bool
  | .uri _ _ => true
  | _ => false

def Subject.ClassesAreUris (s : Subject) : Prop :=
  ∀ p ∈ s.predicates, p.isType = true → ∀ o ∈ p.objects, o.isUri = true

instance (s : Subject) : Decidable s.ClassesAreUris :=
  inferInstanceAs (Decidable (∀ p ∈ s.predicates, p.isType = true → ∀ o ∈ p.objects, _))

/-- The subjects and the blank nodes of a graph state their classes by URIs. -/
def Index.ClassesAreUris (ix : Index) : Prop :=
  (∀ s ∈ ix.subjects, s.ClassesAreUris) ∧ ∀ b ∈ ix.blanks, b.subject.ClassesAreUris

instance (ix : Index) : Decidable ix.ClassesAreUris :=
  inferInstanceAs (Decidable (_ ∧ _))

/-- The classes of an object if it is a blank node that counts, which it always does if it nests a
further one. -/
def Object.countedTypes (counts : Bool) : Object → List String
  | .blank s => if s.nests || counts then s.types else []
  | _ => []

/-- The classes of the blank nodes among some objects that nest a further blank node. -/
def nestingTypes (os : List Object) : List String :=
  os.flatMap (·.countedTypes false)

namespace Visit

def isClass (v : Visit) : Bool :=
  v.hops.isEmpty && v.last.predicate.isType && !v.object.isBlankNode

def isNodeClass (v : Visit) : Bool :=
  v.hops.length == 1 && v.last.predicate.isType && !v.object.isBlankNode

theorem isNodeClass_under (step : Step) (v : Visit) : (v.under step).isNodeClass = v.isClass := by
  obtain ⟨hops, last, object⟩ := v
  cases hops <;> simp [isNodeClass, isClass, under]

end Visit

theorem filter_isClass_visitsOf (step : Step) (o : Object) :
    (visitsOf step o).filter (·.isClass) =
      if step.predicate.isType && !o.isBlankNode then [⟨[], step, o⟩] else [] := by
  cases hb : o.isBlankNode with
  | false => simp [visitsOf_leaf step hb, Visit.isClass, hb, List.filter_cons]
  | true =>
    obtain ⟨b, rfl⟩ := Object.exists_blank hb
    simp [visitsOf_blank, Visit.isClass, Visit.under, Object.isBlankNode]

theorem names_objectVisits (p : Predicate) (slot entry : ℕ) (os : List Object) :
    ((objectVisits p slot entry os).filter (·.isClass)).map (·.object.name) =
      if p.isType then (os.filter fun o => !o.isBlankNode).map (·.name) else [] := by
  induction os generalizing entry with
  | nil => simp [objectVisits]
  | cons o rest ih =>
    rw [objectVisits, List.filter_append, List.map_append, ih, filter_isClass_visitsOf]
    cases p.isType <;> cases hb : o.isBlankNode <;> simp [hb]

theorem names_predicateVisits (slot : ℕ) (ps : List Predicate) :
    ((predicateVisits slot ps).filter (·.isClass)).map (·.object.name) =
      (ps.filter (·.isType)).flatMap fun p =>
        (p.objects.filter fun o => !o.isBlankNode).map (·.name) := by
  induction ps generalizing slot with
  | nil => simp [predicateVisits]
  | cons p rest ih =>
    obtain ⟨uri, cardinality, os⟩ := p
    rw [predicateVisits, List.filter_append, List.map_append, ih, names_objectVisits]
    cases ht : Predicate.isType ⟨uri, cardinality, os⟩ <;> simp [ht]

theorem Subject.ClassesAreUris.names {s : Subject} (h : s.ClassesAreUris) :
    ((predicateVisits 0 s.predicates).filter (·.isClass)).map (·.object.name) = s.types := by
  rw [names_predicateVisits, Subject.types]
  apply List.flatMap_congr
  intro p hp
  obtain ⟨hp, ht⟩ := List.mem_filter.mp hp
  rw [List.filter_eq_self.mpr]
  intro o ho
  have huri := h p hp ht o ho
  cases o <;> simp_all [Object.isUri, Object.isBlankNode]

theorem numbers_append (xs ys : List Step) : numbers (xs ++ ys) = numbers xs ++ numbers ys := by
  simp [numbers, places]

theorem eq_take_append_cons_drop {α : Type} {l : List α} {i : ℕ} {x : α} (h : l[i]? = some x) :
    l = l.take i ++ x :: l.drop (i + 1) := by
  obtain ⟨hi, rfl⟩ := List.getElem?_eq_some_iff.mp h
  rw [← List.drop_eq_getElem_cons hi, List.take_append_drop]

/-- At a hop the route of a triple enters a blank node from the subject that it has reached. -/
structure EntersAt (t : Triple) (i : ℕ) (hop : Step) (s b : Subject) : Prop where
  taken : t.hops[i]? = some hop
  reached : Enters t.subject (t.hops.take i) s
  entered : s.Holds hop (.blank b)

theorem EntersAt.length_take {t : Triple} {i : ℕ} {hop : Step} {s b : Subject}
    (h : EntersAt t i hop s b) : (t.hops.take i).length = i :=
  List.length_take_of_le (List.getElem?_eq_some_iff.mp h.taken).1.le

theorem Subject.Holds.nests {s b : Subject} {step : Step} (h : s.Holds step (.blank b)) :
    s.nests = true := by
  rw [Subject.nests, List.any_eq_true]
  refine ⟨.blank b, List.mem_flatMap.mpr ⟨step.predicate, ?_, ?_⟩, rfl⟩
  · exact List.mem_of_getElem? h.1
  · exact List.mem_of_getElem? h.2

theorem Subject.Holds.name_mem_types {s : Subject} {step : Step} {o : Object} (h : s.Holds step o)
    (ht : step.predicate.isType = true) : o.name ∈ s.types := by
  refine List.mem_flatMap.mpr ⟨step.predicate, List.mem_filter.mpr ⟨?_, ht⟩, ?_⟩
  · exact List.mem_of_getElem? h.1
  · exact List.mem_map_of_mem (List.mem_of_getElem? h.2)

/-- Every hop enters a blank node. This node holds the next step of the route, and it nests a
further blank node unless the hop is the last one. -/
theorem Triple.IsLeafOf.exists_entersAt {subjects : List Subject} {t : Triple} {i : ℕ} {hop : Step}
    (ht : t.IsLeafOf subjects) (hi : t.hops[i]? = some hop) :
    ∃ s b, EntersAt t i hop s b ∧ (b.nests = true ∨ t.hops.length = i + 1) ∧
      ∃ next, t.steps[i + 1]? = some next ∧ b.predicates[next.slot]? = some next.predicate := by
  obtain ⟨-, -, c, henters, hlast⟩ := ht
  have hhops := eq_take_append_cons_drop hi
  have hlength : (t.hops.take i).length = i :=
    List.length_take_of_le (List.getElem?_eq_some_iff.mp hi).1.le
  have hnext : t.steps[i + 1]? = (t.hops.drop (i + 1) ++ [t.last])[0]? := by
    rw [Triple.steps]
    nth_rewrite 1 [hhops]
    rw [List.append_assoc, List.getElem?_append_right (by omega), hlength]
    simp
  rw [hhops] at henters
  obtain ⟨s, hreached, hrest⟩ := Enters.append_iff.mp henters
  cases hrest with
  | @through _ b _ _ _ hentered hrest =>
    refine ⟨s, b, ⟨hi, hreached, hentered⟩, ?_⟩
    generalize t.hops.drop (i + 1) = more at hrest hhops hnext
    cases hrest with
    | here =>
      refine ⟨Or.inr ?_, t.last, hnext, hlast.1⟩
      rw [hhops, List.length_append, hlength]
      rfl
    | @through _ d _ next rest hholds hrest =>
      exact ⟨Or.inl hholds.nests, next, hnext, hholds.1⟩

theorem mem_nodeClasses {p : Predicate} {slot : ℕ} {v : Visit} :
    v ∈ (objectVisits p slot 0 p.objects).filter (·.isNodeClass) ↔
      ∃ entry b, p.objects[entry]? = some (.blank b) ∧ v.hops = [⟨p, slot, entry⟩] ∧
        b.Holds v.last v.object ∧ v.last.predicate.isType = true ∧
        v.object.isBlankNode = false := by
  simp only [List.mem_filter, mem_objectVisits, Nat.zero_add]
  constructor
  · rintro ⟨⟨entry, o, ho, hv⟩, hclass⟩
    rcases mem_visitsOf.mp hv with rfl | ⟨b, rfl, u, hu, rfl⟩
    · simp [Visit.isNodeClass] at hclass
    · rw [Visit.isNodeClass_under, Visit.isClass] at hclass
      simp only [Bool.and_eq_true, List.isEmpty_iff, Bool.not_eq_true'] at hclass
      obtain ⟨⟨hhops, htype⟩, hleaf⟩ := hclass
      obtain ⟨c, henters, hlast⟩ := mem_visits_iff.mp hu
      rw [hhops] at henters
      cases henters
      exact ⟨entry, b, ho, by simp [Visit.under, hhops], hlast, htype, hleaf⟩
  · rintro ⟨entry, b, ho, hhops, hlast, htype, hleaf⟩
    refine ⟨⟨entry, .blank b, ho, mem_visitsOf.mpr (Or.inr ⟨b, rfl, ⟨[], v.last, v.object⟩,
      ?_, ?_⟩)⟩, ?_⟩
    · exact mem_visits_iff.mpr ⟨b, .here b, hlast⟩
    · rw [Visit.under, ← hhops]
    · simp [Visit.isNodeClass, hhops, htype, hleaf]

theorem under_mem_nodeClasses {p : Predicate} {slot entry : ℕ} {d : Subject} {v : Visit}
    (hd : p.objects[entry]? = some (.blank d))
    (hv : v ∈ (predicateVisits 0 d.predicates).filter (·.isClass)) :
    v.under ⟨p, slot, entry⟩ ∈ (objectVisits p slot 0 p.objects).filter (·.isNodeClass) := by
  obtain ⟨hvisited, hclass⟩ := List.mem_filter.mp hv
  refine List.mem_filter.mpr ⟨mem_objectVisits.mpr ⟨entry, .blank d, hd, ?_⟩, ?_⟩
  · rw [Nat.zero_add]
    exact mem_visitsOf.mpr (Or.inr ⟨d, rfl, v, hvisited, rfl⟩)
  · rwa [Visit.isNodeClass_under]

namespace Index

instance : Std.Irrefl fun t u : Triple => t.position < u.position := ⟨fun _ => lt_irrefl _⟩

instance : Std.Antisymm fun t u : Triple => t.position < u.position :=
  ⟨fun _ _ h h' => absurd h' h.asymm⟩

variable {subjects : List Subject} {t : Triple} {i : ℕ} {hop : Step} {s b : Subject}

theorem mem_triples_iff : t ∈ (ofSubjects subjects).triples ↔ t.IsLeafOf subjects :=
  Walk.mem_triples_flatten rfl subjects

theorem mem_blanks_iff {x : BlankSite} :
    x ∈ (ofSubjects subjects).blanks ↔ x.IsNodeOf subjects :=
  Walk.mem_blanks_flatten rfl subjects

/-- The triple of a class that is visited below the subject which the route has reached. -/
def classTriple (t : Triple) (i : ℕ) (v : Visit) : Triple :=
  ⟨t.root, t.subject, t.hops.take i ++ v.hops, v.last, v.object⟩

theorem position_classTriple (v : Visit) :
    (classTriple t i v).position = t.root :: (numbers (t.hops.take i) ++ numbers v.steps) := by
  simp [Triple.position, position, classTriple, Triple.steps, Visit.steps, numbers_append]

theorem mem_typeTriples_iff {u : Triple} : u ∈ (ofSubjects subjects).typeTriples t i ↔
    u.IsLeafOf subjects ∧ u.hops.length = i + 1 ∧ u.root = t.root ∧
      places (u.hops.take i) = places (t.hops.take i) ∧
      u.hops[i]?.map (·.slot) = t.hops[i]?.map (·.slot) ∧ u.predicate.isType = true := by
  simp only [typeTriples, sameRouteTo, List.mem_filter, mem_triples_iff, Bool.and_eq_true,
    beq_iff_eq, and_assoc]

theorem exists_of_mem_typeTriples (ht : t.IsLeafOf subjects) (h : EntersAt t i hop s b)
    {u : Triple} (hu : u ∈ (ofSubjects subjects).typeTriples t i) :
    ∃ v ∈ (objectVisits hop.predicate hop.slot 0 hop.predicate.objects).filter (·.isNodeClass),
      classTriple t i v = u := by
  obtain ⟨⟨hroot, hleaf, d, henters, hlast⟩, hlength, hsame, hplaces, hslot, htype⟩ :=
    mem_typeTriples_iff.mp hu
  obtain ⟨root, subject, hops, last, object⟩ := u
  dsimp only at hlength henters hplaces hslot
  obtain rfl : root = t.root := hsame
  obtain rfl : subject = t.subject := Option.some.inj (hroot.symm.trans ht.1)
  obtain ⟨x, hx⟩ : ∃ x, hops[i]? = some x := ⟨_, List.getElem?_eq_getElem (by omega)⟩
  have hhops : hops = hops.take i ++ [x] := by
    have hdrop : hops.drop (i + 1) = [] := List.drop_eq_nil_of_le (by omega)
    have hsplit := eq_take_append_cons_drop hx
    rwa [hdrop] at hsplit
  -- both routes have reached the same subject, and its predicate at the hop is the same
  rw [hhops] at henters
  obtain ⟨s', hreached, hentered⟩ := Enters.concat_iff.mp henters
  obtain ⟨htake, rfl⟩ := hreached.unique h.reached hplaces
  rw [hx, h.taken, Option.map_some, Option.map_some, Option.some.injEq] at hslot
  have hpredicate : x.predicate = hop.predicate := by
    have hsome := hentered.1
    rw [hslot, h.entered.1] at hsome
    exact (Option.some.inj hsome).symm
  obtain ⟨p, slot, entry⟩ := x
  obtain rfl : p = hop.predicate := hpredicate
  obtain rfl : slot = hop.slot := hslot
  refine ⟨⟨[⟨hop.predicate, hop.slot, entry⟩], last, object⟩, ?_, ?_⟩
  · exact mem_nodeClasses.mpr ⟨entry, d, hentered.2, rfl, hlast, htype, hleaf⟩
  · simp only [classTriple, ← htake, ← hhops]

theorem classTriple_mem_typeTriples (ht : t.IsLeafOf subjects) (h : EntersAt t i hop s b)
    {v : Visit} (hv : v ∈
      (objectVisits hop.predicate hop.slot 0 hop.predicate.objects).filter (·.isNodeClass)) :
    classTriple t i v ∈ (ofSubjects subjects).typeTriples t i := by
  obtain ⟨entry, d, ho, hhops, hlast, htype, hleaf⟩ := mem_nodeClasses.mp hv
  have hlength := h.length_take
  rw [mem_typeTriples_iff]
  refine ⟨⟨ht.1, hleaf, d, ?_, hlast⟩, ?_, rfl, ?_, ?_, htype⟩
  · rw [classTriple, hhops]
    exact Enters.concat_iff.mpr ⟨s, h.reached, h.entered.1, ho⟩
  · simp [classTriple, hhops, hlength]
  · simp [classTriple, hhops, hlength]
  · simp [classTriple, hhops, hlength, h.taken]

/-- The triples that declare a class at a hop are those of the blank nodes under its predicate, in
the order of the walk. -/
theorem typeTriples_eq (ht : t.IsLeafOf subjects) (h : EntersAt t i hop s b) :
    (ofSubjects subjects).typeTriples t i =
      ((objectVisits hop.predicate hop.slot 0 hop.predicate.objects).filter (·.isNodeClass)).map
        (classTriple t i) := by
  have hsorted : ((ofSubjects subjects).typeTriples t i).Pairwise
      fun t u => t.position < u.position := (Walk.pairwise_triples_flatten rfl subjects).filter _
  refine hsorted.eq_of_mem_iff ?_ fun u => ?_
  · rw [List.pairwise_map]
    refine ((pairwise_objectVisits _ hop.slot 0 _).filter _).imp ?_
    intro v v' hlt
    rw [position_classTriple, position_classTriple, List.cons_lt_cons_iff]
    exact Or.inr ⟨rfl, List.append_left_lt hlt⟩
  · rw [List.mem_map]
    constructor
    · exact exists_of_mem_typeTriples ht h
    · rintro ⟨v, hv, rfl⟩
      exact classTriple_mem_typeTriples ht h hv

theorem filter_holds {u : Triple} (hu : u.IsLeafOf subjects) (hne : u.hops ≠ []) {d : Subject}
    (hd : Enters u.subject u.hops d) (q : BlankSite → Bool) :
    ((ofSubjects subjects).blanks.filter fun x => holds x u && q x) =
      if q ⟨u.root, u.hops, d⟩ then [⟨u.root, u.hops, d⟩] else [] := by
  have hnode : BlankSite.IsNodeOf subjects ⟨u.root, u.hops, d⟩ := ⟨hne, u.subject, hu.1, hd⟩
  have honly : ∀ x ∈ (ofSubjects subjects).blanks, holds x u = true → x = ⟨u.root, u.hops, d⟩ := by
    intro x hx hholds
    simp only [holds, Bool.and_eq_true, beq_iff_eq] at hholds
    exact (mem_blanks_iff.mp hx).eq_of_places hnode hholds.1 hholds.2
  have hnodup : (ofSubjects subjects).blanks.Nodup := Walk.nodup_blanks_flatten rfl subjects
  split_ifs with hq
  · apply eq_singleton_of_nodup (hnodup.filter _)
    · exact List.mem_filter.mpr ⟨mem_blanks_iff.mpr hnode, by simp [hq, holds]⟩
    · intro x hx
      obtain ⟨hx, hholds⟩ := List.mem_filter.mp hx
      exact honly x hx (Bool.and_eq_true_iff.mp hholds).1
  · rw [List.filter_eq_nil_iff]
    intro x hx hholds
    obtain ⟨hholds, hqx⟩ := Bool.and_eq_true_iff.mp hholds
    exact hq (honly x hx hholds ▸ hqx)

theorem holds_eq_true_iff (h : EntersAt t i hop s b) (entry : ℕ) (d : Subject) :
    holds ⟨t.root, t.hops.take i ++ [⟨hop.predicate, hop.slot, entry⟩], d⟩ t = true ↔
      entry = hop.entry ∧ t.hops.length = i + 1 := by
  have hhops := eq_take_append_cons_drop h.taken
  have hlength := h.length_take
  have hplaces : places t.hops =
      places (t.hops.take i) ++ hop.place :: places (t.hops.drop (i + 1)) := by
    nth_rewrite 1 [hhops]
    simp [places]
  have hlast : t.hops.length = i + 1 ↔ t.hops.drop (i + 1) = [] := by
    nth_rewrite 1 [hhops]
    rw [List.length_append, hlength, List.length_cons, ← List.length_eq_zero_iff]
    omega
  rw [hlast, holds, hplaces]
  simp [places, Step.place]

theorem counts_eq (h : EntersAt t i hop s b) (hb : b.nests = true ∨ t.hops.length = i + 1)
    {entry : ℕ} {d : Subject} (hd : hop.predicate.objects[entry]? = some (.blank d)) :
    (d.nests || holds ⟨t.root, t.hops.take i ++ [⟨hop.predicate, hop.slot, entry⟩], d⟩ t) =
      (d.nests || entry == hop.entry) := by
  rw [Bool.eq_iff_iff, Bool.or_eq_true, Bool.or_eq_true, holds_eq_true_iff h, beq_iff_eq]
  constructor
  · exact Or.imp_right And.left
  · rintro (hnests | rfl)
    · exact Or.inl hnests
    · have hsame : b = d := Object.blank.inj (Option.some.inj (h.entered.2.symm.trans hd))
      exact hb.imp (fun hnests => hsame ▸ hnests) fun hlast => ⟨rfl, hlast⟩

/-- What the declaration of a class contributes to the classes at a hop of a triple: its name, if
the blank node that holds it counts. -/
def contribution (ix : Index) (t u : Triple) : List String :=
  (ix.blanks.filter fun x =>
    holds x u && (x.subject.objects.any (·.isBlankNode) || holds x t)).map fun _ => u.object.name

theorem typesAtHop_eq (ix : Index) (t : Triple) (i : ℕ) :
    ix.typesAtHop t i = if (ix.typeTriples t i).isEmpty then none
      else some (distinct ((ix.typeTriples t i).flatMap (ix.contribution t))) := by
  unfold typesAtHop
  split
  · simp [*]
  · rw [if_neg (by simpa using ‹_›)]
    rfl

variable (hix : (ofSubjects subjects).ClassesAreUris) (ht : t.IsLeafOf subjects)
  (h : EntersAt t i hop s b) (hb : b.nests = true ∨ t.hops.length = i + 1)
  {entry : ℕ} {o : Object} {d : Subject}

include ht h in
theorem isNodeOf_entry (hd : hop.predicate.objects[entry]? = some (.blank d)) :
    BlankSite.IsNodeOf subjects
      ⟨t.root, t.hops.take i ++ [⟨hop.predicate, hop.slot, entry⟩], d⟩ :=
  ⟨by simp, t.subject, ht.1, Enters.concat_iff.mpr ⟨s, h.reached, h.entered.1, hd⟩⟩

include ht h hb in
theorem contribution_classTriple {v : Visit}
    (hv : v ∈ (objectVisits hop.predicate hop.slot 0 hop.predicate.objects).filter (·.isNodeClass))
    (hd : hop.predicate.objects[entry]? = some (.blank d))
    (hhops : v.hops = [⟨hop.predicate, hop.slot, entry⟩]) :
    (ofSubjects subjects).contribution t (classTriple t i v) =
      if d.nests || entry == hop.entry then [v.object.name] else [] := by
  have hleaf := (mem_typeTriples_iff.mp (classTriple_mem_typeTriples ht h hv)).1
  have henters : Enters t.subject (t.hops.take i ++ v.hops) d := by
    rw [hhops]
    exact Enters.concat_iff.mpr ⟨s, h.reached, h.entered.1, hd⟩
  have hne : (classTriple t i v).hops ≠ [] := by simp [classTriple, hhops]
  rw [contribution, filter_holds hleaf hne henters, ← counts_eq h hb hd]
  simp only [classTriple, hhops, Subject.nests]
  rw [apply_ite (List.map fun _ => v.object.name)]
  rfl

include hix ht h hb in
theorem contribution_visitsOf (ho : hop.predicate.objects[entry]? = some o) :
    ((visitsOf ⟨hop.predicate, hop.slot, entry⟩ o).filter (·.isNodeClass)).flatMap
      (fun v => (ofSubjects subjects).contribution t (classTriple t i v)) =
        o.countedTypes (entry == hop.entry) := by
  cases hblank : o.isBlankNode with
  | false =>
    rw [visitsOf_leaf _ hblank]
    cases o <;> simp_all [Visit.isNodeClass, Object.countedTypes, Object.isBlankNode]
  | true =>
    obtain ⟨d, rfl⟩ := Object.exists_blank hblank
    have hclasses : d.ClassesAreUris := hix.2 _ (mem_blanks_iff.mpr (isNodeOf_entry ht h ho))
    have hself : Visit.isNodeClass ⟨[], ⟨hop.predicate, hop.slot, entry⟩, .blank d⟩ = false := rfl
    have hunder : (fun v : Visit => v.isNodeClass) ∘ Visit.under ⟨hop.predicate, hop.slot, entry⟩ =
        fun v => v.isClass := funext fun v => Visit.isNodeClass_under _ v
    rw [visitsOf_blank, List.filter_cons_of_neg (by simp [hself]), List.filter_map, hunder,
      List.flatMap_map, Object.countedTypes, ← hclasses.names]
    have hvisit : ∀ v ∈ (predicateVisits 0 d.predicates).filter (·.isClass),
        (ofSubjects subjects).contribution t
          (classTriple t i (v.under ⟨hop.predicate, hop.slot, entry⟩)) =
            if d.nests || entry == hop.entry then [v.object.name] else [] := by
      intro v hv
      have hhops : v.hops = [] := by
        have hclass := (List.mem_filter.mp hv).2
        simp only [Visit.isClass, Bool.and_eq_true, List.isEmpty_iff] at hclass
        exact hclass.1.1
      exact contribution_classTriple ht h hb (under_mem_nodeClasses ho hv) ho
        (by simp [Visit.under, hhops])
    rw [List.flatMap_congr hvisit]
    split_ifs <;> simp [List.map_eq_flatMap]

include hix ht h hb in
theorem contribution_objectVisits (entry : ℕ) (os : List Object)
    (hos : ∀ j o, os[j]? = some o → hop.predicate.objects[entry + j]? = some o) :
    ((objectVisits hop.predicate hop.slot entry os).filter (·.isNodeClass)).flatMap
      (fun v => (ofSubjects subjects).contribution t (classTriple t i v)) =
        (os.zipIdx entry).flatMap fun x => x.1.countedTypes (x.2 == hop.entry) := by
  induction os generalizing entry with
  | nil => simp [objectVisits]
  | cons o rest ih =>
    have ho : hop.predicate.objects[entry]? = some o := hos 0 o rfl
    have hrest : ∀ j o, rest[j]? = some o → hop.predicate.objects[entry + 1 + j]? = some o := by
      intro j o hj
      rw [show entry + 1 + j = entry + (j + 1) by omega]
      exact hos (j + 1) o hj
    rw [objectVisits, List.filter_append, List.flatMap_append, ih (entry + 1) hrest,
      contribution_visitsOf hix ht h hb ho, List.zipIdx_cons, List.flatMap_cons]

/-- Objects at other places than that of the hop count only if they nest a blank node. -/
theorem flatMap_countedTypes {os : List Object} {k : ℕ}
    (hne : ∀ j, k ≤ j → j < k + os.length → j ≠ hop.entry) :
    ((os.zipIdx k).flatMap fun x => x.1.countedTypes (x.2 == hop.entry)) = nestingTypes os := by
  induction os generalizing k with
  | nil => rfl
  | cons o rest ih =>
    have hfirst : (k == hop.entry) = false := by
      have := hne k le_rfl (by simp)
      simpa using this
    rw [List.zipIdx_cons, List.flatMap_cons, hfirst, ih, nestingTypes, nestingTypes,
      List.flatMap_cons]
    intro j hj hlt
    apply hne j (by omega)
    rw [List.length_cons]
    omega

include hix ht h hb in
/-- The classes at a hop: those of the blank node that the route enters, between those of the other
blank nodes under the predicate that nest a further one. -/
theorem contributions_eq :
    ((ofSubjects subjects).typeTriples t i).flatMap ((ofSubjects subjects).contribution t) =
      nestingTypes (hop.predicate.objects.take hop.entry) ++ b.types ++
        nestingTypes (hop.predicate.objects.drop (hop.entry + 1)) := by
  have hobjects := eq_take_append_cons_drop h.entered.2
  have hlength : (hop.predicate.objects.take hop.entry).length = hop.entry :=
    List.length_take_of_le (List.getElem?_eq_some_iff.mp h.entered.2).1.le
  have hsplit : hop.predicate.objects.zipIdx 0 =
      (hop.predicate.objects.take hop.entry).zipIdx 0 ++ (.blank b, hop.entry) ::
        (hop.predicate.objects.drop (hop.entry + 1)).zipIdx (hop.entry + 1) := by
    nth_rewrite 1 [hobjects]
    rw [List.zipIdx_append, List.zipIdx_cons, hlength, Nat.zero_add]
  rw [typeTriples_eq ht h, List.flatMap_map, contribution_objectVisits hix ht h hb 0 _ (by simp),
    hsplit, List.flatMap_append, List.flatMap_cons, flatMap_countedTypes, flatMap_countedTypes]
  · simp [Object.countedTypes]
  · intro j hj _
    omega
  · intro j _ hlt
    omega

theorem typeTriples_eq_nil_iff (hix : (ofSubjects subjects).ClassesAreUris)
    (ht : t.IsLeafOf subjects) (h : EntersAt t i hop s b) :
    (ofSubjects subjects).typeTriples t i = [] ↔
      ∀ d, .blank d ∈ hop.predicate.objects → d.types = [] := by
  rw [typeTriples_eq ht h, List.map_eq_nil_iff, List.eq_nil_iff_forall_not_mem]
  constructor
  · intro hnone d hd
    obtain ⟨entry, hentry⟩ := List.mem_iff_getElem?.mp hd
    have hclasses : d.ClassesAreUris := hix.2 _ (mem_blanks_iff.mpr (isNodeOf_entry ht h hentry))
    rw [← hclasses.names, List.map_eq_nil_iff, List.eq_nil_iff_forall_not_mem]
    exact fun v hv => hnone _ (under_mem_nodeClasses hentry hv)
  · intro hnone v hv
    obtain ⟨entry, d, hd, -, hlast, htype, -⟩ := mem_nodeClasses.mp hv
    have hmem := hlast.name_mem_types htype
    rw [hnone d (List.mem_of_getElem? hd)] at hmem
    simp at hmem

/-- The classes at the hops of a route. At each hop the route enters a blank node that holds its
next step. There are no classes exactly if no blank node under the predicate of the hop has any.
Otherwise the classes of the entered node stand between those of the other blank nodes under the
predicate that nest a further one. They are just those of the entered node exactly if the classes
before them begin them and the classes behind them are among them. -/
theorem blankTypes_at_hop (hix : (ofSubjects subjects).ClassesAreUris)
    (ht : t ∈ (ofSubjects subjects).triples) (hi : t.hops[i]? = some hop) :
    ∃ b next, hop.predicate.objects[hop.entry]? = some (.blank b) ∧
      t.steps[i + 1]? = some next ∧ b.predicates[next.slot]? = some next.predicate ∧
      let found := ((ofSubjects subjects).blankTypes t)[i]?
      let before := nestingTypes (hop.predicate.objects.take hop.entry)
      let behind := nestingTypes (hop.predicate.objects.drop (hop.entry + 1))
      (found = some none ↔ ∀ d, .blank d ∈ hop.predicate.objects → d.types = []) ∧
      (found ≠ some none → found = some (some (distinct (before ++ b.types ++ behind)))) ∧
      (found ≠ some none → (found = some (some (distinct b.types)) ↔
        distinct before <+: distinct b.types ∧ behind ⊆ b.types)) := by
  have hleaf := mem_triples_iff.mp ht
  obtain ⟨s, b, h, hb, next, hnext, howned⟩ := hleaf.exists_entersAt hi
  refine ⟨b, next, h.entered.2, hnext, howned, ?_⟩
  intro found before behind
  have hfound : found = some ((ofSubjects subjects).typesAtHop t i) := by
    have hlt := (List.getElem?_eq_some_iff.mp hi).1
    simp [found, blankTypes, hlt]
  rw [typesAtHop_eq, contributions_eq hix hleaf h hb] at hfound
  have hnone : found = some none ↔ ∀ d, .blank d ∈ hop.predicate.objects → d.types = [] := by
    rw [← typeTriples_eq_nil_iff hix hleaf h, hfound, ← List.isEmpty_iff]
    split_ifs <;> simp_all
  have hsome : found ≠ some none →
      found = some (some (distinct (before ++ b.types ++ behind))) := by
    intro hne
    rw [hfound, if_neg]
    intro hempty
    exact hne (by rw [hfound, if_pos hempty])
  refine ⟨hnone, hsome, fun hne => ?_⟩
  rw [hsome hne, Option.some.injEq, Option.some.injEq, distinct_around_eq_iff]

/-- Two blank nodes under one predicate. The first one nests a further blank node, the second one
holds a value. -/
def partBesideValue : List Subject := [
  ⟨"Entry", none, false, [⟨"a", none, [.uri "ex:Entry" "ex:Entry"]⟩,
    ⟨"ex:has", none, [
      .blank ⟨blankName, none, true, [⟨"a", none, [.uri "ex:A" "ex:A"]⟩,
        ⟨"ex:part", none, [.blank ⟨blankName, none, true, [⟨"ex:size", none, [.var "size"]⟩]⟩]⟩]⟩,
      .blank ⟨blankName, none, true, [⟨"a", none, [.uri "ex:B" "ex:B"]⟩,
        ⟨"ex:value", none, [.var "value"]⟩]⟩]⟩]⟩]

theorem blankTypes_at_hop_partBesideValue :
    (ofSubjects partBesideValue).ClassesAreUris ∧
    ∃ t ∈ (ofSubjects partBesideValue).triples, ∃ hop, t.hops[0]? = some hop ∧
      t.object.name = "size" ∧
      ((ofSubjects partBesideValue).blankTypes t)[0]? = some (some ["ex:A"]) := by
  have hclasses : (ofSubjects partBesideValue).ClassesAreUris := by decide +kernel
  obtain ⟨t, ht⟩ : ∃ t, (ofSubjects partBesideValue).triples[2]? = some t := ⟨_, rfl⟩
  refine ⟨hclasses, t, List.mem_of_getElem? ht, ?_⟩
  cases ht
  refine ⟨_, rfl, rfl, ?_⟩
  obtain ⟨b, next, hb, -, -, -, -, hexact⟩ := blankTypes_at_hop (i := 0) hclasses
    (List.mem_of_getElem? (i := 2) rfl) rfl
  cases hb
  exact (hexact (by decide)).mpr ⟨by decide, by decide⟩

/-- The class of the node beside it is found at the hop to the value. -/
theorem partBesideValue_not_exact :
    ∃ t ∈ (ofSubjects partBesideValue).triples, ∃ hop b, t.hops[0]? = some hop ∧
      hop.predicate.objects[hop.entry]? = some (.blank b) ∧ t.object ∈ b.objects ∧
      b.types = ["ex:B"] ∧
      ((ofSubjects partBesideValue).blankTypes t)[0]? = some (some ["ex:A", "ex:B"]) := by
  obtain ⟨t, ht⟩ : ∃ t, (ofSubjects partBesideValue).triples[4]? = some t := ⟨_, rfl⟩
  refine ⟨t, List.mem_of_getElem? ht, ?_⟩
  cases ht
  exact ⟨_, _, rfl, rfl, by simp [Subject.objects], rfl, by decide +kernel⟩

end Index

end SparqlModel
