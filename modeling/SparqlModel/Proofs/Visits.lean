import Mathlib.Data.List.Lex
import SparqlModel.Proofs.Names

/-!
# The places that a walk visits

Steps lead from a root subject through blank nodes to an object. A walk visits every object that is
reached in this way, each once: a leaf gives a triple, a blank node is recorded and then entered.
The numbers of the subjects, predicates and objects on the way are the position of a visit. In the
order of the walk the positions increase lexicographically, so that subjects, predicates and objects
keep their order and a blank node comes before all that is nested in it.

The main statement is `Walk.flatten_lists`: whatever a walk was used for before, flattening lists
the leaves and the blank nodes of a graph in this way, and leaves an empty stack.
-/

namespace SparqlModel

/-- An object stands below a subject at the place of a step. -/
def Subject.Holds (s : Subject) (step : Step) (o : Object) : Prop :=
  s.predicates[step.slot]? = some step.predicate ∧ step.predicate.objects[step.entry]? = some o

/-- Steps lead from a subject to another one, each of them into a blank node. -/
inductive Enters : Subject → List Step → Subject → Prop
  | here (s : Subject) : Enters s [] s
  | through {s b c : Subject} {step : Step} {steps : List Step} (hstep : s.Holds step (.blank b))
      (hrest : Enters b steps c) : Enters s (step :: steps) c

def numbers (steps : List Step) : List ℕ :=
  (places steps).flatMap fun p => [p.1, p.2]

@[simp] theorem numbers_cons (step : Step) (steps : List Step) :
    numbers (step :: steps) = step.slot :: step.entry :: numbers steps := rfl

theorem numbers_cons_lt (step : Step) {steps steps' : List Step}
    (h : numbers steps < numbers steps') : numbers (step :: steps) < numbers (step :: steps') := by
  rw [numbers_cons, numbers_cons, List.cons_lt_cons_iff, List.cons_lt_cons_iff]
  exact Or.inr ⟨rfl, Or.inr ⟨rfl, h⟩⟩

/-- The position of a route: the number of its root, and the numbers on the way. -/
def position (root : ℕ) (steps : List Step) : List ℕ :=
  root :: numbers steps

def Triple.position (t : Triple) : List ℕ :=
  SparqlModel.position t.root t.steps

def BlankSite.position (b : BlankSite) : List ℕ :=
  SparqlModel.position b.root b.steps

/-- An object that is visited below a subject: the steps that enter blank nodes, and the last step,
which reaches the object. -/
structure Visit where
  hops : List Step
  last : Step
  object : Object

namespace Visit

/-- The visit as it is seen from above the blank node that a step enters. -/
def under (step : Step) (v : Visit) : Visit :=
  { v with hops := step :: v.hops }

def steps (v : Visit) : List Step :=
  v.hops ++ [v.last]

/-- A leaf gives a triple, where the steps on the stack lead to the subject. -/
def triple? (root : ℕ) (owner : Subject) (stack : List Step) (v : Visit) : Option Triple :=
  if v.object.isBlankNode then none else some ⟨root, owner, stack ++ v.hops, v.last, v.object⟩

def site? (root : ℕ) (stack : List Step) (v : Visit) : Option BlankSite :=
  match v.object with
  | .blank s => some ⟨root, stack ++ v.steps, s⟩
  | _ => none

end Visit

mutual

def predicateVisits : ℕ → List Predicate → List Visit
  | _, [] => []
  | slot, p@⟨_, _, os⟩ :: rest => objectVisits p slot 0 os ++ predicateVisits (slot + 1) rest

def objectVisits (p : Predicate) (slot : ℕ) : ℕ → List Object → List Visit
  | _, [] => []
  | entry, o :: rest => visitsOf ⟨p, slot, entry⟩ o ++ objectVisits p slot (entry + 1) rest

/-- The visit of an object comes before those of the objects that are nested in it. -/
def visitsOf (step : Step) : Object → List Visit
  | .blank s@⟨_, _, _, ps⟩ => ⟨[], step, .blank s⟩ :: (predicateVisits 0 ps).map (·.under step)
  | o => [⟨[], step, o⟩]

end

theorem Object.exists_blank {o : Object} (h : o.isBlankNode = true) : ∃ b, o = .blank b := by
  cases o with
  | blank b => exact ⟨b, rfl⟩
  | _ => cases h

theorem visitsOf_leaf (step : Step) {o : Object} (ho : o.isBlankNode = false) :
    visitsOf step o = [⟨[], step, o⟩] := by
  cases o with
  | blank s => simp [Object.isBlankNode] at ho
  | _ => simp [visitsOf]

theorem visitsOf_blank (step : Step) (s : Subject) :
    visitsOf step (.blank s) =
      ⟨[], step, .blank s⟩ :: (predicateVisits 0 s.predicates).map (·.under step) := by
  cases s
  simp [visitsOf]

namespace Walk

theorem object_leaf (root : ℕ) (owner : Subject) (step : Step) {o : Object}
    (ho : o.isBlankNode = false) (w : Walk) :
    object root owner step o w =
      { w with triples := w.triples ++ [⟨root, owner, w.stack, step, o⟩] } := by
  cases o with
  | blank s => simp [Object.isBlankNode] at ho
  | _ => simp [object]

def collect (root : ℕ) (owner : Subject) (visits : List Visit) (w : Walk) : Walk :=
  { w with
    triples := w.triples ++ visits.filterMap (·.triple? root owner w.stack)
    blanks := w.blanks ++ visits.filterMap (·.site? root w.stack) }

theorem collect_append (root : ℕ) (owner : Subject) (visits visits' : List Visit) (w : Walk) :
    w.collect root owner (visits ++ visits') =
      (w.collect root owner visits).collect root owner visits' := by
  simp [collect]

theorem collect_under (root : ℕ) (owner : Subject) (step : Step) (visits : List Visit) (w : Walk) :
    { collect root owner visits { w with stack := w.stack ++ [step] } with stack := w.stack } =
      w.collect root owner (visits.map (·.under step)) := by
  simp [collect, List.filterMap_map, Visit.triple?, Visit.site?, Visit.under,
    Visit.steps]

mutual

/-- The walk over predicates leaves its stack as it was and collects what it visits. -/
theorem predicates_visits (root : ℕ) (owner : Subject) (slot : ℕ) (ps : List Predicate) (w : Walk) :
    predicates root owner slot ps w = w.collect root owner (predicateVisits slot ps) := by
  match ps with
  | [] => simp [predicates, predicateVisits, collect]
  | ⟨uri, cardinality, os⟩ :: rest =>
    rw [predicates, objects_visits, predicates_visits, predicateVisits, collect_append]

theorem objects_visits (root : ℕ) (owner : Subject) (p : Predicate) (slot entry : ℕ)
    (os : List Object) (w : Walk) :
    objects root owner p slot entry os w =
      w.collect root owner (objectVisits p slot entry os) := by
  match os with
  | [] => simp [objects, objectVisits, collect]
  | o :: rest => rw [objects, object_visits, objects_visits, objectVisits, collect_append]

theorem object_visits (root : ℕ) (owner : Subject) (step : Step) (o : Object) (w : Walk) :
    object root owner step o w = w.collect root owner (visitsOf step o) := by
  cases hb : o.isBlankNode with
  | false =>
    rw [object_leaf root owner step hb, visitsOf_leaf step hb]
    cases o <;> simp_all [collect, Visit.triple?, Visit.site?, Object.isBlankNode]
  | true =>
    match o, hb with
    | .blank ⟨name, value, isBlank, ps⟩, _ =>
      let s : Subject := ⟨name, value, isBlank, ps⟩
      have hsite : w.collect root owner [⟨[], step, .blank s⟩] =
          { w with blanks := w.blanks ++ [⟨root, w.stack ++ [step], s⟩] } := by
        simp [collect, Visit.triple?, Visit.site?, Visit.steps, Object.isBlankNode]
      have hcons := collect_append root owner [⟨[], step, .blank s⟩]
        ((predicateVisits 0 ps).map (·.under step)) w
      rw [List.singleton_append, hsite, ← collect_under] at hcons
      rw [object, visitsOf, predicates_visits, hcons]
      simp [collect, s]

end

theorem roots_visits (root : ℕ) (subjects : List Subject) (w : Walk) :
    roots root subjects w =
      ⟨w.stack,
        w.triples ++ (subjects.zipIdx root).flatMap fun p =>
          (predicateVisits 0 p.1.predicates).filterMap (·.triple? p.2 p.1 w.stack),
        w.blanks ++ (subjects.zipIdx root).flatMap fun p =>
          (predicateVisits 0 p.1.predicates).filterMap (·.site? p.2 w.stack)⟩ := by
  induction subjects generalizing root w with
  | nil => simp [roots]
  | cons s rest ih =>
    rw [roots, predicates_visits, ih]
    simp [collect]

end Walk

variable {s : Subject} {v : Visit} {p : Predicate} {step : Step} {o : Object}

theorem mem_visitsOf : v ∈ visitsOf step o ↔ v = ⟨[], step, o⟩ ∨
    ∃ b, o = .blank b ∧ ∃ u ∈ predicateVisits 0 b.predicates, u.under step = v := by
  cases hb : o.isBlankNode with
  | false =>
    rw [visitsOf_leaf step hb, List.mem_singleton, or_iff_left]
    rintro ⟨b, rfl, -⟩
    cases hb
  | true =>
    obtain ⟨b, rfl⟩ := Object.exists_blank hb
    simp [visitsOf_blank]

theorem mem_objectVisits {slot entry : ℕ} {os : List Object} :
    v ∈ objectVisits p slot entry os ↔
      ∃ i o, os[i]? = some o ∧ v ∈ visitsOf ⟨p, slot, entry + i⟩ o := by
  induction os generalizing entry with
  | nil => simp [objectVisits]
  | cons o rest ih =>
    rw [objectVisits, List.mem_append, ih]
    constructor
    · rintro (h | ⟨i, o', ho, h⟩)
      · exact ⟨0, o, rfl, h⟩
      · exact ⟨i + 1, o', ho, by rwa [show entry + (i + 1) = entry + 1 + i by omega]⟩
    · rintro ⟨i, o', ho, h⟩
      cases i with
      | zero => exact Or.inl (by simpa [← Option.some.inj ho] using h)
      | succ i => exact Or.inr ⟨i, o', ho, by rwa [show entry + 1 + i = entry + (i + 1) by omega]⟩

theorem mem_predicateVisits {slot : ℕ} {ps : List Predicate} :
    v ∈ predicateVisits slot ps ↔
      ∃ i p, ps[i]? = some p ∧ v ∈ objectVisits p (slot + i) 0 p.objects := by
  induction ps generalizing slot with
  | nil => simp [predicateVisits]
  | cons p rest ih =>
    obtain ⟨uri, cardinality, os⟩ := p
    rw [predicateVisits, List.mem_append, ih]
    constructor
    · rintro (h | ⟨i, q, hq, h⟩)
      · exact ⟨0, _, rfl, h⟩
      · exact ⟨i + 1, q, hq, by rwa [show slot + (i + 1) = slot + 1 + i by omega]⟩
    · rintro ⟨i, q, hq, h⟩
      cases i with
      | zero => exact Or.inl (by simpa [← Option.some.inj hq] using h)
      | succ i => exact Or.inr ⟨i, q, hq, by rwa [show slot + 1 + i = slot + (i + 1) by omega]⟩

theorem mem_visits : v ∈ predicateVisits 0 s.predicates ↔
    ∃ step o, s.Holds step o ∧ v ∈ visitsOf step o := by
  simp only [mem_predicateVisits, mem_objectVisits, Nat.zero_add]
  constructor
  · rintro ⟨slot, p, hp, entry, o, ho, h⟩
    exact ⟨⟨p, slot, entry⟩, o, ⟨hp, ho⟩, h⟩
  · rintro ⟨step, o, ⟨hp, ho⟩, h⟩
    exact ⟨step.slot, step.predicate, hp, step.entry, o, ho, h⟩

/-- Everything that can be reached is visited, and nothing else. -/
theorem mem_visits_iff :
    v ∈ predicateVisits 0 s.predicates ↔ ∃ b, Enters s v.hops b ∧ b.Holds v.last v.object := by
  obtain ⟨hops, last, object⟩ := v
  induction hops generalizing s with
  | nil =>
    rw [mem_visits]
    constructor
    · rintro ⟨step, o, hstep, h⟩
      rcases mem_visitsOf.mp h with h | ⟨b, -, u, -, h⟩
      · cases h
        exact ⟨s, .here s, hstep⟩
      · cases h
    · rintro ⟨b, henters, hlast⟩
      cases henters
      exact ⟨last, object, hlast, mem_visitsOf.mpr (Or.inl rfl)⟩
  | cons hop rest ih =>
    rw [mem_visits]
    constructor
    · rintro ⟨step, o, hstep, h⟩
      rcases mem_visitsOf.mp h with h | ⟨b, rfl, u, hu, h⟩
      · cases h
      · cases h
        obtain ⟨c, henters, hlast⟩ := ih.mp hu
        exact ⟨c, .through hstep henters, hlast⟩
    · rintro ⟨c, henters, hlast⟩
      cases henters with
      | @through _ b _ _ _ hstep hrest =>
        have hu := ih.mpr ⟨c, hrest, hlast⟩
        exact ⟨hop, .blank b, hstep, mem_visitsOf.mpr (Or.inr ⟨b, rfl, _, hu, rfl⟩)⟩

theorem steps_of_mem_visitsOf {step : Step} {o : Object} {v : Visit} (h : v ∈ visitsOf step o) :
    ∃ rest, v.steps = step :: rest := by
  rcases mem_visitsOf.mp h with rfl | ⟨b, -, u, -, rfl⟩
  · exact ⟨[], rfl⟩
  · exact ⟨u.steps, rfl⟩

mutual

/-- The numbers of visits increase in the order of the walk. -/
theorem pairwise_predicateVisits (slot : ℕ) (ps : List Predicate) :
    (predicateVisits slot ps).Pairwise fun v v' => numbers v.steps < numbers v'.steps := by
  match ps with
  | [] => simp [predicateVisits]
  | ⟨uri, cardinality, os⟩ :: rest =>
    rw [predicateVisits, List.pairwise_append]
    refine ⟨pairwise_objectVisits _ slot 0 os, pairwise_predicateVisits (slot + 1) rest, ?_⟩
    intro v hv v' hv'
    obtain ⟨i, o, -, hv⟩ := mem_objectVisits.mp hv
    obtain ⟨j, q, -, hv'⟩ := mem_predicateVisits.mp hv'
    obtain ⟨i', o', -, hv'⟩ := mem_objectVisits.mp hv'
    obtain ⟨more, hsteps⟩ := steps_of_mem_visitsOf hv
    obtain ⟨more', hsteps'⟩ := steps_of_mem_visitsOf hv'
    rw [hsteps, hsteps', numbers_cons, numbers_cons, List.cons_lt_cons_iff]
    left
    dsimp only
    omega

theorem pairwise_objectVisits (p : Predicate) (slot entry : ℕ) (os : List Object) :
    (objectVisits p slot entry os).Pairwise fun v v' => numbers v.steps < numbers v'.steps := by
  match os with
  | [] => simp [objectVisits]
  | o :: rest =>
    rw [objectVisits, List.pairwise_append]
    refine ⟨pairwise_visitsOf _ o, pairwise_objectVisits p slot (entry + 1) rest, ?_⟩
    intro v hv v' hv'
    obtain ⟨i, o', -, hv'⟩ := mem_objectVisits.mp hv'
    obtain ⟨more, hsteps⟩ := steps_of_mem_visitsOf hv
    obtain ⟨more', hsteps'⟩ := steps_of_mem_visitsOf hv'
    rw [hsteps, hsteps', numbers_cons, numbers_cons, List.cons_lt_cons_iff, List.cons_lt_cons_iff]
    right
    refine ⟨rfl, Or.inl ?_⟩
    dsimp only
    omega

theorem pairwise_visitsOf (step : Step) (o : Object) :
    (visitsOf step o).Pairwise fun v v' => numbers v.steps < numbers v'.steps := by
  cases hb : o.isBlankNode with
  | false => simp [visitsOf_leaf step hb]
  | true =>
    match o, hb with
    | .blank ⟨name, value, isBlank, ps⟩, _ =>
      rw [visitsOf, List.pairwise_cons, List.pairwise_map]
      refine ⟨?_, (pairwise_predicateVisits 0 ps).imp ?_⟩
      · -- the blank node itself ends where the nested visits go on
        intro v hv
        obtain ⟨⟨hops, last, object⟩, -, rfl⟩ := List.mem_map.mp hv
        apply numbers_cons_lt
        cases hops <;> exact List.nil_lt_cons _ _
      · intro v v' h
        exact numbers_cons_lt step h

end

theorem pairwise_roots {α : Type} (give : Subject × ℕ → Visit → Option α) (pos : α → List ℕ)
    (hpos : ∀ {p v a}, give p v = some a → pos a = p.2 :: numbers v.steps)
    (subjects : List Subject) :
    (subjects.zipIdx.flatMap fun p =>
      (predicateVisits 0 p.1.predicates).filterMap (give p)).Pairwise
        fun a b => pos a < pos b := by
  rw [List.pairwise_flatMap]
  constructor
  · intro p _
    refine (pairwise_predicateVisits 0 p.1.predicates).filterMap (give p) ?_
    intro v v' h a ha b hb
    rw [hpos ha, hpos hb, List.cons_lt_cons_iff]
    exact Or.inr ⟨rfl, h⟩
  · have hroots : (subjects.zipIdx.map Prod.snd).Pairwise (· < ·) := by
      rw [List.zipIdx_map_snd]
      exact List.pairwise_lt_range'
    refine (List.pairwise_map.mp hroots).imp ?_
    intro p q h a ha b hb
    obtain ⟨v, -, ha⟩ := List.mem_filterMap.mp ha
    obtain ⟨v', -, hb⟩ := List.mem_filterMap.mp hb
    rw [hpos ha, hpos hb, List.cons_lt_cons_iff]
    exact Or.inl h

theorem Subject.Holds.unique {s : Subject} {step step' : Step} {o o' : Object}
    (h : s.Holds step o) (h' : s.Holds step' o') (hplace : step.place = step'.place) :
    step = step' ∧ o = o' := by
  obtain ⟨p, slot, entry⟩ := step
  obtain ⟨p', slot', entry'⟩ := step'
  obtain ⟨rfl, rfl⟩ : slot = slot' ∧ entry = entry' := Prod.mk.inj hplace
  obtain rfl : p = p' := Option.some.inj (h.1.symm.trans h'.1)
  exact ⟨rfl, Option.some.inj (h.2.symm.trans h'.2)⟩

namespace Enters

variable {b c : Subject} {xs ys : List Step}

theorem append_iff : Enters s (xs ++ ys) c ↔ ∃ b, Enters s xs b ∧ Enters b ys c := by
  induction xs generalizing s with
  | nil =>
    constructor
    · exact fun h => ⟨s, .here s, h⟩
    · rintro ⟨b, hb, h⟩
      cases hb
      exact h
  | cons step rest ih =>
    constructor
    · intro h
      cases h with
      | through hstep hrest =>
        obtain ⟨b, hb, h⟩ := ih.mp hrest
        exact ⟨b, .through hstep hb, h⟩
    · rintro ⟨b, hb, h⟩
      cases hb with
      | through hstep hrest => exact .through hstep (ih.mpr ⟨b, hrest, h⟩)

theorem concat_iff {step : Step} :
    Enters s (xs ++ [step]) c ↔ ∃ b, Enters s xs b ∧ b.Holds step (.blank c) := by
  rw [append_iff]
  refine exists_congr fun b => and_congr_right fun _ => ?_
  constructor
  · intro h
    cases h with
    | through hstep hrest =>
      cases hrest
      exact hstep
  · exact fun h => .through h (.here c)

/-- The places on a route determine its predicates and the subject that is entered. -/
theorem unique (h : Enters s xs b) (h' : Enters s ys c) (hplaces : places xs = places ys) :
    xs = ys ∧ b = c := by
  induction h generalizing ys with
  | here s =>
    cases h' with
    | here => exact ⟨rfl, rfl⟩
    | through hstep hrest => simp [places] at hplaces
  | through hstep hrest ih =>
    cases h' with
    | here => simp [places] at hplaces
    | through hstep' hrest' =>
      obtain ⟨hplace, hrest⟩ := List.cons.inj hplaces
      obtain ⟨rfl, hnode⟩ := hstep.unique hstep' hplace
      cases hnode
      obtain ⟨rfl, hend⟩ := ih hrest' hrest
      exact ⟨rfl, hend⟩

end Enters

def Triple.IsLeafOf (subjects : List Subject) (t : Triple) : Prop :=
  subjects[t.root]? = some t.subject ∧ t.object.isBlankNode = false ∧
    ∃ b, Enters t.subject t.hops b ∧ b.Holds t.last t.object

def BlankSite.IsNodeOf (subjects : List Subject) (b : BlankSite) : Prop :=
  b.steps ≠ [] ∧ ∃ s, subjects[b.root]? = some s ∧ Enters s b.steps b.subject

theorem BlankSite.IsNodeOf.eq_of_places {subjects : List Subject} {b b' : BlankSite}
    (h : b.IsNodeOf subjects) (h' : b'.IsNodeOf subjects) (hroot : b.root = b'.root)
    (hplaces : places b.steps = places b'.steps) : b = b' := by
  obtain ⟨root, steps, subject⟩ := b
  obtain ⟨root', steps', subject'⟩ := b'
  obtain ⟨-, s, hs, henters⟩ := h
  obtain ⟨-, s', hs', henters'⟩ := h'
  obtain rfl : root = root' := hroot
  obtain rfl : s = s' := Option.some.inj (hs.symm.trans hs')
  obtain ⟨rfl, rfl⟩ := henters.unique henters' hplaces
  rfl

theorem BlankSite.IsNodeOf.places_ne {subjects : List Subject} {b : BlankSite} {t : Triple}
    (h : b.IsNodeOf subjects) (ht : t.IsLeafOf subjects) (hroot : b.root = t.root) :
    places b.steps ≠ places t.steps := by
  intro hplaces
  obtain ⟨hne, s, hs, hnode⟩ := h
  obtain ⟨hs', hleaf, c, henters, hlast⟩ := ht
  rw [hroot, hs', Option.some.injEq] at hs
  subst hs
  obtain ⟨hops, last, hsteps⟩ : ∃ hops last, b.steps = hops ++ [last] :=
    ⟨_, _, (List.dropLast_append_getLast hne).symm⟩
  rw [hsteps] at hnode hplaces
  obtain ⟨c', henters', hlast'⟩ := Enters.concat_iff.mp hnode
  simp only [Triple.steps, places, List.map_append, List.map_cons, List.map_nil] at hplaces
  obtain ⟨hhops, hplace⟩ := List.append_inj' hplaces rfl
  obtain ⟨-, rfl⟩ := henters'.unique henters hhops
  obtain ⟨-, hobject⟩ := hlast'.unique hlast (List.cons.inj hplace).1
  rw [← hobject] at hleaf
  cases hleaf

def BlankSite.liesOn (b : BlankSite) (t : Triple) : Bool :=
  b.root == t.root && (places b.steps).isPrefixOf (places t.steps)

namespace Walk

theorem flatten_eq (w : Walk) (subjects : List Subject) :
    w.flatten subjects =
      ⟨w.stack,
        subjects.zipIdx.flatMap fun p =>
          (predicateVisits 0 p.1.predicates).filterMap (·.triple? p.2 p.1 w.stack),
        subjects.zipIdx.flatMap fun p =>
          (predicateVisits 0 p.1.predicates).filterMap (·.site? p.2 w.stack)⟩ := by
  simp [flatten, roots_visits]

section

variable {w : Walk} (hw : w.stack = []) (subjects : List Subject)
include hw

theorem mem_triples_flatten {t : Triple} :
    t ∈ (w.flatten subjects).triples ↔ t.IsLeafOf subjects := by
  simp only [flatten_eq, hw, List.mem_flatMap, List.mem_filterMap, List.mem_zipIdx_iff_getElem?,
    mem_visits_iff]
  constructor
  · rintro ⟨⟨s, root⟩, hs, v, hv, ht⟩
    unfold Visit.triple? at ht
    split_ifs at ht with hb
    cases ht
    exact ⟨hs, by simpa using hb, hv⟩
  · rintro ⟨hs, hb, hv⟩
    refine ⟨(t.subject, t.root), hs, ⟨t.hops, t.last, t.object⟩, hv, ?_⟩
    simp [Visit.triple?, hb]

theorem mem_blanks_flatten {b : BlankSite} :
    b ∈ (w.flatten subjects).blanks ↔ b.IsNodeOf subjects := by
  simp only [flatten_eq, hw, List.mem_flatMap, List.mem_filterMap, List.mem_zipIdx_iff_getElem?,
    mem_visits_iff]
  constructor
  · rintro ⟨⟨s, root⟩, hs, ⟨hops, last, object⟩, ⟨c, henters, hlast⟩, hb⟩
    unfold Visit.site? at hb
    split at hb
    · cases hb
      rename_i hobject
      refine ⟨by simp [Visit.steps], s, hs, Enters.concat_iff.mpr ⟨c, henters, ?_⟩⟩
      exact hobject ▸ hlast
    · cases hb
  · rintro ⟨hne, s, hs, henters⟩
    obtain ⟨hops, last, hsteps⟩ : ∃ hops last, b.steps = hops ++ [last] :=
      ⟨_, _, (List.dropLast_append_getLast hne).symm⟩
    rw [hsteps] at henters
    refine ⟨(s, b.root), hs, ⟨hops, last, .blank b.subject⟩, Enters.concat_iff.mp henters, ?_⟩
    simp [Visit.site?, Visit.steps, ← hsteps]

theorem pairwise_triples_flatten :
    (w.flatten subjects).triples.Pairwise fun t u => t.position < u.position := by
  simp only [flatten_eq, hw]
  apply pairwise_roots (fun p v => v.triple? p.2 p.1 [])
  intro p v t ht
  unfold Visit.triple? at ht
  split_ifs at ht
  cases ht
  rfl

theorem pairwise_blanks_flatten :
    (w.flatten subjects).blanks.Pairwise fun b c => b.position < c.position := by
  simp only [flatten_eq, hw]
  apply pairwise_roots (fun p v => v.site? p.2 [])
  intro p v b hb
  unfold Visit.site? at hb
  split at hb
  · cases hb
    rfl
  · cases hb

theorem nodup_blanks_flatten : (w.flatten subjects).blanks.Nodup := by
  refine (pairwise_blanks_flatten hw subjects).imp ?_
  rintro b c h rfl
  exact lt_irrefl _ h

/-- The blank nodes on the route of a triple are those that its hops enter. -/
theorem length_filter_liesOn {t : Triple} (ht : t ∈ (w.flatten subjects).triples) :
    ((w.flatten subjects).blanks.filter (·.liesOn t)).length = t.hops.length := by
  have hleaf := (mem_triples_flatten hw subjects).mp ht
  let nodes := (w.flatten subjects).blanks.filter (·.liesOn t)
  have hmem : ∀ {b}, b ∈ nodes ↔ b.IsNodeOf subjects ∧ b.root = t.root ∧
      places b.steps <+: places t.steps := by
    intro b
    simp [nodes, BlankSite.liesOn, mem_blanks_flatten hw]
  have hlength : ∀ steps : List Step, (places steps).length = steps.length := by simp [places]
  have hnodup : (nodes.map (·.steps.length)).Nodup := by
    refine ((nodup_blanks_flatten hw subjects).filter _).map_on ?_
    intro b hb b' hb' heq
    obtain ⟨hnode, hroot, hpre⟩ := hmem.mp hb
    obtain ⟨hnode', hroot', hpre'⟩ := hmem.mp hb'
    apply hnode.eq_of_places hnode' (hroot.trans hroot'.symm)
    rw [List.prefix_iff_eq_take.mp hpre, List.prefix_iff_eq_take.mp hpre', hlength, hlength, heq]
  have hlengths : ∀ n, n ∈ nodes.map (·.steps.length) ↔ n ∈ List.range' 1 t.hops.length := by
    intro n
    rw [List.mem_map, List.mem_range'_1]
    constructor
    · rintro ⟨b, hb, rfl⟩
      obtain ⟨hnode, hroot, hpre⟩ := hmem.mp hb
      refine ⟨List.length_pos_iff.mpr hnode.1, ?_⟩
      by_contra hlong
      apply hnode.places_ne hleaf hroot
      apply hpre.eq_of_length_le
      rw [hlength, hlength, Triple.steps, List.length_append, List.length_singleton]
      omega
    · rintro ⟨hpos, hle⟩
      obtain ⟨hs, -, c, henters, -⟩ := hleaf
      rw [← List.take_append_drop n t.hops] at henters
      obtain ⟨b, hb, -⟩ := Enters.append_iff.mp henters
      have htake : (t.hops.take n).length = n := List.length_take_of_le (by omega)
      refine ⟨⟨t.root, t.hops.take n, b⟩, hmem.mpr ⟨⟨?_, t.subject, hs, hb⟩, rfl, ?_⟩, htake⟩
      · rw [← List.length_pos_iff, htake]
        exact hpos
      · exact ((List.take_prefix n t.hops).trans (List.prefix_append _ _)).map _
  have hperm := (List.perm_ext_iff_of_nodup hnodup List.nodup_range').mpr hlengths
  simpa [nodes] using hperm.length_eq

end

theorem stack_foldl_flatten (history : List (List Subject)) :
    (history.foldl flatten empty).stack = [] := by
  induction history using List.reverseRecOn with
  | nil => rfl
  | append_singleton history subjects ih =>
    rw [List.foldl_append, List.foldl_cons, List.foldl_nil, flatten_eq]
    exact ih

theorem iterate_flatten {w : Walk} (subjects : List Subject) (n : ℕ) :
    (flatten · subjects)^[n] (w.flatten subjects) = w.flatten subjects := by
  apply Function.iterate_fixed
  rw [flatten_eq (w.flatten subjects), flatten_eq w]

/-- Flattening lists the leaves of a graph and its blank nodes, whatever the walk was used for
before. The positions increase, so that each of them is listed once, subjects, predicates and
objects keep their order, and a blank node comes before all that is nested in it. The route of a
leaf has one step more than there are blank nodes on it. The stack is empty afterwards, and
flattening again any number of times gives the same lists. -/
theorem flatten_lists (history : List (List Subject)) (subjects : List Subject) :
    let w := (history.foldl flatten empty).flatten subjects
    (∀ t, t ∈ w.triples ↔ t.IsLeafOf subjects) ∧
    w.triples.Pairwise (fun t u => t.position < u.position) ∧
    (∀ t ∈ w.triples, t.steps.length = 1 + (w.blanks.filter (·.liesOn t)).length) ∧
    (∀ b, b ∈ w.blanks ↔ b.IsNodeOf subjects) ∧
    w.blanks.Pairwise (fun b c => b.position < c.position) ∧
    w.stack = [] ∧ ∀ n, (flatten · subjects)^[n] w = w := by
  intro w
  have hstack := stack_foldl_flatten history
  refine ⟨fun t => mem_triples_flatten hstack subjects, pairwise_triples_flatten hstack subjects,
    fun t ht => ?_, fun b => mem_blanks_flatten hstack subjects,
    pairwise_blanks_flatten hstack subjects, ?_, iterate_flatten subjects⟩
  · rw [length_filter_liesOn hstack subjects ht, Triple.steps, List.length_append, Nat.add_comm]
    rfl
  · rw [show w.stack = (history.foldl flatten empty).stack by rw [show w = _ from flatten_eq _ _],
      hstack]

end Walk

theorem Index.subject_mem_ofSubjects {subjects : List Subject} {t : Triple}
    (ht : t ∈ (ofSubjects subjects).triples) : t.subject ∈ subjects :=
  List.mem_of_getElem? ((Walk.mem_triples_flatten rfl subjects).mp ht).1

theorem Model.subject_mem (m : Model) {t : Triple} (ht : t ∈ m.index.triples) :
    t.subject ∈ m.subjects :=
  Index.subject_mem_ofSubjects ht

end SparqlModel
