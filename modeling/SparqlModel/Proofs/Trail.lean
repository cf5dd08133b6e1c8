import SparqlModel.Proofs.Lookup

/-!
# Trails as routes

A route leads from a subject to a leaf: each object refers to the subject of the next triple. The
trail from which a property path is read goes upwards, and finds each triple by the name of its
object. It makes a route exactly if it meets the subject at which the path starts and if each object
that it finds refers to the subject below.
-/

namespace SparqlModel.Index

/-- Triples that lead from a subject to a leaf. The object of each one refers to the subject of the
next one. -/
structure IsRoute (ix : Index) (start : Subject) (ts : List Triple) (leaf : Triple) : Prop where
  mem : ∀ u ∈ ts, u ∈ ix.triples
  head : ts.head?.map (·.subject) = some start
  last : ts.getLast? = some leaf
  linked : ts.IsChain fun u u' => u'.subject.name ∈ u.object.subjectNames

/-- The triples between a subject and a name whose URIs make the property path. -/
def pathTriples (ix : Index) (name stop : String) : List Triple :=
  (stopAt stop (ix.trail (ix.leafNames.erase name) name)).reverse

theorem propertyPath_eq (ix : Index) (name stop : String) :
    ix.propertyPath name (some stop) = (ix.pathTriples name stop).flatMap (·.uris) :=
  rfl

/-- The object that stands for the subject of a triple refers to that subject. -/
def Joined (ix : Index) (u : Triple) : Prop :=
  ∀ x r, ix.asObject? u.subject.name = some x → ix.producer? x = some r →
    u.subject.name ∈ r.object.subjectNames

/-- The walk for a path finds the leaf, meets the anchor, and uses only references to the subjects
that it leaves on the way. -/
structure Retraced (ix : Index) (start : Subject) (leaf : Triple) : Prop where
  found : ix.producer? leaf.object.name = some leaf
  anchored : ∃ u ∈ ix.pathTriples leaf.object.name start.name, u.subject.name = start.name
  joined : ∀ u ∈ ix.pathTriples leaf.object.name start.name, u.subject.name ≠ start.name →
    ix.Joined u

variable {ix : Index}

theorem head?_trail (free : List String) (name : String) :
    (ix.trail free name).head? = ix.producer? name := by
  rw [trail]
  cases ix.producer? name with
  | none => rfl
  | some t =>
    dsimp only
    cases ix.asObject? t.subject.name with
    | none => rfl
    | some up =>
      dsimp only
      split_ifs <;> rfl

theorem mem_triples_of_mem_trail {free : List String} {name : String} {u : Triple}
    (hu : u ∈ ix.trail free name) : u ∈ ix.triples := by
  fun_induction trail ix free name with
  | case1 => simp at hu
  | case2 free name t ht =>
    rw [List.mem_singleton.mp hu]
    exact producer?_mem ht
  | case3 free name t ht up hup hfree ih =>
    rcases List.mem_cons.mp hu with rfl | hu
    · exact producer?_mem ht
    · exact ih hu
  | case4 free name t ht up hup hfree =>
    rw [List.mem_singleton.mp hu]
    exact producer?_mem ht

theorem isChain_trail (free : List String) (name : String) :
    (ix.trail free name).IsChain fun u u' =>
      ∃ x, ix.asObject? u.subject.name = some x ∧ ix.producer? x = some u' := by
  fun_induction trail ix free name with
  | case1 => exact List.isChain_nil
  | case2 => exact List.isChain_singleton _
  | case3 free name t ht up hup hfree ih =>
    rw [List.isChain_cons, head?_trail]
    exact ⟨fun u' hu' => ⟨up, hup, hu'⟩, ih⟩
  | case4 => exact List.isChain_singleton _

theorem exists_stopAt_append (subject : String) (ts : List Triple) :
    ∃ rest, stopAt subject ts ++ rest = ts := by
  induction ts with
  | nil => exact ⟨[], rfl⟩
  | cons t ts ih =>
    rw [stopAt]
    split_ifs
    · exact ⟨ts, rfl⟩
    · obtain ⟨rest, hrest⟩ := ih
      exact ⟨rest, by rw [List.cons_append, hrest]⟩

theorem mem_of_mem_stopAt {subject : String} {ts : List Triple} {u : Triple}
    (hu : u ∈ stopAt subject ts) : u ∈ ts := by
  obtain ⟨rest, hrest⟩ := exists_stopAt_append subject ts
  rw [← hrest]
  exact List.mem_append_left rest hu

theorem head?_stopAt (subject : String) (ts : List Triple) :
    (stopAt subject ts).head? = ts.head? := by
  cases ts with
  | nil => rfl
  | cons t rest =>
    rw [stopAt]
    split_ifs <;> rfl

theorem getLast?_stopAt {subject : String} {ts : List Triple}
    (h : ∃ u ∈ ts, u.subject.name = subject) :
    ∃ u, (stopAt subject ts).getLast? = some u ∧ u.subject.name = subject := by
  induction ts with
  | nil => simp at h
  | cons t rest ih =>
    rw [stopAt]
    split_ifs with ht
    · exact ⟨t, rfl, by simpa using ht⟩
    · obtain ⟨u, hu, hs⟩ := h
      rcases List.mem_cons.mp hu with rfl | hu
      · simp [hs] at ht
      · obtain ⟨u', hlast, hs'⟩ := ih ⟨u, hu, hs⟩
        exact ⟨u', by simp [List.getLast?_cons, hlast], hs'⟩

theorem mem_dropLast_stopAt_iff {subject : String} {ts : List Triple}
    (h : ∃ u ∈ ts, u.subject.name = subject) (u : Triple) :
    u ∈ (stopAt subject ts).dropLast ↔ u ∈ stopAt subject ts ∧ u.subject.name ≠ subject := by
  induction ts with
  | nil => simp at h
  | cons t rest ih =>
    rw [stopAt]
    split_ifs with ht
    · have hts : t.subject.name = subject := by simpa using ht
      constructor
      · intro hu
        simp at hu
      · rintro ⟨hu, hne⟩
        rw [List.mem_singleton.mp hu] at hne
        exact absurd hts hne
    · have hts : t.subject.name ≠ subject := by simpa using ht
      have hrest : ∃ u ∈ rest, u.subject.name = subject := by
        obtain ⟨u, hu, hs⟩ := h
        rcases List.mem_cons.mp hu with rfl | hu
        · exact absurd hs hts
        · exact ⟨u, hu, hs⟩
      obtain ⟨last, hlast, -⟩ := getLast?_stopAt hrest
      have hne : stopAt subject rest ≠ [] := by
        intro hnil
        simp [hnil] at hlast
      rw [List.dropLast_cons_of_ne_nil hne, List.mem_cons, List.mem_cons, ih hrest]
      constructor
      · rintro (rfl | ⟨hu, hs⟩)
        · exact ⟨Or.inl rfl, hts⟩
        · exact ⟨Or.inr hu, hs⟩
      · rintro ⟨rfl | hu, hs⟩
        · exact Or.inl rfl
        · exact Or.inr ⟨hu, hs⟩

/-- Along a trail, the subjects below are referred to from above if and only if all triples but the
last one are joined. -/
theorem isChain_refers_iff {ts : List Triple}
    (h : ts.IsChain fun u u' =>
      ∃ x, ix.asObject? u.subject.name = some x ∧ ix.producer? x = some u') :
    (ts.IsChain fun u u' => u.subject.name ∈ u'.object.subjectNames) ↔
      ∀ u ∈ ts.dropLast, ix.Joined u := by
  induction ts with
  | nil => simp
  | cons t rest ih =>
    cases rest with
    | nil => simp
    | cons t' rest =>
      obtain ⟨⟨x, hx, hp⟩, hrest⟩ := List.isChain_cons_cons.mp h
      have hjoined : ix.Joined t ↔ t.subject.name ∈ t'.object.subjectNames := by
        constructor
        · intro hj
          exact hj x t' hx hp
        · intro hmem x' r hx' hr
          obtain rfl : x = x' := Option.some.inj (hx.symm.trans hx')
          obtain rfl : t' = r := Option.some.inj (hp.symm.trans hr)
          exact hmem
      rw [List.isChain_cons_cons, ih hrest, List.dropLast_cons_cons, List.forall_mem_cons, hjoined]

/-- The triples of a path make a route exactly if the walk retraces it. -/
theorem isRoute_pathTriples_iff (m : Model) {start : Subject} (hstart : start ∈ m.subjects)
    (leaf : Triple) :
    m.index.IsRoute start (m.index.pathTriples leaf.object.name start.name) leaf ↔
      m.index.Retraced start leaf := by
  let trail := m.index.trail (m.index.leafNames.erase leaf.object.name) leaf.object.name
  have hmem : ∀ u ∈ stopAt start.name trail, u ∈ m.index.triples :=
    fun u hu => mem_triples_of_mem_trail (mem_of_mem_stopAt hu)
  have hlast : (stopAt start.name trail).reverse.getLast? =
      m.index.producer? leaf.object.name := by
    rw [List.getLast?_reverse, head?_stopAt, head?_trail]
  have hwalk : trail.IsChain _ := isChain_trail _ _
  obtain ⟨rest, hrest⟩ := exists_stopAt_append start.name trail
  rw [← hrest] at hwalk
  have hchain := isChain_refers_iff (List.isChain_append.mp hwalk).1
  constructor
  · intro h
    obtain ⟨u, hu, hs⟩ := Option.map_eq_some_iff.mp h.head
    have hu' := List.mem_of_getLast? (List.head?_reverse ▸ hu)
    have hmeets : ∃ u ∈ trail, u.subject.name = start.name := ⟨u, mem_of_mem_stopAt hu', by rw [hs]⟩
    refine ⟨hlast.symm.trans h.last, ⟨u, List.mem_reverse.mpr hu', by rw [hs]⟩, ?_⟩
    intro w hw hne
    have hleft := (mem_dropLast_stopAt_iff hmeets w).mpr ⟨List.mem_reverse.mp hw, hne⟩
    exact hchain.mp (List.isChain_reverse.mp h.linked) w hleft
  · intro h
    have hmeets : ∃ u ∈ trail, u.subject.name = start.name := by
      obtain ⟨u, hu, hs⟩ := h.anchored
      exact ⟨u, mem_of_mem_stopAt (List.mem_reverse.mp hu), hs⟩
    obtain ⟨last, hstop, hs⟩ := getLast?_stopAt hmeets
    refine ⟨fun u hu => hmem u (List.mem_reverse.mp hu), ?_, hlast.trans h.found, ?_⟩
    · have hsubject := m.subject_mem (hmem last (List.mem_of_getLast? hstop))
      change (stopAt start.name trail).reverse.head?.map _ = _
      rw [List.head?_reverse, hstop, Option.map_some, m.eq_of_name_eq hsubject hstart hs]
    · apply List.isChain_reverse.mpr
      apply hchain.mpr
      intro u hu
      obtain ⟨hu, hne⟩ := (mem_dropLast_stopAt_iff hmeets u).mp hu
      exact h.joined u (List.mem_reverse.mpr hu) hne

/-- A route from a subject to a leaf whose URIs make the given path. -/
def HasRoute (ix : Index) (start : Subject) (leaf : Triple) (path : List String) : Prop :=
  ∃ ts, ix.IsRoute start ts leaf ∧ ts.flatMap (·.uris) = path

/-- A path can be read in one way only: it ends with the leaf, and above the leaf no other reference
has URIs of which one list ends the other. -/
def ReadsOnce (ix : Index) (ts : List Triple) (leaf : Triple) : Prop :=
  ts.getLast? = some leaf ∧ ∀ w ∈ ts.dropLast, ∀ u ∈ ix.triples, u.object.subjectNames ≠ [] →
    (u.uris <:+ w.uris ∨ w.uris <:+ u.uris) → u = w

theorem uris_ne_nil (t : Triple) : t.uris ≠ [] := by
  simp [Triple.uris, Triple.steps]

theorem IsRoute.refers {ix : Index} {start : Subject} {ts : List Triple} {leaf : Triple}
    (h : ix.IsRoute start ts leaf) : ∀ u ∈ ts.dropLast, u.object.subjectNames ≠ [] := by
  have hlinked := h.linked
  clear h
  induction ts with
  | nil => simp
  | cons t rest ih =>
    cases rest with
    | nil => simp
    | cons t' rest =>
      obtain ⟨hrefers, hrest⟩ := List.isChain_cons_cons.mp hlinked
      rw [List.dropLast_cons_cons, List.forall_mem_cons]
      exact ⟨List.ne_nil_of_mem hrefers, ih hrest⟩

/-- Lists of triples with the same URIs are equal if their triples cannot be mistaken. -/
theorem eq_of_flatMap_uris_eq {ts ws : List Triple}
    (h : ∀ w ∈ ws, ∀ u ∈ ts, (u.uris <:+ w.uris ∨ w.uris <:+ u.uris) → u = w)
    (he : ts.flatMap (·.uris) = ws.flatMap (·.uris)) : ts = ws := by
  -- both lists are read from their ends
  induction ws using List.reverseRecOn generalizing ts with
  | nil =>
    rcases List.eq_nil_or_concat' ts with rfl | ⟨ts, u, rfl⟩
    · rfl
    · simp [uris_ne_nil] at he
  | append_singleton ws w ih =>
    rcases List.eq_nil_or_concat' ts with rfl | ⟨ts, u, rfl⟩
    · simp [uris_ne_nil] at he
    · simp only [List.flatMap_append, List.flatMap_singleton] at he
      have hu : u = w := by
        apply h w (by simp) u (by simp)
        exact List.suffix_or_suffix_of_suffix (List.suffix_append _ u.uris)
          (he ▸ List.suffix_append _ w.uris)
      subst hu
      have hts : ts = ws := by
        apply ih _ (List.append_cancel_right he)
        intro w' hw u' hu
        exact h w' (List.mem_append_left _ hw) u' (List.mem_append_left _ hu)
      rw [hts]

/-- If a path can be read in one way only, then it belongs to a route only if its own triples make
one. -/
theorem ReadsOnce.hasRoute_iff {ix : Index} {start : Subject} {ts : List Triple} {leaf : Triple}
    (h : ix.ReadsOnce ts leaf) :
    ix.HasRoute start leaf (ts.flatMap (·.uris)) ↔ ix.IsRoute start ts leaf := by
  constructor
  · rintro ⟨us, hroute, he⟩
    have hus : us = us.dropLast ++ [leaf] := (List.dropLast_append_getLast? _ hroute.last).symm
    have hts : ts = ts.dropLast ++ [leaf] := (List.dropLast_append_getLast? _ h.1).symm
    rw [hus, hts, List.flatMap_append, List.flatMap_append] at he
    have hsame : us.dropLast = ts.dropLast := by
      apply eq_of_flatMap_uris_eq _ (List.append_cancel_right he)
      intro w hw u hu
      exact h.2 w hw u (hroute.mem u (List.mem_of_mem_dropLast hu)) (hroute.refers u hu)
    rw [hts, ← hsame, ← hus]
    exact hroute
  · intro hroute
    exact ⟨ts, hroute, rfl⟩

end SparqlModel.Index
