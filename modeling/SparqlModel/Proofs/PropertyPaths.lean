import SparqlModel.Proofs.Route

/-!
# Property paths

A property path is read from a walk that looks names up: the triple that produces a name, then the
triple that produces the object standing for its subject, and so on. No name is looked up twice, so
that the walk ends in cyclic graphs too. It may also end at a given subject.

The main statement is `propertyPath_walk`. The names and triples of the whole walk are determined by
a few properties, the path consists of their routes, and a walk that ends earlier gives the end of
the same path.
-/

namespace SparqlModel.Index

/-- A name that is looked up, with the triple that produces it. -/
structure Look where
  name : String
  triple : Triple

def downUris (looks : List Look) : List String :=
  (looks.map (·.triple)).reverse.flatMap (·.uris)

/-- The walk from a name, nearest triple first, where `met` are the names that were looked up
before. It ends at a name that nothing produces, at the given subject, and at a subject for which no
object stands, or only one whose name was looked up. -/
inductive LooksUp (ix : Index) (stop : Option String) : List String → String → List Look → Prop
  | unknown {met : List String} {name : String} (hnone : ix.producer? name = none) :
    LooksUp ix stop met name []
  | arrived {met : List String} {name : String} {t : Triple} (ht : ix.producer? name = some t)
      (hstop : stop = some t.subject.name) : LooksUp ix stop met name [⟨name, t⟩]
  | ended {met : List String} {name : String} {t : Triple} (ht : ix.producer? name = some t)
      (hstop : stop ≠ some t.subject.name)
      (hend : ∀ up, ix.asObject? t.subject.name = some up → up ∈ name :: met) :
    LooksUp ix stop met name [⟨name, t⟩]
  | onward {met : List String} {name up : String} {t : Triple} {rest : List Look}
      (ht : ix.producer? name = some t) (hstop : stop ≠ some t.subject.name)
      (hup : ix.asObject? t.subject.name = some up) (hmet : up ∉ name :: met)
      (hrest : LooksUp ix stop (name :: met) up rest) : LooksUp ix stop met name (⟨name, t⟩ :: rest)

structure IsWalk (ix : Index) (name : String) (looks : List Look) : Prop where
  /-- It starts with the producer of the name, if there is one. -/
  head : looks.head? = (ix.producer? name).map (Look.mk name)
  found : ∀ l ∈ looks, ix.producer? l.name = some l.triple
  /-- Each next name is that of the object standing for the subject of the triple before. -/
  linked : looks.IsChain fun l l' => ix.asObject? l.triple.subject.name = some l'.name
  nodup : (looks.map (·.name)).Nodup
  /-- At the last triple no object stands for the subject, or its name was looked up, or nothing
  produces it. -/
  maximal : ∀ last, looks.getLast? = some last →
    ix.asObject? last.triple.subject.name = none ∨
      ∃ up, ix.asObject? last.triple.subject.name = some up ∧
        (up ∈ looks.map (·.name) ∨ ix.producer? up = none)

namespace LooksUp

variable {ix : Index} {stop : Option String} {met : List String} {name : String} {looks : List Look}

/-- The trail of an index keeps the names that are still free, which are those not looked up yet. -/
theorem exists_of_trail {free : List String} (hnodup : free.Nodup)
    (hfree : ∀ z ∈ ix.leafNames, z ∈ free ↔ z ∉ name :: met) :
    ∃ looks, LooksUp ix none met name looks ∧ looks.map (·.triple) = ix.trail free name := by
  fun_induction trail ix free name generalizing met with
  | case1 free name hnone => exact ⟨[], .unknown hnone, rfl⟩
  | case2 free name t ht hnone =>
    refine ⟨[⟨name, t⟩], .ended ht (by simp) fun up hup => ?_, rfl⟩
    rw [hnone] at hup
    cases hup
  | case3 free name t ht up hup hmem ih =>
    have hleaf := mem_leafNames_of_asObject? hup
    have hmet : up ∉ name :: met := (hfree up hleaf).mp hmem
    have hfree' : ∀ z ∈ ix.leafNames, z ∈ free.erase up ↔ z ∉ up :: name :: met := by
      intro z hz
      rw [hnodup.mem_erase_iff, hfree z hz, List.mem_cons (b := up), not_or]
    obtain ⟨rest, hrest, hmap⟩ := ih (hnodup.erase up) hfree'
    exact ⟨⟨name, t⟩ :: rest, .onward ht (by simp) hup hmet hrest, by rw [List.map_cons, hmap]⟩
  | case4 free name t ht up hup hmem =>
    refine ⟨[⟨name, t⟩], .ended ht (by simp) fun up' hup' => ?_, rfl⟩
    obtain rfl : up = up' := Option.some.inj (hup.symm.trans hup')
    by_contra hmet
    exact hmem ((hfree up (mem_leafNames_of_asObject? hup)).mpr hmet)

theorem stopped (h : LooksUp ix none met name looks) (subject : String) :
    ∃ part, LooksUp ix (some subject) met name part ∧ part <+: looks ∧
      part.map (·.triple) = stopAt subject (looks.map (·.triple)) := by
  induction h with
  | unknown hnone => exact ⟨[], .unknown hnone, List.nil_prefix, rfl⟩
  | arrived ht hstop => cases hstop
  | @ended met name t ht hstop hend =>
    have hpart : LooksUp ix (some subject) met name [⟨name, t⟩] := by
      by_cases hs : subject = t.subject.name
      · exact .arrived ht (congrArg some hs)
      · exact .ended ht (fun he => hs (Option.some.inj he)) hend
    refine ⟨[⟨name, t⟩], hpart, List.prefix_rfl, ?_⟩
    simp [stopAt]
  | @onward met name up t rest ht hstop hup hmet hrest ih =>
    rw [List.map_cons, stopAt]
    by_cases hs : t.subject.name = subject
    · refine ⟨[⟨name, t⟩], .arrived ht (congrArg some hs.symm), ?_, by simp [hs]⟩
      exact List.prefix_append [_] rest
    · obtain ⟨part, hpart, hpre, hmap⟩ := ih
      refine ⟨⟨name, t⟩ :: part, .onward ht ?_ hup hmet hpart, ?_, by simp [hs, hmap]⟩
      · exact fun he => hs (Option.some.inj he).symm
      · exact List.cons_prefix_cons.mpr ⟨rfl, hpre⟩

theorem head? (h : LooksUp ix stop met name looks) :
    looks.head? = (ix.producer? name).map (Look.mk name) := by
  cases h with
  | unknown hnone => rw [hnone]; rfl
  | arrived ht => rw [ht]; rfl
  | ended ht => rw [ht]; rfl
  | onward ht => rw [ht]; rfl

theorem found (h : LooksUp ix stop met name looks) :
    ∀ l ∈ looks, ix.producer? l.name = some l.triple := by
  induction h with
  | unknown hnone => simp
  | arrived ht hstop => simpa using ht
  | ended ht hstop hend => simpa using ht
  | onward ht hstop hup hmet hrest ih => exact List.forall_mem_cons.mpr ⟨ht, ih⟩

theorem isChain (h : LooksUp ix stop met name looks) :
    looks.IsChain fun l l' => ix.asObject? l.triple.subject.name = some l'.name := by
  induction h with
  | unknown hnone => exact List.isChain_nil
  | arrived ht hstop => exact List.isChain_singleton _
  | ended ht hstop hend => exact List.isChain_singleton _
  | onward ht hstop hup hmet hrest ih =>
    refine List.isChain_cons.mpr ⟨fun l hl => ?_, ih⟩
    rw [hrest.head?] at hl
    obtain ⟨t', -, rfl⟩ := Option.map_eq_some_iff.mp hl
    exact hup

theorem name_notMem (h : LooksUp ix stop met name looks) (hname : name ∉ met) :
    ∀ l ∈ looks, l.name ∉ met := by
  induction h with
  | unknown hnone => simp
  | arrived ht hstop => simpa using hname
  | ended ht hstop hend => simpa using hname
  | onward ht hstop hup hmet hrest ih =>
    refine List.forall_mem_cons.mpr ⟨hname, fun l hl hmem => ?_⟩
    exact ih hmet l hl (List.mem_cons_of_mem _ hmem)

theorem nodup (h : LooksUp ix stop met name looks) : (looks.map (·.name)).Nodup := by
  induction h with
  | unknown hnone => exact List.nodup_nil
  | arrived ht hstop => exact List.nodup_singleton _
  | ended ht hstop hend => exact List.nodup_singleton _
  | onward ht hstop hup hmet hrest ih =>
    refine List.nodup_cons.mpr ⟨fun hmem => ?_, ih⟩
    obtain ⟨l, hl, hname⟩ := List.mem_map.mp hmem
    exact hrest.name_notMem hmet l hl (hname ▸ List.mem_cons_self)

theorem getLast (h : LooksUp ix none met name looks) :
    ∀ last, looks.getLast? = some last → ∀ up, ix.asObject? last.triple.subject.name = some up →
      up ∈ met ∨ up ∈ looks.map (·.name) ∨ ix.producer? up = none := by
  induction h with
  | unknown hnone => simp
  | arrived ht hstop => cases hstop
  | ended ht hstop hend =>
    intro last hlast up hup
    obtain rfl := Option.some.inj hlast
    rcases List.mem_cons.mp (hend up hup) with rfl | hmem
    · exact Or.inr (Or.inl List.mem_cons_self)
    · exact Or.inl hmem
  | @onward met name up t rest ht hstop hup hmet hrest ih =>
    intro last hlast up' hup'
    cases hrest' : rest.getLast? with
    | none =>
      obtain rfl : rest = [] := List.getLast?_eq_none_iff.mp hrest'
      obtain rfl := Option.some.inj hlast
      obtain rfl : up = up' := Option.some.inj (hup.symm.trans hup')
      have hnone := hrest.head?.symm
      exact Or.inr (Or.inr (Option.map_eq_none_iff.mp hnone))
    | some last' =>
      rw [List.getLast?_cons, hrest', Option.getD_some] at hlast
      obtain rfl := Option.some.inj hlast
      rcases ih last' hrest' up' hup' with hmem | hmem | hnone
      · rcases List.mem_cons.mp hmem with rfl | hmem
        · exact Or.inr (Or.inl List.mem_cons_self)
        · exact Or.inl hmem
      · exact Or.inr (Or.inl (List.mem_cons_of_mem _ hmem))
      · exact Or.inr (Or.inr hnone)

/-- A chain of names that are found, and that can go on no further, is a whole walk. -/
theorem of_isChain (hhead : looks.head? = (ix.producer? name).map (Look.mk name))
    (hfound : ∀ l ∈ looks, ix.producer? l.name = some l.triple)
    (hchain : looks.IsChain fun l l' => ix.asObject? l.triple.subject.name = some l'.name)
    (hnodup : (looks.map (·.name)).Nodup) (hmet : ∀ l ∈ looks, l.name ∉ met)
    (hend : ∀ last, looks.getLast? = some last →
      ∀ up, ix.asObject? last.triple.subject.name = some up →
        up ∈ met ∨ up ∈ looks.map (·.name) ∨ ix.producer? up = none) :
    LooksUp ix none met name looks := by
  induction looks generalizing met name with
  | nil => exact .unknown (Option.map_eq_none_iff.mp hhead.symm)
  | cons l rest ih =>
    obtain ⟨t, ht, rfl⟩ := Option.map_eq_some_iff.mp hhead.symm
    obtain ⟨hnext, hchain⟩ := List.isChain_cons.mp hchain
    obtain ⟨hfresh, hnodup⟩ := List.nodup_cons.mp hnodup
    cases rest with
    | nil =>
      by_cases hall : ∀ up, ix.asObject? t.subject.name = some up → up ∈ name :: met
      · exact .ended ht (by simp) hall
      · -- a name that was not looked up is one that nothing produces
        push Not at hall
        obtain ⟨up, hup, hnew⟩ := hall
        rw [List.mem_cons, not_or] at hnew
        refine .onward ht (by simp) hup (by simpa using hnew) (.unknown ?_)
        rcases hend _ rfl up hup with hmem | hmem | hnone
        · exact absurd hmem hnew.2
        · exact absurd (List.mem_singleton.mp hmem) hnew.1
        · exact hnone
    | cons l' rest =>
      have hup := hnext l' rfl
      have hl' := hfound l' (by simp)
      have hne : l'.name ≠ name := fun he => hfresh (he ▸ List.mem_cons_self)
      have hnew : l'.name ∉ name :: met := by
        rw [List.mem_cons, not_or]
        exact ⟨hne, hmet l' (by simp)⟩
      refine .onward ht (by simp) hup hnew (ih ?_ ?_ hchain hnodup ?_ ?_)
      · rw [hl']; rfl
      · exact fun l hl => hfound l (List.mem_cons_of_mem _ hl)
      · intro l hl
        rw [List.mem_cons, not_or]
        have hmem : l.name ∈ (l' :: rest).map (·.name) := List.mem_map_of_mem hl
        exact ⟨fun he => hfresh (he ▸ hmem), hmet l (List.mem_cons_of_mem _ hl)⟩
      · intro last hlast up hup
        rcases hend last (by rwa [List.getLast?_cons_cons]) up hup with hmem | hmem | hnone
        · exact Or.inl (List.mem_cons_of_mem _ hmem)
        · rcases List.mem_cons.mp hmem with rfl | hmem
          · exact Or.inl List.mem_cons_self
          · exact Or.inr (Or.inl hmem)
        · exact Or.inr (Or.inr hnone)

theorem unique {looks' : List Look} (h : LooksUp ix stop met name looks)
    (h' : LooksUp ix stop met name looks') : looks = looks' := by
  induction h generalizing looks' with
  | unknown hnone =>
    cases h' with
    | unknown => rfl
    | arrived ht | ended ht | onward ht => rw [hnone] at ht; cases ht
  | arrived ht hstop =>
    cases h' with
    | unknown hnone => rw [hnone] at ht; cases ht
    | arrived ht' => obtain rfl := Option.some.inj (ht.symm.trans ht'); rfl
    | ended ht' hstop' | onward ht' hstop' =>
      obtain rfl := Option.some.inj (ht.symm.trans ht')
      exact absurd hstop hstop'
  | ended ht hstop hend =>
    cases h' with
    | unknown hnone => rw [hnone] at ht; cases ht
    | arrived ht' | ended ht' => obtain rfl := Option.some.inj (ht.symm.trans ht'); rfl
    | onward ht' hstop' hup hmet =>
      obtain rfl := Option.some.inj (ht.symm.trans ht')
      exact absurd (hend _ hup) hmet
  | onward ht hstop hup hmet hrest ih =>
    cases h' with
    | unknown hnone => rw [hnone] at ht; cases ht
    | arrived ht' hstop' =>
      obtain rfl := Option.some.inj (ht.symm.trans ht')
      exact absurd hstop' hstop
    | ended ht' hstop' hend =>
      obtain rfl := Option.some.inj (ht.symm.trans ht')
      exact absurd (hend _ hup) hmet
    | onward ht' hstop' hup' hmet' hrest' =>
      obtain rfl := Option.some.inj (ht.symm.trans ht')
      obtain rfl := Option.some.inj (hup.symm.trans hup')
      rw [ih hrest']

theorem name_mem (h : LooksUp ix stop met name looks) :
    ∀ l ∈ looks, l.name ∈ name :: ix.leafNames := by
  induction h with
  | unknown hnone => simp
  | arrived ht hstop => simp
  | ended ht hstop hend => simp
  | onward ht hstop hup hmet hrest ih =>
    refine List.forall_mem_cons.mpr ⟨List.mem_cons_self, fun l hl => List.mem_cons_of_mem _ ?_⟩
    rcases List.mem_cons.mp (ih l hl) with hname | hmem
    · rw [hname]
      exact mem_leafNames_of_asObject? hup
    · exact hmem

theorem length_le (h : LooksUp ix stop met name looks) :
    looks.length ≤ ix.leafNames.length + 1 := by
  have hmem : ∀ x ∈ looks.map (·.name), x ∈ name :: ix.leafNames := by
    intro x hx
    obtain ⟨l, hl, rfl⟩ := List.mem_map.mp hx
    exact h.name_mem l hl
  have hle := (h.nodup.subperm hmem).length_le
  rwa [List.length_map, List.length_cons] at hle

end LooksUp

variable {subject : String} {ts : List Triple}

theorem stopAt_eq_self (h : ∀ t ∈ ts, t.subject.name ≠ subject) : stopAt subject ts = ts := by
  induction ts with
  | nil => rfl
  | cons t rest ih =>
    obtain ⟨ht, hrest⟩ := List.forall_mem_cons.mp h
    rw [stopAt, if_neg (by simpa using ht), ih hrest]

theorem stopAt_append (h : ∀ t ∈ ts, t.subject.name ≠ subject) {t : Triple}
    (ht : t.subject.name = subject) (above : List Triple) :
    stopAt subject (ts ++ t :: above) = ts ++ [t] := by
  induction ts with
  | nil => rw [List.nil_append, List.nil_append, stopAt, if_pos (by simpa using ht)]
  | cons u rest ih =>
    obtain ⟨hu, hrest⟩ := List.forall_mem_cons.mp h
    rw [List.cons_append, stopAt, if_neg (by simpa using hu), ih hrest, List.cons_append]

variable {ix : Index} {name : String} {looks : List Look}

theorem downUris_eq_nil_iff : downUris looks = [] ↔ looks = [] := by
  rw [downUris, List.flatMap_eq_nil_iff]
  constructor
  · intro h
    cases looks with
    | nil => rfl
    | cons l rest => exact absurd (h l.triple (by simp)) (uris_ne_nil _)
  · rintro rfl
    simp

theorem downUris_suffix {part : List Look} (h : part <+: looks) :
    downUris part <:+ downUris looks := by
  obtain ⟨rest, rfl⟩ := h
  rw [downUris, downUris, List.map_append, List.reverse_append, List.flatMap_append]
  exact List.suffix_append _ _

/-- The whole walk from a name exists, and its triples are the trail. -/
theorem exists_looksUp (ix : Index) (name : String) :
    ∃ looks, ix.LooksUp none [] name looks ∧
      looks.map (·.triple) = ix.trail (ix.leafNames.erase name) name := by
  have hnodup : ix.leafNames.Nodup := nodup_distinct _
  refine LooksUp.exists_of_trail (hnodup.erase name) fun z hz => ?_
  rw [hnodup.mem_erase_iff, List.mem_singleton]
  exact and_iff_left hz

theorem isWalk_iff_looksUp : ix.IsWalk name looks ↔ ix.LooksUp none [] name looks := by
  constructor
  · intro h
    refine .of_isChain h.head h.found h.linked h.nodup (by simp) fun last hlast up hup => ?_
    rcases h.maximal last hlast with hnone | ⟨up', hup', hmax⟩
    · rw [hnone] at hup
      cases hup
    · obtain rfl : up = up' := Option.some.inj (hup.symm.trans hup')
      exact Or.inr hmax
  · intro h
    refine ⟨h.head?, h.found, h.isChain, h.nodup, fun last hlast => ?_⟩
    cases hup : ix.asObject? last.triple.subject.name with
    | none => exact Or.inl rfl
    | some up =>
      have hmax := (h.getLast last hlast up hup).resolve_left (List.not_mem_nil)
      exact Or.inr ⟨up, rfl, hmax⟩

/-- The path of a whole walk, and of what remains of it if the walk stops at a subject. -/
theorem propertyPath_of_looksUp (h : ix.LooksUp none [] name looks) :
    ix.propertyPath name none = downUris looks ∧ ∀ subject, ix.propertyPath name (some subject) =
      (stopAt subject (looks.map (·.triple))).reverse.flatMap (·.uris) := by
  obtain ⟨looks', h', htrail⟩ := exists_looksUp ix name
  obtain rfl := h.unique h'
  refine ⟨?_, fun subject => ?_⟩
  · rw [downUris, htrail]
    rfl
  · rw [htrail]
    rfl

theorem exists_part (h : ix.LooksUp none [] name looks) (stop : Option String) :
    ∃ part, ix.LooksUp stop [] name part ∧ part <+: looks ∧
      ix.propertyPath name stop = downUris part := by
  obtain ⟨hwhole, hstopped⟩ := propertyPath_of_looksUp h
  cases stop with
  | none => exact ⟨looks, h, List.prefix_rfl, hwhole⟩
  | some subject =>
    obtain ⟨part, hpart, hpre, hmap⟩ := h.stopped subject
    exact ⟨part, hpart, hpre, by rw [hstopped, ← hmap, downUris]⟩

/-- Property paths, in any list of subjects. The walk from a name has the properties of a whole
walk, no other list has them, and it comes to an end after no more looks than there are names. Its
routes make the path. If the walk stops at a subject, it looks up the first of the same names, so
that the path is the end of the whole path; it is the part from the nearest triple of that subject
on, and the whole path if no triple belongs to the subject. A path is empty exactly if nothing
produces the name. -/
theorem propertyPath_walk (subjects : List Subject) (name : String) :
    let ix := ofSubjects subjects
    ∃ looks, ix.IsWalk name looks ∧ (∀ looks', ix.IsWalk name looks' → looks' = looks) ∧
      looks.length ≤ ix.leafNames.length + 1 ∧ ix.propertyPath name none = downUris looks ∧
      ∀ stop,
        (∃ part, ix.LooksUp stop [] name part ∧ part <+: looks ∧
          ix.propertyPath name stop = downUris part) ∧
        (ix.propertyPath name stop = [] ↔ ix.producer? name = none) ∧
        ix.propertyPath name stop <:+ ix.propertyPath name none ∧
        (∀ below l above, looks = below ++ l :: above → stop = some l.triple.subject.name →
          (∀ b ∈ below, stop ≠ some b.triple.subject.name) →
            ix.propertyPath name stop = downUris (below ++ [l])) ∧
        ((∀ l ∈ looks, stop ≠ some l.triple.subject.name) →
          ix.propertyPath name stop = ix.propertyPath name none) := by
  intro ix
  obtain ⟨looks, h, -⟩ := exists_looksUp ix name
  obtain ⟨hwhole, hstopped⟩ := propertyPath_of_looksUp h
  refine ⟨looks, isWalk_iff_looksUp.mpr h, fun looks' h' => (isWalk_iff_looksUp.mp h').unique h,
    h.length_le, hwhole, fun stop => ?_⟩
  obtain ⟨part, hpart, hpre, hpath⟩ := exists_part h stop
  refine ⟨⟨part, hpart, hpre, hpath⟩, ?_, ?_, ?_, ?_⟩
  · rw [hpath, downUris_eq_nil_iff, ← List.head?_eq_none_iff, hpart.head?, Option.map_eq_none_iff]
  · rw [hpath, hwhole]
    exact downUris_suffix hpre
  · rintro below l above rfl rfl hbelow
    have hmap : ∀ t ∈ below.map (·.triple), t.subject.name ≠ l.triple.subject.name := by
      intro t ht he
      obtain ⟨b, hb, rfl⟩ := List.mem_map.mp ht
      exact hbelow b hb (by rw [he])
    rw [hstopped, List.map_append, List.map_cons, stopAt_append hmap rfl, downUris,
      List.map_append, List.map_singleton]
  · intro hnone
    cases stop with
    | none => rfl
    | some subject =>
      have hmap : ∀ t ∈ looks.map (·.triple), t.subject.name ≠ subject := by
        intro t ht he
        obtain ⟨l, hl, rfl⟩ := List.mem_map.mp ht
        exact hnone l hl (by rw [he])
      rw [hstopped, stopAt_eq_self hmap, hwhole, downUris]

end SparqlModel.Index
