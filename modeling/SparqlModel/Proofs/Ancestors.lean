import SparqlModel.Proofs.Tree

/-!
# Chains of ancestors

The names above a name are found by steps up that never come back to a name that was met before.
In a cyclic graph the chain ends where the next step would lead to the name itself or to a name of
the chain, and in any other graph where no step leads further. The chain is determined by this: no
other list has its properties.
-/

namespace SparqlModel.Index

/-- The steps up from a name, nearest name first, while the names that were met before are kept.
They end where nothing is above, or where the next name has been met. -/
inductive Climbs (ix : Index) : List String → String → List String → Prop
  | stop {met : List String} {name : String} (h : ∀ up, ix.Up name up → up ∈ met) :
    Climbs ix met name []
  | step {met rest : List String} {name up : String} (hup : ix.Up name up) (hmet : up ∉ met)
    (hrest : Climbs ix (up :: met) up rest) : Climbs ix met name (up :: rest)

/-- What a list of ancestors is, the most remote one first. -/
structure IsAncestry (ix : Index) (name : String) (chain : List String) : Prop where
  nodup : chain.Nodup
  notMem : name ∉ chain
  /-- The nearest ancestor is the name above, unless there is none or it is the name itself. -/
  last : chain.getLast? = (ix.parent? name).filter (· ≠ name)
  /-- Each name is above the one that comes next. -/
  linked : chain.IsChain fun up below => ix.parent? below = some up
  /-- Above the first name is nothing, or the name itself, or another name of the chain. -/
  maximal : ∀ first, chain.head? = some first →
    ix.parent? first = none ∨ ix.parent? first = some name ∨
      ∃ up ∈ chain, ix.parent? first = some up

namespace Climbs

variable {ix : Index} {met l : List String} {name : String}

/-- The climb of an index keeps the names that are still free, which are those not met yet. -/
theorem climb {free : List String} (hnodup : free.Nodup)
    (hfree : ∀ z ∈ ix.parentNames, z ∈ free ↔ z ∉ met) : Climbs ix met name (ix.climb free name) := by
  fun_induction Index.climb ix free name generalizing met with
  | case1 free name hnone =>
    refine .stop fun up hup => ?_
    rw [Up, hnone] at hup
    cases hup
  | case2 free name up hup hmem ih =>
    have hmet : up ∉ met := (hfree up (mem_parentNames_of_up hup)).mp hmem
    refine .step hup hmet (ih (hnodup.erase up) fun z hz => ?_)
    rw [hnodup.mem_erase_iff, hfree z hz, List.mem_cons, not_or]
  | case3 free name up hup hmem =>
    refine .stop fun up' hup' => ?_
    obtain rfl : up = up' := Option.some.inj (hup.symm.trans hup')
    by_contra hmet
    exact hmem ((hfree up (mem_parentNames_of_up hup)).mpr hmet)

theorem notMem (h : Climbs ix met name l) : ∀ z ∈ l, z ∉ met := by
  induction h with
  | stop h => simp
  | step hup hmet hrest ih =>
    intro z hz
    rcases List.mem_cons.mp hz with rfl | hz
    · exact hmet
    · exact fun hz' => ih z hz (List.mem_cons_of_mem _ hz')

theorem nodup (h : Climbs ix met name l) : l.Nodup := by
  induction h with
  | stop h => exact List.nodup_nil
  | step hup hmet hrest ih =>
    exact List.nodup_cons.mpr ⟨fun hmem => hrest.notMem _ hmem List.mem_cons_self, ih⟩

theorem isChain (h : Climbs ix met name l) : (name :: l).IsChain ix.Up := by
  induction h with
  | stop h => exact List.isChain_singleton _
  | step hup hmet hrest ih => exact List.isChain_cons_cons.mpr ⟨hup, ih⟩

theorem head? (h : Climbs ix met name l) : l.head? = (ix.parent? name).filter (· ∉ met) := by
  cases h with
  | stop h =>
    cases hup : ix.parent? name with
    | none => rfl
    | some up => simp [Option.filter, h up hup]
  | step hup hmet hrest => simp [Option.filter, show ix.parent? name = _ from hup, hmet]

theorem getLast (h : Climbs ix met name l) :
    ∀ last, (name :: l).getLast? = some last → ∀ up, ix.Up last up → up ∈ met ∨ up ∈ l := by
  induction h with
  | stop h =>
    intro last hlast up hup
    obtain rfl := Option.some.inj hlast
    exact Or.inl (h up hup)
  | step hup hmet hrest ih =>
    intro last hlast up' hup'
    rw [List.getLast?_cons_cons] at hlast
    rcases ih last hlast up' hup' with hmem | hmem
    · rcases List.mem_cons.mp hmem with rfl | hmem
      · exact Or.inr List.mem_cons_self
      · exact Or.inl hmem
    · exact Or.inr (List.mem_cons_of_mem _ hmem)

theorem mem_parentNames (h : Climbs ix met name l) : ∀ z ∈ l, z ∈ ix.parentNames := by
  induction h with
  | stop h => simp
  | step hup hmet hrest ih => exact List.forall_mem_cons.mpr ⟨mem_parentNames_of_up hup, ih⟩

theorem length_le (h : Climbs ix met name l) : l.length ≤ ix.parentNames.length :=
  (h.nodup.subperm h.mem_parentNames).length_le

theorem of_isChain (hnodup : l.Nodup) (hmet : ∀ z ∈ l, z ∉ met) (hchain : (name :: l).IsChain ix.Up)
    (hend : ∀ last, (name :: l).getLast? = some last → ∀ up, ix.Up last up → up ∈ met ∨ up ∈ l) :
    Climbs ix met name l := by
  induction l generalizing met name with
  | nil => exact .stop fun up hup => by simpa using hend name rfl up hup
  | cons x rest ih =>
    obtain ⟨hx, hrest⟩ := List.isChain_cons_cons.mp hchain
    obtain ⟨hxrest, hnodup⟩ := List.nodup_cons.mp hnodup
    refine .step hx (hmet x List.mem_cons_self) (ih hnodup (fun z hz => ?_) hrest ?_)
    · rw [List.mem_cons, not_or]
      exact ⟨fun he => hxrest (he ▸ hz), hmet z (List.mem_cons_of_mem x hz)⟩
    · intro last hlast up hup
      rcases hend last (by rwa [List.getLast?_cons_cons]) up hup with hmem | hmem
      · exact Or.inl (List.mem_cons_of_mem x hmem)
      · rcases List.mem_cons.mp hmem with rfl | hmem
        · exact Or.inl List.mem_cons_self
        · exact Or.inr hmem

theorem unique {l' : List String} (h : Climbs ix met name l) (h' : Climbs ix met name l') :
    l = l' := by
  induction h generalizing l' with
  | stop h =>
    cases h' with
    | stop => rfl
    | step hup hmet hrest => exact absurd (h _ hup) hmet
  | step hup hmet hrest ih =>
    cases h' with
    | stop h => exact absurd (h _ hup) hmet
    | step hup' hmet' hrest' =>
      obtain rfl := Option.some.inj (hup.symm.trans hup')
      rw [ih hrest']

end Climbs

variable {ix : Index} {name : String}

/-- The list of ancestors is a finished climb, read backwards. -/
theorem isAncestry_iff_climbs {chain : List String} :
    ix.IsAncestry name chain ↔ ix.Climbs [name] name chain.reverse := by
  constructor
  · intro h
    have hnotMem : ∀ z ∈ chain.reverse, z ∉ [name] := by
      intro z hz hname
      rw [List.mem_singleton] at hname
      exact h.notMem (hname ▸ List.mem_reverse.mp hz)
    refine .of_isChain (List.nodup_reverse.mpr h.nodup) hnotMem ?_ ?_
    · rw [List.isChain_cons, List.head?_reverse, h.last]
      refine ⟨fun up hup => (Option.filter_eq_some_iff.mp hup).1, ?_⟩
      exact List.isChain_reverse.mpr h.linked
    · intro last hlast up hup
      rw [List.mem_singleton, List.mem_reverse]
      cases hfirst : chain.head? with
      | none =>
        obtain rfl : chain = [] := List.head?_eq_none_iff.mp hfirst
        obtain rfl : name = last := Option.some.inj hlast
        by_contra hne
        rw [not_or] at hne
        have hnone := h.last.symm
        rw [show ix.parent? name = some up from hup] at hnone
        simp [hne.1] at hnone
      | some first =>
        rw [List.getLast?_cons, List.getLast?_reverse, hfirst] at hlast
        obtain rfl : first = last := Option.some.inj hlast
        rw [Up] at hup
        rcases h.maximal first hfirst with hnone | hself | ⟨up', hmem, hup'⟩
        · rw [hnone] at hup
          cases hup
        · exact Or.inl (Option.some.inj (hup.symm.trans hself))
        · obtain rfl : up = up' := Option.some.inj (hup.symm.trans hup')
          exact Or.inr hmem
  · intro h
    obtain ⟨hhead, hlinked⟩ := List.isChain_cons.mp h.isChain
    refine ⟨List.nodup_reverse.mp h.nodup, fun hmem => ?_, ?_, List.isChain_reverse.mp hlinked, ?_⟩
    · exact h.notMem name (List.mem_reverse.mpr hmem) (List.mem_singleton_self name)
    · rw [← List.head?_reverse, h.head?]
      simp only [List.mem_singleton]
    · intro first hfirst
      have hlast : (name :: chain.reverse).getLast? = some first := by
        rw [List.getLast?_cons, List.getLast?_reverse, hfirst, Option.getD_some]
      cases hup : ix.parent? first with
      | none => exact Or.inl rfl
      | some up =>
        rcases h.getLast first hlast up hup with hself | hmem
        · exact Or.inr (Or.inl (by rw [List.mem_singleton.mp hself]))
        · exact Or.inr (Or.inr ⟨up, List.mem_reverse.mp hmem, rfl⟩)

theorem climbs_ancestors (ix : Index) (name : String) :
    ix.Climbs [name] name (ix.ancestors name).reverse := by
  have hnodup : ix.parentNames.Nodup := nodup_distinct _
  rw [ancestors, List.reverse_reverse]
  refine .climb (hnodup.erase name) fun z hz => ?_
  rw [hnodup.mem_erase_iff, List.mem_singleton]
  exact and_iff_left hz

/-- Nothing is above a subject exactly if no other subject refers to it. -/
theorem parent?_eq_none_iff (hs : ix.isSubject name) : ix.parent? name = none ↔
    ∀ t ∈ ix.triples, name ∈ t.object.subjectNames → t.subject.name = name := by
  have hnone : ix.parent? name = none ↔ ix.referrer? name = none := by
    rw [parent?_of_isSubject hs, asObject?_eq]
    cases hr : ix.referrer? name with
    | none => simp
    | some r =>
      simp only [Option.map_some, reduceCtorEq, iff_false]
      split_ifs <;> simp
  rw [hnone, referrer?, List.find?_eq_none]
  simp

/-- Chains of ancestors, in any list of subjects. The climb from a name comes to an end, after no
more steps than there are names, and it meets every name once. The list of ancestors has the
properties of an ancestry, and no other list has them. Its subjects make the list of ancestor
subjects. Nothing is above a subject exactly if no other subject refers to it. -/
theorem ancestors_chain (subjects : List Subject) (name : String) :
    let ix := ofSubjects subjects
    let chain := ix.ancestors name
    ix.Climbs [name] name chain.reverse ∧ chain.length ≤ ix.parentNames.length ∧
    ix.IsAncestry name chain ∧ (∀ chain', ix.IsAncestry name chain' → chain' = chain) ∧
    ((ix.ancestorSubjects name).Sublist chain ∧
      ∀ x, x ∈ ix.ancestorSubjects name ↔ x ∈ chain ∧ ∃ s ∈ subjects, s.name = x) ∧
    ∀ s ∈ subjects, ix.parent? s.name = none ↔
      ∀ t ∈ ix.triples, s.name ∈ t.object.subjectNames → t.subject.name = s.name := by
  intro ix chain
  have hclimbs : ix.Climbs [name] name chain.reverse := climbs_ancestors ix name
  refine ⟨hclimbs, ?_, isAncestry_iff_climbs.mpr hclimbs, fun chain' h => ?_,
    ⟨List.filter_sublist, fun x => ?_⟩, fun s hs => ?_⟩
  · rw [← List.length_reverse]
    exact hclimbs.length_le
  · exact List.reverse_injective ((isAncestry_iff_climbs.mp h).unique hclimbs)
  · rw [ancestorSubjects, List.mem_filter, isSubject_iff]
    rfl
  · exact parent?_eq_none_iff (isSubject_iff.mpr ⟨s, hs, rfl⟩)

end SparqlModel.Index
