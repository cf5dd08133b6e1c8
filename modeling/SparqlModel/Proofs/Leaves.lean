import SparqlModel.Proofs.LabelScope
import SparqlModel.Proofs.Review
import SparqlModel.Proofs.Visits

/-!
# The labels below a subject

A review meets the labels of all URIs on the way to a leaf, and those of the classes, as long as no
predicate that states a class leads to a blank node. Hence an accepted model has a namespace for
every label on which its predicates and its classes rely.
-/

namespace SparqlModel

theorem subset_predicateMentions {ps : List Predicate} {p : Predicate} (hp : p ∈ ps) :
    (Mention.ofUri p.uri ++ if p.isType then p.objects.flatMap fun o => Mention.ofUri o.name
      else objectMentions p.objects) ⊆ predicateMentions ps := by
  induction ps with
  | nil => simp at hp
  | cons q rest ih =>
    obtain ⟨uri, cardinality, os⟩ := q
    rw [predicateMentions]
    rcases List.mem_cons.mp hp with rfl | hp
    · exact List.subset_append_left _ _
    · exact List.Subset.trans (ih hp) (List.subset_append_right _ _)

theorem mentionsOf_subset {os : List Object} {o : Object} (ho : o ∈ os) :
    mentionsOf o ⊆ objectMentions os := by
  induction os with
  | nil => simp at ho
  | cons o' rest ih =>
    rw [objectMentions]
    rcases List.mem_cons.mp ho with rfl | ho
    · exact List.subset_append_left _ _
    · exact List.Subset.trans (ih ho) (List.subset_append_right _ _)

theorem predicateMentions_subset (s : Subject) :
    predicateMentions s.predicates ⊆ subjectMentions s := by
  obtain ⟨name, value, isBlank, ps⟩ := s
  rw [subjectMentions]
  exact List.subset_append_right _ _

theorem Subject.Holds.mentions {s : Subject} {step : Step} {o : Object} (h : s.Holds step o) :
    Mention.ofUri step.predicate.uri ⊆ predicateMentions s.predicates ∧
      (if step.predicate.isType then Mention.ofUri o.name else mentionsOf o) ⊆
        predicateMentions s.predicates := by
  obtain ⟨huri, hobjects⟩ :=
    List.append_subset.mp (subset_predicateMentions (List.mem_of_getElem? h.1))
  have ho := List.mem_of_getElem? h.2
  refine ⟨huri, List.Subset.trans ?_ hobjects⟩
  split_ifs
  · exact fun x hx => List.mem_flatMap_of_mem ho hx
  · exact mentionsOf_subset ho

theorem Enters.mentions {s b : Subject} {steps : List Step} (h : Enters s steps b)
    (hplain : ∀ step ∈ steps, step.predicate.isType = false) :
    predicateMentions b.predicates ⊆ predicateMentions s.predicates ∧
      ∀ step ∈ steps, Mention.ofUri step.predicate.uri ⊆ predicateMentions s.predicates := by
  induction h with
  | here s => exact ⟨List.Subset.refl _, by simp⟩
  | @through s b c step steps hstep hrest ih =>
    obtain ⟨hfirst, hplain⟩ := List.forall_mem_cons.mp hplain
    obtain ⟨hnested, hsteps⟩ := ih hplain
    obtain ⟨huri, hobject⟩ := hstep.mentions
    rw [hfirst, if_neg Bool.false_ne_true, mentionsOf] at hobject
    have hdown := List.Subset.trans (predicateMentions_subset b) hobject
    exact ⟨List.Subset.trans hnested hdown, List.forall_mem_cons.mpr
      ⟨huri, fun step hmem => List.Subset.trans (hsteps step hmem) hdown⟩⟩

namespace Model

variable (m : Model) {l : String}

theorem subset_mentions {s : Subject} (hs : s ∈ m.subjects) :
    predicateMentions s.predicates ⊆ mentions m.subjects :=
  List.Subset.trans (predicateMentions_subset s) fun _ hx => List.mem_flatMap_of_mem hs hx

theorem label_mem_of_ofUri {uri : String} (h : Mention.ofUri uri ⊆ mentions m.subjects)
    (hl : Uri.prefixOf? uri = some l) : l ∈ m.prefixes.names :=
  m.label_mem_names (h (by simp [Mention.ofUri, hl]))

/-- Every label on which the predicates of a triple rely has a namespace, and so has the label of a
class. -/
theorem label_mem_of_triple (h : m.index.HasPlainHops) {t : Triple} (ht : t ∈ m.index.triples) :
    (∀ s ∈ t.steps, Uri.prefixOf? s.predicate.uri = some l → l ∈ m.prefixes.names) ∧
      (t.predicate.isType = true → Uri.prefixOf? t.object.name = some l →
        l ∈ m.prefixes.names) := by
  obtain ⟨hroot, -, b, henters, hlast⟩ := (Walk.mem_triples_flatten rfl m.subjects).mp ht
  have hsubject := m.subset_mentions (List.mem_of_getElem? hroot)
  obtain ⟨hnested, hsteps⟩ := henters.mentions (h t ht)
  obtain ⟨huri, hobject⟩ := hlast.mentions
  have hdown := List.Subset.trans hnested hsubject
  constructor
  · intro s hs
    apply m.label_mem_of_ofUri
    rcases List.mem_append.mp hs with hs | hs
    · exact List.Subset.trans (hsteps s hs) hsubject
    · rw [List.mem_singleton.mp hs]
      exact List.Subset.trans huri hdown
  · intro htype
    apply m.label_mem_of_ofUri
    rw [if_pos (show t.last.predicate.isType = true from htype)] at hobject
    exact List.Subset.trans hobject hdown

theorem label_mem_of_types {s : Subject} (hs : s ∈ m.subjects) {c : String} (hc : c ∈ s.types)
    (hl : Uri.prefixOf? c = some l) : l ∈ m.prefixes.names := by
  obtain ⟨p, hp, hc⟩ := List.mem_flatMap.mp hc
  obtain ⟨o, ho, rfl⟩ := List.mem_map.mp hc
  obtain ⟨hp, ht⟩ := List.mem_filter.mp hp
  have hclasses := (List.append_subset.mp (subset_predicateMentions hp)).2
  rw [if_pos ht] at hclasses
  refine m.label_mem_of_ofUri (fun x hx => m.subset_mentions hs (hclasses ?_)) hl
  exact List.mem_flatMap_of_mem ho hx

end Model

end SparqlModel
