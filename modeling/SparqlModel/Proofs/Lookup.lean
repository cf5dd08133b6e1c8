import SparqlModel.Proofs.Visits

/-!
# What the look-ups of an index return

A producer of a name either refers to the subject of that name or has the name itself. The object
that stands for a subject belongs to its referrer, the first triple of another subject that refers
to it.
-/

namespace SparqlModel.Index

variable {ix : Index}

theorem isSubject_iff {name : String} : ix.isSubject name ↔ ∃ s ∈ ix.subjects, s.name = name := by
  simp [isSubject]

theorem findSubject?_spec {name : String} {s : Subject} (h : ix.findSubject? name = some s) :
    s ∈ ix.subjects ∧ s.name = name :=
  ⟨List.mem_of_find?_eq_some h, by simpa using List.find?_some h⟩

theorem exists_findSubject? {name : String} (h : ix.isSubject name) :
    ∃ s, ix.findSubject? name = some s := by
  rw [← Option.isSome_iff_exists, findSubject?, List.find?_isSome]
  simpa [isSubject] using h

theorem producer?_mem {name : String} {t : Triple} (h : ix.producer? name = some t) :
    t ∈ ix.triples := by
  unfold producer? at h
  split_ifs at h <;> exact List.mem_of_find?_eq_some h

theorem producer?_refers {name : String} {t : Triple} (h : ix.producer? name = some t)
    (hs : ix.isSubject name) : name ∈ t.object.subjectNames := by
  rw [producer?, if_pos hs] at h
  simpa using List.find?_some h

theorem producer?_name {name : String} {t : Triple} (h : ix.producer? name = some t)
    (hs : ¬ix.isSubject name) : t.object.name = name := by
  rw [producer?, if_neg hs] at h
  simpa using List.find?_some h

/-- The first triple of another subject that refers to a subject. -/
def referrer? (ix : Index) (subject : String) : Option Triple :=
  ix.triples.find? fun t => t.object.subjectNames.contains subject && t.subject.name != subject

theorem asObject?_eq (subject : String) :
    ix.asObject? subject = (ix.referrer? subject).map (·.object.name) := by
  unfold asObject? referrer?
  induction ix.triples with
  | nil => rfl
  | cons t rest ih =>
    rw [List.findSome?_cons, List.find?_cons]
    cases hc : t.object.subjectNames.contains subject && t.subject.name != subject
    · simpa [hc] using ih
    · simp

theorem referrer?_spec {subject : String} {t : Triple} (h : ix.referrer? subject = some t) :
    t ∈ ix.triples ∧ subject ∈ t.object.subjectNames ∧ t.subject.name ≠ subject := by
  have hp := List.find?_some h
  rw [Bool.and_eq_true, List.contains_iff_mem, bne_iff_ne] at hp
  exact ⟨List.mem_of_find?_eq_some h, hp⟩

theorem variableFor_cases (ix : Index) (name : String) :
    ix.variableFor name = name ∨ ∃ t ∈ ix.triples, ix.variableFor name = t.object.name := by
  unfold variableFor
  split_ifs with hs
  · rw [asObject?_eq]
    cases hr : ix.referrer? name with
    | none => exact Or.inl rfl
    | some t => exact Or.inr ⟨t, (referrer?_spec hr).1, rfl⟩
  · exact Or.inl rfl

end SparqlModel.Index
