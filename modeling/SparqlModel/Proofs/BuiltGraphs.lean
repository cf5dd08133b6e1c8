import SparqlModel.Proofs.Registration
import SparqlModel.Proofs.TextParts

/-!
# The shape of built graphs

Data may hold anything at any depth, and still a graph that was built from it has a fixed shape. Its
roots have names of one word. Below them, blank nodes, classes, references, lists of alternatives
and URIs each have a form of their own, whatever the data looked like.

One lemma for each function of the builder says how its results come about. The shape at any depth
follows by induction on the way from the root.
-/

namespace SparqlModel

/-- An object stands below a subject at any depth. Blank nodes are entered, and the members of a
list stand under the predicate of the list. -/
inductive Subject.Contains : Subject → Predicate → Object → Prop
  | own {s : Subject} {p : Predicate} {o : Object} (hp : p ∈ s.predicates) (ho : o ∈ p.objects) :
    Contains s p o
  | nested {s b : Subject} {p q : Predicate} {o : Object} (hb : Contains s q (.blank b))
      (ho : Contains b p o) : Contains s p o
  | member {s : Subject} {p : Predicate} {name : String} {members : List Object} {o : Object}
      (hlist : Contains s p (.choice name members)) (ho : o ∈ members) : Contains s p o

namespace Graph

/-- The shape of an object under a predicate, where the names of the roots are given. -/
structure IsShaped (roots : List String) (p : Predicate) (o : Object) : Prop where
  /-- The name of a class is its URI. -/
  isClass : p.isType = true → ∃ uri, o = .uri uri uri
  blank : ∀ b, o = .blank b → b.name = blankName ∧ b.isBlank = true ∧ b.value = none
  reference : ∀ name subject, o = .reference name subject → subject ∈ roots
  choice : ∀ name members, o = .choice name members →
    ∀ member ∈ members, member.name = name ∧ member.isBlankNode = false
  uri : p.isType = false → ∀ name value, o = .uri name value →
    Text.strip value = value ∧ Uri.isUri value = true

/-- What an example value can make of a name. -/
inductive Classified (registered : List String) (name : String) : Object → Prop
  | var : Classified registered name (.var name)
  | literal (value : Value) (lang datatype : Option String) :
    Classified registered name (.literal name value lang datatype)
  | reference {subject : String} (h : subject ∈ registered) :
    Classified registered name (.reference name subject)
  | uri {value : String} (hstrip : Text.strip value = value) (huri : Uri.isUri value = true) :
    Classified registered name (.uri name value)
  | choice {members : List Object} (h : ∀ member ∈ members, Classified registered name member) :
    Classified registered name (.choice name members)

/-- What an entry of a predicate can make: a blank node with a property list, or an object with a
name. -/
inductive Made (registered : List String) : Object → Prop
  | blank {value : Value} {ps : List Predicate} (h : buildPredicates registered value = .ok ps) :
    Made registered (.blank (blankSubject ps))
  | named {name : String} {o : Object} (h : Classified registered name o) : Made registered o

variable {registered : List String} {name : String}

theorem Classified.name_eq {o : Object} (h : Classified registered name o) :
    o.name = name ∧ o.isBlankNode = false := by
  cases h <;> exact ⟨rfl, rfl⟩

theorem Classified.members {members : List Object} {name' : String}
    (h : Classified registered name (.choice name' members)) :
    ∀ member ∈ members, Classified registered name' member := by
  cases h with
  | choice h => exact h

mutual

theorem classified_classify (name : String) (v : Value) :
    Classified registered name (classify registered name v) := by
  match v with
  | .list items =>
    rw [classify]
    exact .choice (classified_classifyItems name items)
  | .scalar .null =>
    rw [classify]
    exact .var
  | .scalar (.text s) =>
    rw [classify]
    split_ifs with hreg huri
    · exact .reference (by simpa using hreg)
    · refine .uri (Text.strip_strip s) ?_
      rwa [Uri.isUri, Text.strip_strip, ← Uri.isUri]
    · exact .literal _ _ _
  | .scalar (.bool _) | .scalar (.int _) | .scalar (.float _) | .scalar (.date _)
  | .scalar (.moment _) | .scalar (.bytes _) | .map _ | .set _ | .pair _ _ | .knot _ _
  | .again _ =>
    rw [classify]
    · exact .literal _ _ _
    all_goals simp

theorem classified_classifyItems (name : String) (items : List Value) :
    ∀ o ∈ classifyItems registered name items, Classified registered name o := by
  match items with
  | [] => simp [classifyItems]
  | v :: rest =>
    rw [classifyItems]
    exact List.forall_mem_cons.mpr
      ⟨classified_classify name v, classified_classifyItems name rest⟩

end

theorem made_of_namedObject {v : Value} {o : Object} (h : namedObject registered v = .ok o) :
    Made registered o := by
  simp only [namedObject, bind_eq_ok_iff, pure_eq_ok_iff] at h
  obtain ⟨s, -, rfl⟩ := h
  split_ifs with hreg
  · exact .named (.reference (by simpa using hreg))
  · exact .named .var

theorem made_of_buildObject {v : Value} {o : Object} (h : buildObject registered v = .ok o) :
    Made registered o := by
  unfold buildObject at h
  split at h
  · split_ifs at h
    · simp only [bind_eq_ok_iff, pure_eq_ok_iff] at h
      obtain ⟨ps, hps, rfl⟩ := h
      exact .blank hps
    · simp only [bind_eq_ok_iff, pure_eq_ok_iff] at h
      obtain ⟨name, -, rfl⟩ := h
      exact .named (classified_classify name _)
  · simp [bind_eq_ok_iff] at h
  · split_ifs at h
    · obtain rfl := Except.ok.inj h
      have hnull : buildPredicates registered (.scalar .null) = .ok [] := by simp [buildPredicates]
      exact .blank hnull
    · exact made_of_namedObject h
  · exact made_of_namedObject h

theorem made_of_buildObjects {items : List Value} {os : List Object}
    (h : buildObjects registered items = .ok os) : ∀ o ∈ os, Made registered o := by
  induction items generalizing os with
  | nil =>
    obtain rfl : [] = os := by simpa [buildObjects] using h
    simp
  | cons v rest ih =>
    rw [buildObjects_cons] at h
    split_ifs at h
    · exact ih h
    · simp only [bind_eq_ok_iff, pure_eq_ok_iff] at h
      obtain ⟨o, ho, others, hothers, rfl⟩ := h
      exact List.forall_mem_cons.mpr ⟨made_of_buildObject ho, ih hothers⟩

theorem mem_of_mapM_eq_ok {ε α β : Type} {f : α → Except ε β} {xs : List α} {ys : List β}
    (h : xs.mapM f = .ok ys) : ∀ y ∈ ys, ∃ x ∈ xs, f x = .ok y := by
  intro y hy
  obtain ⟨i, hi, rfl⟩ := List.getElem_of_mem hy
  obtain ⟨hlength, hget⟩ := List.forall₂_iff_get.mp (mapM_eq_ok_iff.mp h)
  exact ⟨xs.get ⟨i, hlength ▸ hi⟩, List.get_mem xs _, hget i _ hi⟩

theorem uri_of_typeObjects {items : List Value} {os : List Object}
    (h : typeObjects items = .ok os) : ∀ o ∈ os, ∃ uri, o = .uri uri uri := by
  intro o ho
  obtain ⟨v, -, hv⟩ := mem_of_mapM_eq_ok h o ho
  simp only [bind_eq_ok_iff, pure_eq_ok_iff] at hv
  obtain ⟨name, hname, value, hvalue, rfl⟩ := hv
  obtain rfl := Except.ok.inj (hname.symm.trans hvalue)
  exact ⟨name, rfl⟩

/-- The objects of a predicate that was built: classes, or objects that entries make. -/
def HasMadeObjects (registered : List String) (p : Predicate) : Prop :=
  (p.isType = true ∧ ∀ o ∈ p.objects, ∃ uri, o = .uri uri uri) ∨
    (p.isType = false ∧ ∀ o ∈ p.objects, Made registered o)

theorem hasMadeObjects_of_predicateOf {key : String} {items : List Value}
    {objects : Except BuildError (List Object)} {p : Predicate}
    (h : predicateOf key items objects = .ok p)
    (hobjects : ∀ os, objects = .ok os → ∀ o ∈ os, Made registered o) :
    HasMadeObjects registered p := by
  unfold predicateOf at h
  split at h
  · cases h
  · split_ifs at h with htype
    all_goals
      simp only [bind_eq_ok_iff, pure_eq_ok_iff] at h
      obtain ⟨os, hos, rfl⟩ := h
    · exact Or.inl ⟨htype, uri_of_typeObjects hos⟩
    · exact Or.inr ⟨by simpa [Predicate.isType] using htype, hobjects os hos⟩

theorem hasMadeObjects_of_buildEntry {e : Scalar × Value} {p : Predicate}
    (h : buildEntry registered e = .ok p) : HasMadeObjects registered p := by
  unfold buildEntry at h
  split at h
  all_goals
    rw [bind_eq_ok_iff] at h
    obtain ⟨s, -, hp⟩ := h
    refine hasMadeObjects_of_predicateOf hp fun os hos => ?_
  · exact made_of_buildObjects hos
  · split_ifs at hos
    · obtain rfl := Except.ok.inj hos
      simp
    · obtain ⟨o, ho, rfl⟩ := map_eq_ok_iff.mp hos
      simpa using made_of_buildObject ho

theorem hasMadeObjects_of_buildEntries {entries : List (Scalar × Value)} {ps : List Predicate}
    (h : buildEntries registered entries = .ok ps) : ∀ p ∈ ps, HasMadeObjects registered p := by
  induction entries generalizing ps with
  | nil =>
    obtain rfl : [] = ps := by simpa [buildEntries] using h
    simp
  | cons e rest ih =>
    rw [buildEntries] at h
    simp only [bind_eq_ok_iff, pure_eq_ok_iff] at h
    obtain ⟨p, hp, others, hothers, rfl⟩ := h
    exact List.forall_mem_cons.mpr ⟨hasMadeObjects_of_buildEntry hp, ih hothers⟩

theorem hasMadeObjects_of_buildItems {items : List Value} {ps : List Predicate}
    (h : buildItems registered items = .ok ps) : ∀ p ∈ ps, HasMadeObjects registered p := by
  induction items generalizing ps with
  | nil =>
    obtain rfl : [] = ps := by simpa [buildItems] using h
    simp
  | cons v rest ih =>
    cases v with
    | map entries =>
      rw [buildItems] at h
      simp only [bind_eq_ok_iff, pure_eq_ok_iff] at h
      obtain ⟨these, hthese, others, hothers, rfl⟩ := h
      exact List.forall_mem_append.mpr ⟨hasMadeObjects_of_buildEntries hthese, ih hothers⟩
    | _ =>
      rw [buildItems] at h
      · exact ih h
      · simp

theorem hasMadeObjects_of_buildPredicates {v : Value} {ps : List Predicate}
    (h : buildPredicates registered v = .ok ps) : ∀ p ∈ ps, HasMadeObjects registered p := by
  unfold buildPredicates at h
  split at h
  · exact hasMadeObjects_of_buildItems h
  · exact hasMadeObjects_of_buildEntries h
  · obtain rfl := Except.ok.inj h
    simp

/-- Below a subject that was built, every object at any depth was made. -/
theorem contains_made {s : Subject} (hs : ∀ p ∈ s.predicates, HasMadeObjects registered p)
    {p : Predicate} {o : Object} (h : s.Contains p o) :
    (p.isType = true ∧ ∃ uri, o = .uri uri uri) ∨ (p.isType = false ∧ Made registered o) := by
  induction h with
  | own hp ho =>
    rcases hs _ hp with ⟨ht, hclass⟩ | ⟨ht, hmade⟩
    · exact Or.inl ⟨ht, hclass _ ho⟩
    · exact Or.inr ⟨ht, hmade _ ho⟩
  | nested hb ho ihb iho =>
    rcases ihb hs with ⟨-, uri, huri⟩ | ⟨-, hmade⟩
    · cases huri
    · cases hmade with
      | blank hps => exact iho (hasMadeObjects_of_buildPredicates hps)
      | named h => cases h
  | member hlist ho ih =>
    rcases ih hs with ⟨-, uri, huri⟩ | ⟨ht, hmade⟩
    · cases huri
    · cases hmade with
      | named h => exact Or.inr ⟨ht, .named (h.members _ ho)⟩

theorem IsShaped.of_made {roots : List String} (hroots : registered ⊆ roots) {p : Predicate}
    {o : Object}
    (h : (p.isType = true ∧ ∃ uri, o = .uri uri uri) ∨ (p.isType = false ∧ Made registered o)) :
    IsShaped roots p o := by
  rcases h with ⟨ht, uri, rfl⟩ | ⟨ht, hmade⟩
  · refine ⟨fun _ => ⟨uri, rfl⟩, by simp, by simp, by simp, fun hfalse => ?_⟩
    cases ht.symm.trans hfalse
  · have hclass : p.isType = true → ∃ uri, o = .uri uri uri := by
      intro htrue
      cases ht.symm.trans htrue
    cases hmade with
    | blank hps =>
      refine ⟨hclass, fun b hb => ?_, by simp, by simp, by simp⟩
      obtain rfl := Object.blank.inj hb
      exact ⟨rfl, rfl, rfl⟩
    | named h =>
      cases h with
      | var => exact ⟨hclass, by simp, by simp, by simp, by simp⟩
      | literal => exact ⟨hclass, by simp, by simp, by simp, by simp⟩
      | reference hreg => exact ⟨hclass, by simp, by simpa using hroots hreg, by simp, by simp⟩
      | uri hstrip huri => exact ⟨hclass, by simp, by simp, by simp, by simp [hstrip, huri]⟩
      | choice hmembers =>
        refine ⟨hclass, by simp, by simp, fun name members he => ?_, by simp⟩
        obtain ⟨rfl, rfl⟩ := Object.choice.inj he
        exact fun member hmember => (hmembers member hmember).name_eq

/-- A root that was built: a subject with a name of one word. -/
structure IsBuiltRoot (registered : List String) (s : Subject) : Prop where
  name_ne : s.name ≠ ""
  name_chars : ∀ c ∈ s.name.toList, Text.isBlank c = false
  not_blank : s.isBlank = false
  predicates : ∀ p ∈ s.predicates, HasMadeObjects registered p

theorem mem_words_of_splitSubjectKey {key : String} {r : String × Option String}
    (h : splitSubjectKey key = .ok r) : r.1 ∈ Text.words key := by
  unfold splitSubjectKey at h
  split at h
  · cases h
  · rename_i hwords
    obtain rfl := Except.ok.inj h
    rw [hwords]
    exact List.mem_cons_self

theorem isBuiltRoot_of_buildSubjects {entries : List (Scalar × Value)} {subjects : List Subject}
    (h : buildSubjects registered entries = .ok subjects) :
    ∀ s ∈ subjects, IsBuiltRoot registered s := by
  induction entries generalizing subjects with
  | nil =>
    obtain rfl := Except.ok.inj h
    simp
  | cons e rest ih =>
    rw [buildSubjects] at h
    simp only [bind_eq_ok_iff, pure_eq_ok_iff] at h
    obtain ⟨key, -, r, hr, ps, hps, others, hothers, rfl⟩ := h
    obtain ⟨hne, hchars⟩ := Text.of_mem_words (mem_words_of_splitSubjectKey hr)
    refine List.forall_mem_cons.mpr ⟨⟨hne, hchars, rfl, ?_⟩, ih hothers⟩
    exact hasMadeObjects_of_buildPredicates hps

theorem isBuiltRoot_of_buildAll {items : List Value} {subjects : List Subject}
    (h : buildAll registered items = .ok subjects) :
    ∀ s ∈ subjects, IsBuiltRoot registered s := by
  fun_induction buildAll registered items generalizing subjects with
  | case1 =>
    obtain rfl := Except.ok.inj h
    simp
  | case2 entries rest ih =>
    simp only [bind_eq_ok_iff, pure_eq_ok_iff] at h
    obtain ⟨these, hthese, others, hothers, rfl⟩ := h
    exact List.forall_mem_append.mpr ⟨isBuiltRoot_of_buildSubjects hthese, ih hothers⟩
  | case3 v rest hv ih => exact ih h

theorem isBuiltRoot_of_build {items : List Value} {subjects : List Subject}
    (h : build items = .ok subjects) :
    ∀ s ∈ subjects, IsBuiltRoot (firstNames items) s :=
  isBuiltRoot_of_buildAll (build_eq_ok h).2

/-- Every registered subject is built. -/
theorem firstNames_subset_of_build {items : List Value} {subjects : List Subject}
    (h : build items = .ok subjects) : firstNames items ⊆ subjects.map (·.name) := by
  intro n hn
  rw [names_buildAll (build_eq_ok h).2]
  exact mem_keys_iff.mpr (Or.inl hn)

theorem isShaped_of_build {items : List Value} {subjects : List Subject}
    (h : build items = .ok subjects) {s : Subject} (hs : s ∈ subjects) {p : Predicate} {o : Object}
    (ho : s.Contains p o) : IsShaped (subjects.map (·.name)) p o :=
  .of_made (firstNames_subset_of_build h)
    (contains_made (isBuiltRoot_of_build h s hs).predicates ho)

/-- The shape of a graph that was built from data of any kind. A root has a name of one word and is
no blank node. At any depth below it, a blank node is named `[]`, marked as such and without a
value; the objects of a type predicate are URIs with their own names; a reference is to one of the
roots; the members of a list have the name of the list and are no blank nodes; and a URI that is no
class has no blanks around it and is recognised as a URI. -/
theorem build_shapes {items : List Value} {subjects : List Subject}
    (h : build items = .ok subjects) :
    ∀ s ∈ subjects,
      (s.name ≠ "" ∧ (∀ c ∈ s.name.toList, Text.isBlank c = false) ∧ s.isBlank = false) ∧
      ∀ p o, s.Contains p o → IsShaped (subjects.map (·.name)) p o := by
  intro s hs
  have hroot := isBuiltRoot_of_build h s hs
  refine ⟨⟨hroot.name_ne, hroot.name_chars, hroot.not_blank⟩, fun p o ho => ?_⟩
  exact isShaped_of_build h hs ho

/-- An entry with a blank node in a blank node, in which a list holds a reference, a URI and a
further list. -/
def nestedParts : List Value := [
  .map [(.text "Entry ex:e1", .list [.map [(.text "a", .text "ex:Entry")],
    .map [(.text "ex:has", .map [(.text "[]", .map [(.text "ex:holds?", .map [(.text "[]",
      .map [(.text "ex:part", .map [(.text "part",
        .list [.text " Gene ", .text " ex:p1", .list [.text "Gene"]])])])])])])]])],
  .map [(.text "Gene", .map [(.text "a", .text "ex:Gene")])]]

def partPredicate : Predicate :=
  ⟨"ex:part", none, [.choice "part" [.reference "part" "Gene", .uri "part" "ex:p1",
    .choice "part" [.reference "part" "Gene"]]]⟩

def holdsPredicate : Predicate :=
  ⟨"ex:holds", some ⟨some 0, some 1⟩, [.blank (blankSubject [partPredicate])]⟩

/-- The predicate that leads to the outer blank node from the entry. -/
def hasPredicate : Predicate :=
  ⟨"ex:has", none, [.blank (blankSubject [holdsPredicate])]⟩

def nestedEntry : Subject :=
  ⟨"Entry", some "ex:e1", false, [⟨"a", none, [.uri "ex:Entry" "ex:Entry"]⟩, hasPredicate]⟩

def partGene : Subject :=
  ⟨"Gene", none, false, [⟨"a", none, [.uri "ex:Gene" "ex:Gene"]⟩]⟩

theorem build_nestedParts : build nestedParts = .ok [nestedEntry, partGene] :=
  rfl

theorem build_shapes_nestedParts :
    ∃ gene, build nestedParts = .ok [nestedEntry, gene] ∧ gene.name = "Gene" ∧
      nestedEntry.Contains partPredicate (.reference "part" "Gene") ∧
      (nestedEntry.name ≠ "" ∧ (∀ c ∈ nestedEntry.name.toList, Text.isBlank c = false) ∧
        nestedEntry.isBlank = false) ∧
      IsShaped ["Entry", "Gene"] partPredicate (.reference "part" "Gene") := by
  have hinner : (blankSubject [partPredicate]).Contains partPredicate (.reference "part" "Gene") :=
    .member (.member (.own (.head _) (.head _)) (.tail _ (.tail _ (.head _)))) (.head _)
  have houter : (blankSubject [holdsPredicate]).Contains partPredicate (.reference "part" "Gene") :=
    .nested (.own (p := holdsPredicate) (.head _) (.head _)) hinner
  have hentry : nestedEntry.Contains partPredicate (.reference "part" "Gene") :=
    .nested (.own (p := hasPredicate) (.tail _ (.head _)) (.head _)) houter
  obtain ⟨hroot, hshaped⟩ := build_shapes build_nestedParts nestedEntry (.head _)
  exact ⟨partGene, build_nestedParts, rfl, hentry, hroot, hshaped _ _ hentry⟩

end Graph

end SparqlModel
