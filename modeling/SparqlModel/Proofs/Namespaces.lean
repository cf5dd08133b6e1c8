import SparqlModel.Proofs.Review
import SparqlModel.Proofs.TextParts

/-!
# Labels without a namespace

The label of a compact URI is the text before its first colon. A review looks for it in the URIs
that it reads, as a run of word characters. So an accepted graph has a namespace for every label of
that kind. Labels with a dot or a hyphen escape the review, and so do the URIs that it does not
read: those in a list of alternatives inside another one, and what stands below a type predicate
apart from the names of its objects.
-/

namespace SparqlModel

namespace Uri

def labelText (s : String) : String :=
  String.ofList (s.toList.takeWhile (· != ':'))

def IsCurie (s : String) : Prop :=
  isUri s = true ∧ isBracketed s = false

instance (s : String) : Decidable (IsCurie s) :=
  inferInstanceAs (Decidable (_ ∧ _))

variable {s label : String}

theorem isWord_colon : Text.isWord ':' = false := by
  decide +kernel

theorem isWord_bracket : Text.isWord '<' = false := by
  decide +kernel

theorem not_mem_of_isWord {cs : List Char} {c : Char} (hc : Text.isWord c = false)
    (h : ∀ d ∈ cs, Text.isWord d = true) : c ∉ cs :=
  fun hmem => Bool.false_ne_true (hc.symm.trans (h c hmem))

/-- What a URI relies on: a word before a colon at its start. -/
theorem prefixOf?_eq_some_iff : prefixOf? s = some label ↔
    isBracketed s = false ∧ label ≠ "" ∧ (∀ c ∈ label.toList, Text.isWord c = true) ∧
      ∃ rest, s.toList = label.toList ++ ':' :: rest := by
  constructor
  · intro h
    have hsplit := List.takeWhile_append_dropWhile (p := Text.isWord) (l := s.toList)
    unfold prefixOf? at h
    dsimp only at h
    split_ifs at h with hb hne
    · split at h <;> cases h
    · split at h
      · rename_i rest hrest
        obtain rfl := Option.some.inj h
        rw [hrest] at hsplit
        refine ⟨by simpa using hb, by simpa using hne, ?_, rest, by simpa using hsplit.symm⟩
        intro c hc
        rw [String.toList_ofList] at hc
        exact List.mem_takeWhile_imp hc
      · cases h
  · rintro ⟨hb, hne, hword, rest, hs⟩
    have htake : s.toList.takeWhile Text.isWord = label.toList := by
      rw [hs, List.takeWhile_append_of_pos hword]
      simp [isWord_colon]
    have hdrop : s.toList.dropWhile Text.isWord = ':' :: rest := by
      rw [hs, List.dropWhile_append_of_pos hword]
      simp [isWord_colon]
    simp [prefixOf?, hb, htake, hdrop, hne]

theorem bracket_mem_of_isCurie (hs : IsCurie s) (hcolon : ':' ∉ s.toList) : '<' ∈ s.toList := by
  have hsub : (Text.strip s).toList ⊆ s.toList := by
    rw [Text.strip, String.toList_ofList]
    exact (Text.trimBy_isInfix Text.isBlank s.toList).subset
  rcases Bool.or_eq_true _ _ ▸ hs.1 with hb | hc
  · unfold isBracketed at hb
    split at hb
    · rename_i rest hrest
      exact hsub (hrest ▸ List.mem_cons_self)
    · cases hb
  · have hnil : (Text.strip s).toList.dropWhile (· != ':') = [] := by
      rw [List.dropWhile_eq_nil_iff]
      intro c hc
      exact bne_iff_ne.mpr fun he => hcolon (hsub (he ▸ hc))
    simp [isCompact, hnil] at hc

/-- A review finds the label of a compact URI exactly if it is a word. -/
theorem prefixOf?_eq_labelText_iff (hs : IsCurie s) : prefixOf? s = some (labelText s) ↔
    labelText s ≠ "" ∧ ∀ c ∈ (labelText s).toList, Text.isWord c = true := by
  rw [prefixOf?_eq_some_iff]
  constructor
  · rintro ⟨-, hne, hword, -⟩
    exact ⟨hne, hword⟩
  · rintro ⟨hne, hword⟩
    refine ⟨hs.2, hne, hword, ?_⟩
    have hsplit := List.takeWhile_append_dropWhile (p := (· != ':')) (l := s.toList)
    cases hdrop : s.toList.dropWhile (· != ':') with
    | cons c rest =>
      have hhead := List.head?_dropWhile_not (· != ':') s.toList
      obtain rfl : c = ':' := by simpa [hdrop] using hhead
      rw [hdrop] at hsplit
      exact ⟨rest, by simpa [labelText] using hsplit.symm⟩
    | nil =>
      -- then the whole text is the label, and a bracket in it is no word character
      rw [hdrop, List.append_nil] at hsplit
      have hall := List.dropWhile_eq_nil_iff.mp hdrop
      have hbracket := bracket_mem_of_isCurie hs fun hmem => by simpa using hall _ hmem
      rw [labelText, String.toList_ofList, hsplit] at hword
      exact absurd hbracket (not_mem_of_isWord isWord_bracket hword)

end Uri

mutual

/-- The URIs of a subject: its value, the URIs of its predicates, the names of classes, and the
values of URI objects, however deep they stand in blank nodes and lists of alternatives. -/
def subjectUris : Subject → List String
  | ⟨_, value, _, ps⟩ => value.toList ++ predicateUris ps

def predicateUris : List Predicate → List String
  | [] => []
  | p@⟨uri, _, os⟩ :: rest =>
    uri :: (if p.isType then os.map (·.name) else []) ++ objectUris os ++ predicateUris rest

def objectUris : List Object → List String
  | [] => []
  | o :: rest => urisOf o ++ objectUris rest

def urisOf : Object → List String
  | .uri _ value => [value]
  | .blank s => subjectUris s
  | .choice _ members => objectUris members
  | _ => []

end

def uris (subjects : List Subject) : List String :=
  subjects.flatMap subjectUris

/-- The value of a URI object that stands directly in a list of alternatives. -/
def memberUri? : Object → Option String
  | .uri _ value => some value
  | _ => none

mutual

/-- The URIs of a subject that a review reads. Below a type predicate these are the names of its
objects only, and in a list of alternatives the URIs that stand directly in it. -/
def subjectReads : Subject → List String
  | ⟨_, value, _, ps⟩ => value.toList ++ predicateReads ps

def predicateReads : List Predicate → List String
  | [] => []
  | p@⟨uri, _, os⟩ :: rest =>
    uri :: (if p.isType then os.map (·.name) else objectReads os) ++ predicateReads rest

def objectReads : List Object → List String
  | [] => []
  | o :: rest => readsOf o ++ objectReads rest

def readsOf : Object → List String
  | .uri _ value => [value]
  | .blank s => subjectReads s
  | .choice _ members => members.filterMap memberUri?
  | _ => []

end

def readUris (subjects : List Subject) : List String :=
  subjects.flatMap subjectReads

def Mention.label? : Mention → Option String
  | label l => some l
  | _ => none

theorem label?_ofUris (us : List String) :
    (us.flatMap Mention.ofUri).filterMap Mention.label? = us.filterMap Uri.prefixOf? := by
  induction us with
  | nil => rfl
  | cons uri rest ih =>
    rw [List.flatMap_cons, List.filterMap_append, ih]
    cases h : Uri.prefixOf? uri <;> simp [Mention.ofUri, Mention.label?, h]

theorem label?_ofUri (uri : String) :
    (Mention.ofUri uri).filterMap Mention.label? = [uri].filterMap Uri.prefixOf? := by
  simpa using label?_ofUris [uri]

theorem flatMap_ofMember (members : List Object) :
    members.flatMap Mention.ofMember = (members.filterMap memberUri?).flatMap Mention.ofUri := by
  induction members with
  | nil => rfl
  | cons o rest ih =>
    rw [List.flatMap_cons, ih]
    cases o with
    | uri name value => rfl
    | _ => rfl

mutual

/-- The labels that a review meets are those of the URIs that it reads. -/
theorem label?_subjectMentions (s : Subject) :
    (subjectMentions s).filterMap Mention.label? = (subjectReads s).filterMap Uri.prefixOf? := by
  match s with
  | ⟨name, value, isBlank, ps⟩ =>
    rw [subjectMentions, subjectReads, List.filterMap_append, List.filterMap_append,
      List.filterMap_append, label?_ofUris, label?_predicateMentions ps]
    split_ifs <;> simp [Mention.label?]

theorem label?_predicateMentions (ps : List Predicate) :
    (predicateMentions ps).filterMap Mention.label? =
      (predicateReads ps).filterMap Uri.prefixOf? := by
  match ps with
  | [] => rw [predicateMentions, predicateReads, List.filterMap_nil, List.filterMap_nil]
  | ⟨uri, cardinality, os⟩ :: rest =>
    rw [predicateMentions, predicateReads, ← List.singleton_append, List.filterMap_append,
      List.filterMap_append, List.filterMap_append, List.filterMap_append, label?_ofUri,
      label?_predicateMentions rest]
    split_ifs
    · rw [← label?_ofUris (os.map (·.name)), List.flatMap_map]
    · rw [label?_objectMentions os]

theorem label?_objectMentions (os : List Object) :
    (objectMentions os).filterMap Mention.label? = (objectReads os).filterMap Uri.prefixOf? := by
  match os with
  | [] => rw [objectMentions, objectReads, List.filterMap_nil, List.filterMap_nil]
  | o :: rest =>
    rw [objectMentions, objectReads, List.filterMap_append, List.filterMap_append,
      label?_mentionsOf o, label?_objectMentions rest]

theorem label?_mentionsOf (o : Object) :
    (mentionsOf o).filterMap Mention.label? = (readsOf o).filterMap Uri.prefixOf? := by
  match o with
  | .blank s => rw [mentionsOf, readsOf, label?_subjectMentions s]
  | .uri name value => rw [mentionsOf, readsOf, ← label?_ofUri]; rfl
  | .choice name members => rw [mentionsOf, readsOf, ← label?_ofUris, ← flatMap_ofMember]; rfl
  | .reference name subject => simp [mentionsOf, readsOf]
  | .var name => simp [mentionsOf, readsOf, Mention.label?]
  | .literal name value lang datatype => simp [mentionsOf, readsOf, Mention.label?]

end

def metLabels (subjects : List Subject) : PrefixTable :=
  ((mentions subjects).filterMap Mention.label?).map (·, "")

theorem mem_names_metLabels {subjects : List Subject} {l : String} :
    l ∈ (metLabels subjects).names ↔ .label l ∈ mentions subjects := by
  have hlabel : ∀ mention, Mention.label? mention = some l ↔ mention = .label l := by
    intro mention
    cases mention <;> simp [Mention.label?]
  have hnames : (metLabels subjects).names = (mentions subjects).filterMap Mention.label? := by
    simp [metLabels, Table.names, Function.comp_def]
  rw [hnames, List.mem_filterMap]
  simp only [hlabel, exists_eq_right]

theorem label_mem_mentions_iff {subjects : List Subject} {l : String} :
    .label l ∈ mentions subjects ↔ ∃ u ∈ readUris subjects, Uri.prefixOf? u = some l := by
  have hlabels : (metLabels subjects).names = (readUris subjects).filterMap Uri.prefixOf? := by
    simp only [metLabels, Table.names, List.map_map, Function.comp_def, List.map_id', mentions,
      readUris, List.filterMap_flatMap, label?_subjectMentions]
  rw [← mem_names_metLabels, hlabels, List.mem_filterMap]

variable {table : PrefixTable} {subjects : List Subject}

/-- A walk gives no problem exactly if it meets no subject without a class and has a namespace for
every label. -/
theorem reading_problem?_eq_nil_iff {ms : List Mention} :
    reading (Mention.problem? table) ms = [] ↔
      (∀ s, .untyped s ∉ ms) ∧ ∀ l, .label l ∈ ms → l ∈ table.names := by
  induction ms using List.reverseRecOn with
  | nil => simp [reading]
  | append_singleton ms mention ih =>
    rw [reading_append_singleton, List.append_eq_nil_iff, ih]
    cases mention with
    | untyped s =>
      constructor
      · rintro ⟨-, h⟩
        simp [Mention.problem?] at h
      · rintro ⟨h, -⟩
        exact absurd (by simp) (h s)
    | name n => simp [Mention.problem?]
    | label l =>
      simp only [Mention.problem?, List.mem_append, List.mem_singleton, reduceCtorEq, or_false,
        Mention.label.injEq]
      constructor
      · rintro ⟨⟨huntyped, hlabels⟩, hlast⟩
        refine ⟨huntyped, fun l' hl' => ?_⟩
        rcases hl' with hl' | rfl
        · exact hlabels l' hl'
        · by_contra hnot
          have hnew : .label l' ∉ ms := fun hmem => hnot (hlabels l' hmem)
          simp [hnot, hnew] at hlast
      · rintro ⟨huntyped, hlabels⟩
        refine ⟨⟨huntyped, fun l' hl' => hlabels l' (Or.inl hl')⟩, ?_⟩
        simp [hlabels l (Or.inr rfl)]

theorem problems_eq_nil_iff : problems subjects table = [] ↔
    ((∀ s, .untyped s ∉ mentions subjects) ∧
      ∀ l, .label l ∈ mentions subjects → l ∈ table.names) ∧
    metAgain (subjects.map (·.name)) = [] ∧
    metAgain ((mentions subjects).filterMap Mention.name?) = [] := by
  rw [problems_eq, expectedProblems, List.append_eq_nil_iff, List.append_eq_nil_iff,
    List.map_eq_nil_iff, List.map_eq_nil_iff, reading_problem?_eq_nil_iff, and_assoc]

/-- Of a graph that is accepted with some namespaces, only the labels that the review meets need
one. -/
theorem problems_metLabels (h : problems subjects table = []) :
    problems subjects (metLabels subjects) = [] := by
  rw [problems_eq_nil_iff] at h ⊢
  exact ⟨⟨h.1.1, fun l hl => mem_names_metLabels.mpr hl⟩, h.2⟩

/-- The labels for which an accepted graph has a namespace. A review finds the label of a compact URI
exactly if it is a word. All compact URIs of a graph have an empty label or one with a namespace,
whatever the table of namespaces with which the graph is accepted, exactly if the review finds each
of their labels in a URI that it reads. -/
theorem Model.build_namespaces (subjects : List Subject) :
    (∀ c, Uri.IsCurie c → (Uri.prefixOf? c = some (Uri.labelText c) ↔
      Uri.labelText c ≠ "" ∧ ∀ ch ∈ (Uri.labelText c).toList, Text.isWord ch = true)) ∧
    ((∀ table m, Model.build subjects table = .ok m → ∀ c ∈ uris subjects, Uri.IsCurie c →
        Uri.labelText c = "" ∨ Uri.labelText c ∈ table.names) ↔
      ((∃ table m, Model.build subjects table = .ok m) → ∀ c ∈ uris subjects, Uri.IsCurie c →
        Uri.labelText c = "" ∨
          ∃ u ∈ readUris subjects, Uri.prefixOf? u = some (Uri.labelText c))) := by
  refine ⟨fun c hc => Uri.prefixOf?_eq_labelText_iff hc, ?_⟩
  simp only [← label_mem_mentions_iff, Model.build_eq_ok_iff]
  constructor
  · rintro h ⟨table, m, hok, -⟩ c hmem hc
    have hlabels := problems_metLabels hok
    refine (h _ ⟨subjects, _, hlabels⟩ ⟨hlabels, rfl, rfl⟩ c hmem hc).imp_right fun hname => ?_
    exact mem_names_metLabels.mp hname
  · rintro h table m ⟨hok, hs, ht⟩ c hmem hc
    refine (h ⟨table, m, hok, hs, ht⟩ c hmem hc).imp_right fun hlabel => ?_
    exact (problems_eq_nil_iff.mp hok).1.2 _ hlabel

/-- An entry whose status is a list inside of a list: its URI is not read. -/
example :
    let subjects := [(⟨"Entry", none, false, [⟨"a", none, [.uri "ex:Entry" "ex:Entry"]⟩,
      ⟨"ex:status", none, [.choice "status" [.choice "status" [.uri "status" "up:Active"]]]⟩]⟩ :
        Subject)]
    uris subjects = ["a", "ex:Entry", "ex:Entry", "ex:status", "up:Active"] ∧
      readUris subjects = ["a", "ex:Entry", "ex:status"] := by
  decide

/-- An entry with an example URI, the label of which has a hyphen. -/
def hyphenLabel : Model where
  subjects := [⟨"Entry", some "my-ns:entry1", false, [⟨"a", none, [.uri "ex:Entry" "ex:Entry"]⟩]⟩]
  prefixes := [("ex", "http://example.org/")]
  accepted := by decide +kernel

/-- The graph is accepted, and there is no namespace for the label of its example URI. -/
theorem hyphenLabel_undeclared :
    Model.build hyphenLabel.subjects hyphenLabel.prefixes = .ok hyphenLabel ∧
      "my-ns:entry1" ∈ uris hyphenLabel.subjects ∧ Uri.IsCurie "my-ns:entry1" ∧
      Uri.labelText "my-ns:entry1" = "my-ns" ∧ "my-ns" ∉ hyphenLabel.prefixes.names := by
  refine ⟨Model.build_eq_ok_iff.mpr ⟨hyphenLabel.accepted, rfl, rfl⟩, ?_⟩
  decide +kernel

end SparqlModel
