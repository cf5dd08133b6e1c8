import SparqlModel.Proofs.Names

/-!
# What a review reports

A review walks over the subjects and meets subjects without a class, labels of prefixes and names of
variables. This walk depends on the graph alone. The problems are read off from it: a label is
reported where it is met first, and a name if it is met more than once. Hence an accepted model has
a namespace for every label that its review meets.
-/

namespace SparqlModel

/-- Read a list from left to right, where each element is judged by what stands before it. -/
def reading {α β : Type} (judge : List α → α → Option β) (xs : List α) : List β :=
  xs.zipIdx.filterMap fun p => judge (xs.take p.2) p.1

variable {α β : Type}

theorem reading_append_singleton (judge : List α → α → Option β) (xs : List α) (x : α) :
    reading judge (xs ++ [x]) = reading judge xs ++ (judge xs x).toList := by
  have hsame : (xs.zipIdx.filterMap fun p => judge ((xs ++ [x]).take p.2) p.1) =
      reading judge xs := by
    apply List.filterMap_congr
    intro p hp
    have hlt : p.2 < xs.length := (List.mem_zipIdx' hp).1
    rw [List.take_append_of_le_length (by omega)]
  have hlast : (xs ++ [x]).zipIdx = xs.zipIdx ++ [(x, xs.length)] := by
    simp [List.zipIdx_append]
  rw [reading, hlast, List.filterMap_append, hsame]
  cases h : judge xs x <;> simp [h]

theorem map_reading {γ : Type} (f : β → γ) (judge : List α → α → Option β) (xs : List α) :
    (reading judge xs).map f = reading (fun before x => (judge before x).map f) xs := by
  rw [reading, reading, List.map_filterMap]

/-- The elements that stand at their first place are the distinct ones. -/
theorem reading_filter_eq [DecidableEq α] (p : α → Bool) (xs : List α) :
    reading (fun before x => if x ∉ before ∧ p x = true then some x else none) xs =
      (distinct xs).filter p := by
  induction xs using List.reverseRecOn with
  | nil => rfl
  | append_singleton xs x ih =>
    rw [reading_append_singleton, distinct_append_singleton, ih]
    by_cases hx : x ∈ xs
    · simp [hx]
    · cases hp : p x <;> simp [hx, hp]

/-- What a review meets on its walk. -/
inductive Mention
  /-- A subject that needs a class and has none. -/
  | untyped (subject : String)
  /-- The label on which a URI relies. -/
  | label (label : String)
  /-- The name of a variable. -/
  | name (name : String)
deriving DecidableEq

namespace Mention

def ofUri (uri : String) : List Mention :=
  (Uri.prefixOf? uri).toList.map .label

/-- In a list of alternatives only the URIs that stand directly in it matter. -/
def ofMember : Object → List Mention
  | .uri _ value => ofUri value
  | _ => []

def name? : Mention → Option String
  | name n => some n
  | _ => none

/-- The problem that a mention gives after the mentions before it. -/
def problem? (table : PrefixTable) (before : List Mention) : Mention → Option Problem
  | untyped s => some (.untyped s)
  | label l => if l ∉ table.names ∧ .label l ∉ before then some (.undefinedPrefix l) else none
  | name _ => none

def message? (table : PrefixTable) (before : List Mention) : Mention → Option String
  | untyped s => some ("Subject (" ++ s ++ ") has no rdf:type.")
  | label l =>
    if l ∉ table.names ∧ .label l ∉ before then
      some ("Prefix (" ++ l ++ ") used but not defined in prefix.yaml file.")
    else none
  | name _ => none

theorem map_problem? (table : PrefixTable) (before : List Mention) (mention : Mention) :
    (mention.problem? table before).map Problem.message = mention.message? table before := by
  cases mention with
  | untyped s => rfl
  | name n => rfl
  | label l =>
    simp only [problem?, message?]
    split_ifs <;> rfl

end Mention

mutual

/-- What is met in a subject: on entering it, in its value, and in its predicates. -/
def subjectMentions : Subject → List Mention
  | s@⟨name, value, isBlank, ps⟩ =>
    (if isBlank = false ∧ s.types = [] then [.untyped name] else [])
      ++ value.toList.flatMap Mention.ofUri ++ predicateMentions ps

def predicateMentions : List Predicate → List Mention
  | [] => []
  | p@⟨uri, _, os⟩ :: rest =>
    Mention.ofUri uri
      ++ (if p.isType then os.flatMap fun o => Mention.ofUri o.name else objectMentions os)
      ++ predicateMentions rest

def objectMentions : List Object → List Mention
  | [] => []
  | o :: rest => mentionsOf o ++ objectMentions rest

/-- What is met in an object that is no class. A blank node is a subject of its own. -/
def mentionsOf : Object → List Mention
  | .blank s => subjectMentions s
  | .reference _ _ => []
  | .uri name value => .name name :: Mention.ofUri value
  | .choice name members => .name name :: members.flatMap Mention.ofMember
  | .var name => [.name name]
  | .literal name _ _ _ => [.name name]

end

/-- What a review of root subjects meets, in the order of their declaration. -/
def mentions (subjects : List Subject) : List Mention :=
  subjects.flatMap subjectMentions

namespace Review

variable {table : PrefixTable}

def meet (table : PrefixTable) (r : Review) : Mention → Review
  | .untyped s => { r with problems := r.problems ++ [.untyped s] }
  | .label l =>
    if table.contains l || r.reported.contains l then r
    else { r with
      problems := r.problems ++ [.undefinedPrefix l]
      reported := r.reported ++ [l] }
  | .name n => r.useVariable n

theorem useUri_eq (uri : String) (r : Review) :
    r.useUri table uri = (Mention.ofUri uri).foldl (meet table) r := by
  unfold useUri Mention.ofUri
  cases Uri.prefixOf? uri <;> rfl

theorem useValue_eq (value : Option String) (r : Review) :
    r.useValue table value = (value.toList.flatMap Mention.ofUri).foldl (meet table) r := by
  cases value with
  | none => rfl
  | some uri => simp [useValue, useUri_eq]

theorem enter_eq (s : Subject) (r : Review) :
    r.enter s = (if s.isBlank = false ∧ s.types = [] then [Mention.untyped s.name] else []).foldl
      (meet table) r := by
  unfold enter
  cases hb : s.isBlank <;> cases ht : s.types <;> simp [meet]

theorem members_eq (os : List Object) (r : Review) :
    members table os r = (os.flatMap Mention.ofMember).foldl (meet table) r := by
  induction os generalizing r with
  | nil => rfl
  | cons o rest ih =>
    cases o with
    | uri name value => simp [members, ih, Mention.ofMember, useUri_eq]
    | _ => simp [members, ih, Mention.ofMember]

theorem classes_eq (os : List Object) (r : Review) :
    r.classes table os =
      (os.flatMap fun o => Mention.ofUri o.name).foldl (meet table) r := by
  rw [classes, List.foldl_flatMap]
  simp only [useUri_eq]

mutual

/-- A review of a subject does what its mentions ask for, one after the other. -/
theorem subject_eq (s : Subject) (r : Review) :
    subject table s r = (subjectMentions s).foldl (meet table) r := by
  match s with
  | ⟨name, value, isBlank, ps⟩ =>
    rw [subject, subjectMentions, List.foldl_append, List.foldl_append, predicates_eq ps,
      useValue_eq, enter_eq]

theorem predicates_eq (ps : List Predicate) (r : Review) :
    predicates table ps r = (predicateMentions ps).foldl (meet table) r := by
  match ps with
  | [] => rw [predicates, predicateMentions, List.foldl_nil]
  | ⟨uri, cardinality, os⟩ :: rest =>
    rw [predicates, predicateMentions, List.foldl_append, List.foldl_append, predicates_eq rest]
    split_ifs
    · rw [classes_eq, useUri_eq]
    · rw [objects_eq os, useUri_eq]

theorem objects_eq (os : List Object) (r : Review) :
    objects table os r = (objectMentions os).foldl (meet table) r := by
  match os with
  | [] => rw [objects, objectMentions, List.foldl_nil]
  | o :: rest => rw [objects, objectMentions, List.foldl_append, objects_eq rest, object_eq o]

theorem object_eq (o : Object) (r : Review) :
    object table o r = (mentionsOf o).foldl (meet table) r := by
  match o with
  | .blank s => rw [object, mentionsOf, subject_eq s]
  | .reference name subject => rw [object, mentionsOf, List.foldl_nil]
  | .uri name value => rw [object, mentionsOf, List.foldl_cons, useUri_eq, meet]
  | .choice name ms => rw [object, mentionsOf, List.foldl_cons, members_eq, meet]
  | .var name => rw [object, mentionsOf, List.foldl_cons, List.foldl_nil, meet]
  | .literal name value lang datatype =>
    rw [object, mentionsOf, List.foldl_cons, List.foldl_nil, meet]

end

theorem roots_eq (subjects : List Subject) (r : Review) :
    subjects.foldl (fun r s => r.subject table s) r =
      (mentions subjects).foldl (meet table) r := by
  rw [mentions, List.foldl_flatMap]
  simp only [subject_eq]

/-- What a review has found after some mentions. A label is among the reported ones exactly if it
was met and has no namespace. -/
structure Found (table : PrefixTable) (ms : List Mention) (r : Review) : Prop where
  problems : r.problems = reading (Mention.problem? table) ms
  reported : ∀ l, l ∈ r.reported ↔ .label l ∈ ms ∧ l ∉ table.names
  variableNames : r.variableNames = ms.filterMap Mention.name?

theorem contains_eq_true_iff {l : String} : table.contains l = true ↔ l ∈ table.names := by
  simp [Table.contains, Table.names]

theorem Found.meet_known {ms : List Mention} {r : Review} {l : String} (h : Found table ms r)
    (hl : l ∈ table.names ∨ l ∈ r.reported) : Found table (ms ++ [.label l]) r := by
  have hold := h.reported l
  have hnone : Mention.problem? table ms (.label l) = none := if_neg (by tauto)
  refine ⟨?_, fun l' => ?_, ?_⟩
  · rw [reading_append_singleton, hnone, h.problems]
    simp
  · rw [h.reported, List.mem_append, List.mem_singleton, Mention.label.injEq]
    constructor
    · tauto
    · rintro ⟨hmem | rfl, hnot⟩
      · exact ⟨hmem, hnot⟩
      · tauto
  · simp [h.variableNames, Mention.name?]

theorem Found.meet_new {ms : List Mention} {r : Review} {l : String} (h : Found table ms r)
    (hl : l ∉ table.names) (hr : l ∉ r.reported) :
    Found table (ms ++ [.label l]) { r with
      problems := r.problems ++ [.undefinedPrefix l], reported := r.reported ++ [l] } := by
  have hnew : Mention.label l ∉ ms := fun hmem => hr ((h.reported l).mpr ⟨hmem, hl⟩)
  have hsome : Mention.problem? table ms (.label l) = some (.undefinedPrefix l) :=
    if_pos ⟨hl, hnew⟩
  refine ⟨?_, fun l' => ?_, ?_⟩
  · rw [reading_append_singleton, hsome, h.problems]
    rfl
  · simp only [List.mem_append, List.mem_singleton, Mention.label.injEq, h.reported]
    constructor
    · rintro (⟨hmem, hnot⟩ | rfl)
      · exact ⟨Or.inl hmem, hnot⟩
      · exact ⟨Or.inr rfl, hl⟩
    · tauto
  · simp [h.variableNames, Mention.name?]

theorem Found.meet {ms : List Mention} {r : Review} (h : Found table ms r) (mention : Mention) :
    Found table (ms ++ [mention]) (r.meet table mention) := by
  cases mention with
  | untyped s =>
    refine ⟨?_, ?_, ?_⟩
    · rw [reading_append_singleton, ← h.problems]
      rfl
    · simpa [Review.meet] using h.reported
    · simp [Review.meet, Mention.name?, h.variableNames]
  | name n =>
    refine ⟨?_, ?_, ?_⟩
    · rw [reading_append_singleton, ← h.problems]
      simp [Review.meet, useVariable, Mention.problem?]
    · simpa [Review.meet, useVariable] using h.reported
    · simp [Review.meet, useVariable, Mention.name?, h.variableNames]
  | label l =>
    simp only [Review.meet]
    split_ifs with hl
    · apply h.meet_known
      simpa [contains_eq_true_iff] using hl
    · simp only [Bool.or_eq_true, contains_eq_true_iff, List.contains_iff_mem, not_or] at hl
      exact h.meet_new hl.1 hl.2

theorem found (table : PrefixTable) (ms : List Mention) :
    Found table ms (ms.foldl (Review.meet table) empty) := by
  induction ms using List.reverseRecOn with
  | nil => exact ⟨rfl, by simp [empty], rfl⟩
  | append_singleton ms mention ih =>
    rw [List.foldl_append]
    exact ih.meet mention

end Review

/-- The names that are met more than once, where each is met first. -/
def metAgain (names : List String) : List String :=
  reading (fun before n => if n ∉ before ∧ 1 < names.count n then some n else none) names

theorem repeated_eq (names : List String) : repeated names = metAgain names := by
  have h := reading_filter_eq (fun n => decide (1 < names.count n)) names
  simp only [decide_eq_true_eq] at h
  exact h.symm

/-- The problems of a walk: those of its mentions, then the repeated subject names, then the
repeated variable names. -/
def expectedProblems (subjects : List Subject) (table : PrefixTable) : List Problem :=
  reading (Mention.problem? table) (mentions subjects)
    ++ (metAgain (subjects.map (·.name))).map .duplicateSubject
    ++ (metAgain ((mentions subjects).filterMap Mention.name?)).map .duplicateVariable

def expectedMessages (subjects : List Subject) (table : PrefixTable) : List String :=
  reading (Mention.message? table) (mentions subjects)
    ++ (metAgain (subjects.map (·.name))).map (fun n =>
      "Duplicate subject name (" ++ n ++ ") in model.yaml file.")
    ++ (metAgain ((mentions subjects).filterMap Mention.name?)).map (fun n =>
      "Duplicate variable (" ++ n ++ ") in model.yaml file.")

theorem map_expectedProblems (subjects : List Subject) (table : PrefixTable) :
    (expectedProblems subjects table).map Problem.message = expectedMessages subjects table := by
  rw [expectedProblems, List.map_append, List.map_append, map_reading, List.map_map, List.map_map]
  simp only [Mention.map_problem?]
  rfl

theorem problems_eq (subjects : List Subject) (table : PrefixTable) :
    problems subjects table = expectedProblems subjects table := by
  have h := Review.found table (mentions subjects)
  unfold problems
  dsimp only
  rw [Review.roots_eq, h.problems, h.variableNames, repeated_eq, repeated_eq]
  rfl

theorem undefinedPrefix_mem_reading {table : PrefixTable} {ms : List Mention} {l : String}
    (hm : .label l ∈ ms) (hl : l ∉ table.names) :
    .undefinedPrefix l ∈ reading (Mention.problem? table) ms := by
  induction ms using List.reverseRecOn with
  | nil => simp at hm
  | append_singleton ms mention ih =>
    rw [reading_append_singleton, List.mem_append]
    by_cases hold : .label l ∈ ms
    · exact Or.inl (ih hold)
    · obtain rfl : .label l = mention := by simpa [hold] using hm
      right
      simp [Mention.problem?, hl, hold]

theorem Model.label_mem_names (m : Model) {l : String} (h : .label l ∈ mentions m.subjects) :
    l ∈ m.prefixes.names := by
  by_contra hl
  have hmem := undefinedPrefix_mem_reading h hl
  have hnil := m.accepted
  rw [problems_eq, expectedProblems, List.append_eq_nil_iff, List.append_eq_nil_iff] at hnil
  rw [hnil.1.1] at hmem
  simp at hmem

theorem Model.build_eq_ok_iff {subjects : List Subject} {table : PrefixTable} {m : Model} :
    Model.build subjects table = .ok m ↔
    problems subjects table = [] ∧ m.subjects = subjects ∧ m.prefixes = table := by
  unfold Model.build
  split_ifs with h
  · rw [Except.ok.injEq]
    constructor
    · rintro rfl
      exact ⟨h, rfl, rfl⟩
    · rintro ⟨-, rfl, rfl⟩
      rfl
  · simp [h]

/-- The outcome of a review. It finds exactly the problems of the walk, with their messages. A graph
without problems becomes a model; otherwise the problems are returned. -/
theorem Model.build_reports (subjects : List Subject) (table : PrefixTable) :
    problems subjects table = expectedProblems subjects table ∧
      (problems subjects table).map Problem.message = expectedMessages subjects table ∧
      (∀ ps, Model.build subjects table = .error ps ↔
        ps = expectedProblems subjects table ∧ ps ≠ []) ∧
      (∀ m, Model.build subjects table = .ok m ↔
        expectedProblems subjects table = [] ∧ m.subjects = subjects ∧ m.prefixes = table) := by
  have heq := problems_eq subjects table
  refine ⟨heq, heq ▸ map_expectedProblems subjects table, fun ps => ?_, fun m => ?_⟩
  · unfold Model.build
    split_ifs with h
    · simp [← heq, h]
    · rw [Except.error.injEq, ← heq]
      constructor
      · rintro rfl
        exact ⟨rfl, h⟩
      · rintro ⟨rfl, -⟩
        rfl
  · rw [← heq]
    exact Model.build_eq_ok_iff

/-- A subject without a class, two labels without a namespace, and names that are used twice. -/
example :
    (problems [
      ⟨"Entry", some "up:P1", false, [⟨"ex:name", none, [.var "x", .uri "x" "ex:y"]⟩]⟩,
      ⟨"Entry", none, false, [⟨"a", none, [.uri "up:C" "up:C"]⟩]⟩] []).map (·.message) =
      ["Subject (Entry) has no rdf:type.", "Prefix (up) used but not defined in prefix.yaml file.",
        "Prefix (ex) used but not defined in prefix.yaml file.",
        "Duplicate subject name (Entry) in model.yaml file.",
        "Duplicate variable (x) in model.yaml file."] := by
  decide +kernel

end SparqlModel
