import Mathlib.Data.List.Forall2
import Mathlib.Tactic
import SparqlModel.Graph.Builder

/-!
# Registered subjects

The subjects of a graph are read from the data twice. First the names are registered under which
references are recognised, and then the subjects are built. The first reading looks at one key of
each mapping and the second one at all of them. An entry becomes a reference exactly if it names a
registered subject.
-/

namespace SparqlModel.Graph

theorem ok_bind {ε α β : Type} (a : α) (f : α → Except ε β) : (.ok a >>= f) = f a :=
  rfl

theorem bind_eq_ok_iff {ε α β : Type} {x : Except ε α} {f : α → Except ε β} {b : β} :
    (x >>= f) = .ok b ↔ ∃ a, x = .ok a ∧ f a = .ok b := by
  cases x with
  | error e => simp [bind, Except.bind]
  | ok a => simp [bind, Except.bind]

theorem pure_eq_ok_iff {ε α : Type} {a b : α} : (pure a : Except ε α) = .ok b ↔ a = b := by
  simp [pure, Except.pure]

theorem map_eq_ok_iff {ε α β : Type} {x : Except ε α} {f : α → β} {b : β} :
    x.map f = .ok b ↔ ∃ a, x = .ok a ∧ f a = b := by
  cases x with
  | error e => simp [Except.map]
  | ok a => simp [Except.map]

theorem mapM_eq_ok_iff {ε α β : Type} {f : α → Except ε β} {xs : List α} {ys : List β} :
    xs.mapM f = .ok ys ↔ List.Forall₂ (fun x y => f x = .ok y) xs ys := by
  induction xs generalizing ys with
  | nil => rw [List.mapM_nil, pure_eq_ok_iff, List.forall₂_nil_left_iff, eq_comm]
  | cons x rest ih =>
    simp only [List.mapM_cons, bind_eq_ok_iff, pure_eq_ok_iff, ih, List.forall₂_cons_left_iff]
    constructor
    · rintro ⟨y, hy, others, hothers, rfl⟩
      exact ⟨y, others, hy, hothers, rfl⟩
    · rintro ⟨y, others, hy, hothers, rfl⟩
      exact ⟨y, hy, others, hothers, rfl⟩

def keyName (key : Scalar) : String :=
  (Text.words key.display).headD ""

def keysOf : Value → List Scalar
  | .map entries => entries.map (·.1)
  | _ => []

def firstNames (items : List Value) : List String :=
  items.flatMap fun v => ((keysOf v).take 1).map keyName

def laterNames (items : List Value) : List String :=
  items.flatMap fun v => ((keysOf v).drop 1).map keyName

theorem mem_keys_iff {items : List Value} {n : String} :
    n ∈ items.flatMap (fun v => (keysOf v).map keyName) ↔
      n ∈ firstNames items ∨ n ∈ laterNames items := by
  have hsplit : ∀ v, (keysOf v).map keyName =
      ((keysOf v).take 1).map keyName ++ ((keysOf v).drop 1).map keyName := fun v => by
    rw [← List.map_append, List.take_append_drop]
  simp only [firstNames, laterNames, List.mem_flatMap, hsplit, List.mem_append, and_or_left,
    exists_or]

theorem textOf_eq_ok {v : Value} {s : String} (h : textOf v = .ok s) : s = v.display := by
  unfold textOf Value.display? at h
  split_ifs at h
  exact (Except.ok.inj h).symm

theorem keyText_eq_ok {key : Scalar} {s : String} (h : keyText key = .ok s) : s = key.display :=
  textOf_eq_ok h

theorem keyText_text (s : String) : keyText (.text s) = .ok s :=
  rfl

theorem splitSubjectKey_eq_ok {key : Scalar} {s : String} {r : String × Option String}
    (hs : keyText key = .ok s) (h : splitSubjectKey s = .ok r) : r.1 = keyName key := by
  rw [keyName, ← keyText_eq_ok hs]
  unfold splitSubjectKey at h
  split at h
  · cases h
  · rename_i hwords
    rw [hwords, ← Except.ok.inj h]
    rfl

theorem registeredNames_eq_ok {items : List Value} {registered : List String}
    (h : registeredNames items = .ok registered) : registered = firstNames items := by
  fun_induction registeredNames items generalizing registered with
  | case1 => exact (Except.ok.inj h).symm
  | case2 key value entries rest ih =>
    simp only [bind_eq_ok_iff, pure_eq_ok_iff] at h
    obtain ⟨s, hs, r, hr, names, hnames, rfl⟩ := h
    rw [ih hnames, splitSubjectKey_eq_ok hs hr]
    rfl
  | case3 v rest hv ih =>
    rw [ih h, firstNames, firstNames, List.flatMap_cons]
    cases v with
    | map entries =>
      cases entries with
      | nil => rfl
      | cons e entries => exact absurd rfl (hv e.1 e.2 entries)
    | _ => rfl

theorem names_buildSubjects {registered : List String} {entries : List (Scalar × Value)}
    {subjects : List Subject} (h : buildSubjects registered entries = .ok subjects) :
    subjects.map (·.name) = entries.map fun e => keyName e.1 := by
  induction entries generalizing subjects with
  | nil => rw [← Except.ok.inj h]; rfl
  | cons e rest ih =>
    rw [buildSubjects] at h
    simp only [bind_eq_ok_iff, pure_eq_ok_iff] at h
    obtain ⟨s, hs, r, hr, ps, -, others, hothers, rfl⟩ := h
    rw [List.map_cons, List.map_cons, ih hothers, splitSubjectKey_eq_ok hs hr]

theorem names_buildAll {registered : List String} {items : List Value} {subjects : List Subject}
    (h : buildAll registered items = .ok subjects) :
    subjects.map (·.name) = items.flatMap fun v => (keysOf v).map keyName := by
  fun_induction buildAll registered items generalizing subjects with
  | case1 => rw [← Except.ok.inj h]; rfl
  | case2 entries rest ih =>
    simp only [bind_eq_ok_iff, pure_eq_ok_iff] at h
    obtain ⟨these, hthese, others, hothers, rfl⟩ := h
    rw [List.map_append, names_buildSubjects hthese, ih hothers, List.flatMap_cons, keysOf,
      List.map_map]
    rfl
  | case3 v rest hv ih =>
    rw [ih h, List.flatMap_cons]
    cases v with
    | map entries => exact absurd rfl (hv entries)
    | _ => rfl

/-- A place in the data that makes an object. -/
inductive Entry
  | blank
  /-- A value that stands alone, by its text. -/
  | bare (name : String)
  /-- A name with an example value. The items of a list have the name of the list. -/
  | named (name : String) (value : Value)

namespace Entry

/-- What the registered names make of an entry. -/
def Makes (registered : List String) : Entry → Object → Prop
  | blank, o => o.isBlankNode = true
  | bare name, o => o = if registered.contains name then .reference name name else .var name
  | named name value, o => o = classify registered name value

def name : Entry → String
  | blank => blankName
  | bare name => name
  | named name _ => name

def text? : Entry → Option String
  | bare name => some name
  | named _ (.scalar (.text s)) => some (Text.strip s)
  | _ => none

/-- An entry that names a subject becomes a reference to it exactly if the subject is registered. -/
theorem Makes.reference_iff {registered : List String} {e : Entry} {o : Object}
    (h : e.Makes registered o) {n : String} (hn : e.text? = some n) :
    o = .reference e.name n ↔ n ∈ registered := by
  cases e with
  | blank => cases hn
  | bare name =>
    obtain rfl : name = n := Option.some.inj hn
    obtain rfl := h
    simp [Entry.name]
  | named name value =>
    unfold text? at hn
    split at hn
    · rename_i heq; cases heq
    · rename_i s heq
      cases heq
      obtain rfl := Option.some.inj hn
      obtain rfl := h
      rw [classify]
      split_ifs with hreg huri
      · simpa [Entry.name] using hreg
      · simpa using hreg
      · simpa using hreg
    · cases hn

end Entry

def isTypeKey (key : Scalar) : Bool :=
  ((Cardinality.splitKey? key.display).map fun r => isTypeUri r.1).getD false

mutual

/-- A named value, and before its items the list that holds them. -/
def namedEntries (name : String) : Value → List Entry
  | .list items => .named name (.list items) :: itemEntries name items
  | v => [.named name v]

def itemEntries (name : String) : List Value → List Entry
  | [] => []
  | v :: rest => namedEntries name v ++ itemEntries name rest

end

mutual

/-- The entries of an object, also inside of blank nodes. -/
def entriesOf : Value → List Entry
  | .map [(key, value)] =>
    if key == .text blankName then .blank :: propertyEntries value
    else namedEntries key.display value
  | v => [if isBlankNode v then .blank else .bare (Text.strip v.display)]

def objectEntries : List Value → List Entry
  | [] => []
  | v :: rest => (if v.isNull then [] else entriesOf v) ++ objectEntries rest

def propertyEntries : Value → List Entry
  | .list items => mappingEntries items
  | .map entries => predicateEntries entries
  | _ => []

def mappingEntries : List Value → List Entry
  | [] => []
  | .map entries :: rest => predicateEntries entries ++ mappingEntries rest
  | _ :: rest => mappingEntries rest

def predicateEntries : List (Scalar × Value) → List Entry
  | [] => []
  | e :: rest => pairEntries e ++ predicateEntries rest

/-- The entries under a predicate key, which are none if it states classes. -/
def pairEntries : Scalar × Value → List Entry
  | (key, .list items) => if isTypeKey key then [] else objectEntries items
  | (key, v) => if isTypeKey key then [] else if v.isNull then [] else entriesOf v

end

/-- All entries of the data that make objects, in its order. Class names are none. -/
def dataEntries : List Value → List Entry
  | [] => []
  | .map entries :: rest => entries.flatMap (fun e => propertyEntries e.2) ++ dataEntries rest
  | _ :: rest => dataEntries rest

mutual

/-- The objects of a subject that are no classes, each before those that it holds. -/
def subjectObjects : Subject → List Object
  | ⟨_, _, _, ps⟩ => predicateObjects ps

def predicateObjects : List Predicate → List Object
  | [] => []
  | p@⟨_, _, os⟩ :: rest => (if p.isType then [] else allObjects os) ++ predicateObjects rest

def allObjects : List Object → List Object
  | [] => []
  | o :: rest => objectsOf o ++ allObjects rest

def objectsOf : Object → List Object
  | .blank s => .blank s :: subjectObjects s
  | .choice name members => .choice name members :: allObjects members
  | o => [o]

end

variable {registered : List String}

theorem objectsOf_classify (name : String) {v : Value} (h : ∀ items, v ≠ .list items) :
    objectsOf (classify registered name v) = [classify registered name v] := by
  unfold classify
  split
  · rfl
  · exact absurd rfl (h _)
  · split_ifs <;> rfl
  · rfl

mutual

theorem makes_classify (name : String) (v : Value) :
    List.Forall₂ (Entry.Makes registered) (namedEntries name v)
      (objectsOf (classify registered name v)) := by
  match v with
  | .list items =>
    rw [namedEntries, classify, objectsOf]
    exact .cons (by rw [Entry.Makes, classify]) (makes_classifyItems name items)
  | .scalar s | .map entries | .set members | .pair first second | .knot n content | .again n =>
    rw [namedEntries, objectsOf_classify name (by simp)]
    · exact .cons rfl .nil
    · simp

theorem makes_classifyItems (name : String) (items : List Value) :
    List.Forall₂ (Entry.Makes registered) (itemEntries name items)
      (allObjects (classifyItems registered name items)) := by
  match items with
  | [] => exact .nil
  | v :: rest =>
    rw [itemEntries, classifyItems, allObjects]
    exact List.rel_append (makes_classify name v) (makes_classifyItems name rest)

end

theorem predicateObjects_append (ps qs : List Predicate) :
    predicateObjects (ps ++ qs) = predicateObjects ps ++ predicateObjects qs := by
  induction ps with
  | nil => simp [predicateObjects]
  | cons p ps ih =>
    obtain ⟨uri, c, os⟩ := p
    rw [List.cons_append, predicateObjects, predicateObjects, ih, List.append_assoc]

theorem buildObjects_cons (v : Value) (rest : List Value) :
    buildObjects registered (v :: rest) = if v.isNull then buildObjects registered rest else do
      let o ← buildObject registered v
      return o :: (← buildObjects registered rest) := by
  by_cases hnull : v = .scalar .null
  · subst hnull
    rw [buildObjects]
    rfl
  · have hfalse : v.isNull = false := by
      unfold Value.isNull
      split
      · exact absurd rfl hnull
      · rfl
    rw [buildObjects, hfalse, if_neg Bool.false_ne_true]
    exact hnull

theorem makes_predicateOf {key : Scalar} {s : String} {items : List Value}
    {objects : Except BuildError (List Object)} {p : Predicate} {entries : List Entry}
    (hs : keyText key = .ok s) (h : predicateOf s items objects = .ok p)
    (hobjects : ∀ os, objects = .ok os →
      List.Forall₂ (Entry.Makes registered) entries (allObjects os)) :
    List.Forall₂ (Entry.Makes registered) (if isTypeKey key then [] else entries)
      (predicateObjects [p]) := by
  obtain rfl := keyText_eq_ok hs
  unfold predicateOf at h
  split at h
  · cases h
  · rename_i uri c hkey
    have htype : isTypeKey key = isTypeUri uri := by rw [isTypeKey, hkey]; rfl
    rw [htype]
    split_ifs at h ⊢ with ht
    all_goals
      simp only [bind_eq_ok_iff, pure_eq_ok_iff] at h
      obtain ⟨os, hos, rfl⟩ := h
    · simp [predicateObjects, Predicate.isType, ht]
    · simpa [predicateObjects, Predicate.isType, ht] using hobjects os hos

theorem makes_namedObject {v : Value} {o : Object} (hv : isBlankNode v = false)
    (h : namedObject registered v = .ok o) :
    List.Forall₂ (Entry.Makes registered)
      [if isBlankNode v then .blank else .bare (Text.strip v.display)] (objectsOf o) := by
  simp only [namedObject, bind_eq_ok_iff, pure_eq_ok_iff] at h
  obtain ⟨s, hs, rfl⟩ := h
  obtain rfl := textOf_eq_ok hs
  have hobjects : ∀ o : Object, o = (if registered.contains (Text.strip v.display)
      then .reference (Text.strip v.display) (Text.strip v.display)
      else .var (Text.strip v.display)) → objectsOf o = [o] := by
    rintro o rfl
    split_ifs <;> rw [objectsOf] <;> simp
  rw [hobjects _ rfl, hv]
  exact .cons rfl .nil

-- the induction is that of the builder, with one case for each of its functions
mutual

theorem makes_buildObject (v : Value) {o : Object} (h : buildObject registered v = .ok o) :
    List.Forall₂ (Entry.Makes registered) (entriesOf v) (objectsOf o) := by
  match v with
  | .map [(key, value)] =>
    rw [buildObject] at h
    rw [entriesOf]
    split_ifs at h ⊢ with hkey
    · simp only [bind_eq_ok_iff, pure_eq_ok_iff] at h
      obtain ⟨ps, hps, rfl⟩ := h
      rw [blankSubject, objectsOf, subjectObjects]
      exact .cons rfl (makes_buildPredicates value hps)
    · simp only [bind_eq_ok_iff, pure_eq_ok_iff] at h
      obtain ⟨name, hname, rfl⟩ := h
      rw [keyText_eq_ok hname]
      exact makes_classify key.display value
  | .map [] | .map (_ :: _ :: _) =>
    rw [buildObject] at h
    · simp [bind_eq_ok_iff] at h
    · simp
  | .scalar s =>
    rw [buildObject] at h
    rw [entriesOf]
    · split_ifs at h with hs
      · obtain rfl := Except.ok.inj h
        rw [blankSubject, objectsOf, subjectObjects, predicateObjects, isBlankNode, hs]
        exact .cons rfl .nil
      · exact makes_namedObject (Bool.eq_false_iff.mpr hs) h
    · simp
  | .list items | .set members | .pair first second | .knot n content | .again n =>
    rw [buildObject] at h
    · rw [entriesOf]
      · exact makes_namedObject rfl h
      · simp
    all_goals simp

theorem makes_buildObjects (items : List Value) {os : List Object}
    (h : buildObjects registered items = .ok os) :
    List.Forall₂ (Entry.Makes registered) (objectEntries items) (allObjects os) := by
  match items with
  | [] =>
    obtain rfl : [] = os := by simpa [buildObjects] using h
    simp [objectEntries, allObjects]
  | v :: rest =>
    rw [objectEntries]
    rw [buildObjects_cons] at h
    split_ifs at h ⊢ with hnull
    · exact makes_buildObjects rest h
    · simp only [bind_eq_ok_iff, pure_eq_ok_iff] at h
      obtain ⟨o, ho, others, hothers, rfl⟩ := h
      rw [allObjects]
      exact List.rel_append (makes_buildObject v ho) (makes_buildObjects rest hothers)

theorem makes_buildPredicates (v : Value) {ps : List Predicate}
    (h : buildPredicates registered v = .ok ps) :
    List.Forall₂ (Entry.Makes registered) (propertyEntries v) (predicateObjects ps) := by
  match v with
  | .list items =>
    rw [buildPredicates] at h
    rw [propertyEntries]
    exact makes_buildItems items h
  | .map entries =>
    rw [buildPredicates] at h
    rw [propertyEntries]
    exact makes_buildEntries entries h
  | .scalar s | .set members | .pair first second | .knot n content | .again n =>
    obtain rfl : [] = ps := by simpa [buildPredicates] using h
    simp [propertyEntries, predicateObjects]

theorem makes_buildItems (items : List Value) {ps : List Predicate}
    (h : buildItems registered items = .ok ps) :
    List.Forall₂ (Entry.Makes registered) (mappingEntries items) (predicateObjects ps) := by
  match items with
  | [] =>
    obtain rfl : [] = ps := by simpa [buildItems] using h
    simp [mappingEntries, predicateObjects]
  | .map entries :: rest =>
    rw [buildItems] at h
    simp only [bind_eq_ok_iff, pure_eq_ok_iff] at h
    obtain ⟨these, hthese, others, hothers, rfl⟩ := h
    rw [mappingEntries, predicateObjects_append]
    exact List.rel_append (makes_buildEntries entries hthese) (makes_buildItems rest hothers)
  | .scalar _ :: rest | .list _ :: rest | .set _ :: rest | .pair _ _ :: rest
  | .knot _ _ :: rest | .again _ :: rest =>
    rw [buildItems] at h
    · rw [mappingEntries]
      · exact makes_buildItems rest h
      · simp
    · simp

theorem makes_buildEntries (entries : List (Scalar × Value)) {ps : List Predicate}
    (h : buildEntries registered entries = .ok ps) :
    List.Forall₂ (Entry.Makes registered) (predicateEntries entries) (predicateObjects ps) := by
  match entries with
  | [] =>
    obtain rfl : [] = ps := by simpa [buildEntries] using h
    simp [predicateEntries, predicateObjects]
  | e :: rest =>
    rw [buildEntries] at h
    simp only [bind_eq_ok_iff, pure_eq_ok_iff] at h
    obtain ⟨p, hp, others, hothers, rfl⟩ := h
    rw [predicateEntries, ← List.singleton_append, predicateObjects_append]
    exact List.rel_append (makes_buildEntry e hp) (makes_buildEntries rest hothers)

theorem makes_buildEntry (e : Scalar × Value) {p : Predicate}
    (h : buildEntry registered e = .ok p) :
    List.Forall₂ (Entry.Makes registered) (pairEntries e) (predicateObjects [p]) := by
  match e with
  | (key, .list items) =>
    rw [buildEntry, bind_eq_ok_iff] at h
    obtain ⟨s, hs, hp⟩ := h
    rw [pairEntries]
    exact makes_predicateOf hs hp fun os hos => makes_buildObjects items hos
  | (key, .scalar _) | (key, .map _) | (key, .set _) | (key, .pair _ _) | (key, .knot _ _)
  | (key, .again _) =>
    rw [buildEntry, bind_eq_ok_iff] at h
    · obtain ⟨s, hs, hp⟩ := h
      rw [pairEntries]
      · refine makes_predicateOf hs hp fun os hos => ?_
        split_ifs at hos ⊢
        · obtain rfl := Except.ok.inj hos
          exact .nil
        · obtain ⟨o, ho, rfl⟩ := map_eq_ok_iff.mp hos
          rw [allObjects, allObjects, List.append_nil]
          exact makes_buildObject _ ho
      · simp
    · simp

end

theorem makes_buildSubjects {entries : List (Scalar × Value)} {subjects : List Subject}
    (h : buildSubjects registered entries = .ok subjects) :
    List.Forall₂ (Entry.Makes registered) (entries.flatMap fun e => propertyEntries e.2)
      (subjects.flatMap subjectObjects) := by
  induction entries generalizing subjects with
  | nil =>
    obtain rfl := Except.ok.inj h
    exact .nil
  | cons e rest ih =>
    rw [buildSubjects] at h
    simp only [bind_eq_ok_iff, pure_eq_ok_iff] at h
    obtain ⟨s, -, r, -, ps, hps, others, hothers, rfl⟩ := h
    rw [List.flatMap_cons, List.flatMap_cons, subjectObjects]
    exact List.rel_append (makes_buildPredicates e.2 hps) (ih hothers)

/-- The entries of the data make the objects of the graph, one after the other. -/
theorem makes_buildAll {items : List Value} {subjects : List Subject}
    (h : buildAll registered items = .ok subjects) :
    List.Forall₂ (Entry.Makes registered) (dataEntries items)
      (subjects.flatMap subjectObjects) := by
  fun_induction buildAll registered items generalizing subjects with
  | case1 =>
    obtain rfl := Except.ok.inj h
    exact .nil
  | case2 entries rest ih =>
    simp only [bind_eq_ok_iff, pure_eq_ok_iff] at h
    obtain ⟨these, hthese, others, hothers, rfl⟩ := h
    rw [dataEntries, List.flatMap_append]
    exact List.rel_append (makes_buildSubjects hthese) (ih hothers)
  | case3 v rest hv ih =>
    rw [dataEntries]
    · exact ih h
    · exact hv

theorem build_eq_ok {items : List Value} {subjects : List Subject}
    (h : build items = .ok subjects) :
    registeredNames items = .ok (firstNames items) ∧
      buildAll (firstNames items) items = .ok subjects := by
  rw [build, bind_eq_ok_iff] at h
  obtain ⟨registered, hreg, hall⟩ := h
  obtain rfl := registeredNames_eq_ok hreg
  exact ⟨hreg, hall⟩

/-- The names under which references are recognised are those in the first key of each mapping, and
the subjects that are built are those of all keys. So the two coincide exactly if every name in a
later key is also in a first one. An entry that names a subject becomes a reference to it exactly
if the name is in a first key. -/
theorem build_registers {items : List Value} {subjects : List Subject}
    (h : build items = .ok subjects) :
    registeredNames items = .ok (firstNames items) ∧
    (∀ n, n ∈ subjects.map (·.name) ↔ n ∈ firstNames items ∨ n ∈ laterNames items) ∧
    ((∀ n, n ∈ firstNames items ↔ n ∈ subjects.map (·.name)) ↔
      laterNames items ⊆ firstNames items) ∧
    List.Forall₂ (fun e o => ∀ n, e.text? = some n →
        (o = .reference e.name n ↔ n ∈ firstNames items))
      (dataEntries items) (subjects.flatMap subjectObjects) := by
  obtain ⟨hreg, hall⟩ := build_eq_ok h
  have hnames : ∀ n, n ∈ subjects.map (·.name) ↔ n ∈ firstNames items ∨ n ∈ laterNames items :=
    fun n => by rw [names_buildAll hall, mem_keys_iff]
  refine ⟨hreg, hnames, ?_, ?_⟩
  · simp only [hnames, iff_self_or]
    rfl
  · have href : ∀ e o, Entry.Makes (firstNames items) e o → ∀ n, e.text? = some n →
        (o = .reference e.name n ↔ n ∈ firstNames items) := fun _ _ hmakes _ hn =>
      hmakes.reference_iff hn
    exact List.Forall₂.imp href (makes_buildAll hall)

/-- An entry with genes, which are named by their subject in a pair, alone, and in a list inside of a
blank node. -/
def geneEntry : List Value := [
  .map [(.text "Entry", .map [(.text "ex:gene", .list [
    .map [(.text "gene", .text " Gene")], .text "Gene",
    .map [(.text "[]", .map [(.text "ex:part",
      .map [(.text "part", .list [.text "Gene", .text "none"])])])]])])],
  .map [(.text "Gene ex:g1", .null)]]

theorem build_registers_geneEntry :
    ∃ subjects, build geneEntry = .ok subjects ∧
      firstNames geneEntry = ["Entry", "Gene"] ∧ laterNames geneEntry = [] ∧
      (dataEntries geneEntry).map (·.text?) =
        [some "Gene", some "Gene", none, none, some "Gene", some "none"] ∧
      ((∀ n, n ∈ firstNames geneEntry ↔ n ∈ subjects.map (·.name)) ↔
        laterNames geneEntry ⊆ firstNames geneEntry) ∧
      List.Forall₂ (fun e o => ∀ n, e.text? = some n →
          (o = .reference e.name n ↔ n ∈ firstNames geneEntry))
        (dataEntries geneEntry) (subjects.flatMap subjectObjects) := by
  have hok : (build geneEntry).isOk = true := by decide +kernel
  cases hbuild : build geneEntry with
  | error e => rw [hbuild] at hok; cases hok
  | ok subjects =>
    obtain ⟨-, -, hcoincide, hentries⟩ := build_registers hbuild
    exact ⟨subjects, rfl, by decide +kernel, by decide +kernel, by decide +kernel, hcoincide,
      hentries⟩

def oneMapping : List Value := [
  .map [
    (.text "Entry", .list [.map [(.text "a", .text "ex:Entry")],
      .map [(.text "ex:gene", .list [.map [(.text "gene", .text "Gene")]])]]),
    (.text "Gene", .list [.map [(.text "a", .text "ex:Gene")]])]]

/-- The gene is built but not registered, so that the entry has a literal in place of it. -/
theorem oneMapping_unregistered :
    registeredNames oneMapping = .ok ["Entry"] ∧
    build oneMapping = .ok [
      ⟨"Entry", none, false, [⟨"a", none, [.uri "ex:Entry" "ex:Entry"]⟩,
        ⟨"ex:gene", none, [.literal "gene" (.text "Gene") none none]⟩]⟩,
      ⟨"Gene", none, false, [⟨"a", none, [.uri "ex:Gene" "ex:Gene"]⟩]⟩] :=
  ⟨rfl, rfl⟩

end SparqlModel.Graph
