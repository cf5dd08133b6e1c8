import SparqlModel.Proofs.LiteralForms
import SparqlModel.Proofs.PredicateKeys
import SparqlModel.Proofs.Registration

/-!
# Data for a graph

Every graph that is well formed has data from which it is built: a mapping of its own for each root,
with the bounds of a cardinality between braces behind the URI of the predicate, and with quotes
around literals. The conditions say which names, keys and values can be told apart again.
-/

namespace SparqlModel.Graph

mutual

def exampleValue : Object → Value
  | .var _ => .null
  | .literal _ value lang datatype => Literal.write value lang datatype
  | .uri _ value => .text value
  | .reference _ subject => .text subject
  | .choice _ members => .list (exampleValues members)
  | .blank _ => .null

def exampleValues : List Object → List Value
  | [] => []
  | o :: rest => exampleValue o :: exampleValues rest

end

def encodeKey (uri : String) (cardinality : Option Cardinality) : String :=
  uri ++ (cardinality.map Cardinality.suffix).getD ""

mutual

/-- A pair of the name and the example value, or a blank node with its property list. -/
def encodeObject : Object → Value
  | .blank ⟨_, _, _, ps⟩ => .map [(.text blankName, .list (encodePredicates ps))]
  | o => .map [(.text o.name, exampleValue o)]

def encodeObjects : List Object → List Value
  | [] => []
  | o :: rest => encodeObject o :: encodeObjects rest

def encodePredicates : List Predicate → List Value
  | [] => []
  | ⟨uri, c, os⟩ :: rest =>
    .map [(.text (encodeKey uri c), .list
      (if isTypeUri uri then os.map fun o => .text o.name else encodeObjects os))]
      :: encodePredicates rest

end

def encodeSubject (s : Subject) : Value :=
  .map [(.text (s.name ++ (s.value.map (" " ++ ·)).getD ""), .list (encodePredicates s.predicates))]

def encode (subjects : List Subject) : List Value :=
  subjects.map encodeSubject

mutual

/-- An object other than a blank node that has a given name and whose kind shows in its example
value. -/
def isNamed (roots : List String) (name : String) : Object → Bool
  | .var n => n == name
  | .literal n value lang datatype => n == name && Literal.isWritable value lang datatype
  | .uri n value =>
    n == name && Text.strip value == value && Uri.isUri value && !roots.contains value
  | .reference n subject => n == name && roots.contains subject
  | .choice n members => n == name && areNamed roots name members
  | .blank _ => false

def areNamed (roots : List String) (name : String) : List Object → Bool
  | [] => true
  | o :: rest => isNamed roots name o && areNamed roots name rest

end

/-- A URI that is not taken for one with a suffix, or a suffix whose bounds can be read. -/
def isPredicateKey (uri : String) : Option Cardinality → Bool
  | none => Cardinality.splitKey? uri == some (uri, none)
  | some c => Cardinality.isReadable c.min && Cardinality.isReadable c.max

def isClass : Object → Bool
  | .uri name value => name == value
  | _ => false

mutual

def isWellFormed (roots : List String) : Object → Bool
  | .blank ⟨name, value, isBlank, ps⟩ =>
    name == blankName && value == none && isBlank && arePredicates roots ps
  | o => o.name != blankName && isNamed roots o.name o

def areWellFormed (roots : List String) : List Object → Bool
  | [] => true
  | o :: rest => isWellFormed roots o && areWellFormed roots rest

def arePredicates (roots : List String) : List Predicate → Bool
  | [] => true
  | ⟨uri, c, os⟩ :: rest =>
    uri != "" && Text.strip uri == uri && isPredicateKey uri c
      && (if isTypeUri uri then os.all isClass else areWellFormed roots os)
      && arePredicates roots rest

end

/-- A root has a name of one word without quotes, and a value of one word. -/
@[mk_iff]
structure IsRoot (roots : List String) (s : Subject) : Prop where
  name_ne : s.name ≠ ""
  name_chars : s.name.toList.all (fun c => !Text.isBlank c && c != '\x22') = true
  value_ne : s.value ≠ some ""
  value_chars : s.value.all (fun v => v.toList.all (!Text.isBlank ·)) = true
  not_blank : s.isBlank = false
  predicates : arePredicates roots s.predicates = true

instance (roots : List String) (s : Subject) : Decidable (IsRoot roots s) :=
  decidable_of_iff' _ (isRoot_iff roots s)

def IsExpressible (subjects : List Subject) : Prop :=
  ∀ s ∈ subjects, IsRoot (subjects.map (·.name)) s

instance (subjects : List Subject) : Decidable (IsExpressible subjects) :=
  inferInstanceAs (Decidable (∀ s ∈ subjects, IsRoot (subjects.map (·.name)) s))

variable {roots : List String}

theorem isUri_quoted {s : String} {cs : List Char} (h : (Text.strip s).toList = '\x22' :: cs) :
    Uri.isUri s = false := by
  have hbracket : Uri.isBracketed (Text.strip s) = false := by
    rw [Uri.isBracketed, h]
    rfl
  have hcompact : Uri.isCompact (Text.strip s) = false := by
    rw [Uri.isCompact, h]
    split
    · rw [List.takeWhile_cons_of_pos (by decide)]
      rfl
    · rfl
  rw [Uri.isUri, hbracket, hcompact, Bool.false_or]

/-- No name has blanks or quotes. -/
def ArePlain (roots : List String) : Prop :=
  ∀ n ∈ roots, ∀ c ∈ n.toList, Text.isBlank c = false ∧ c ≠ '\x22'

/-- A literal that was written is a literal again: it is neither the name of a root nor a URI. -/
theorem classify_write (hroots : ArePlain roots) (name : String) {value : Value}
    {lang datatype : Option String} (h : Literal.isWritable value lang datatype = true) :
    classify roots name (Literal.write value lang datatype) =
      .literal name value lang datatype := by
  unfold Literal.write
  split
  · rename_i s
    have hstrip := Literal.strip_quoted h
    have hread := Literal.read_quoted h
    dsimp only at hstrip hread
    have hnot : ¬roots.contains (Text.strip
        (String.ofList ('\x22' :: (s.toList ++ '\x22' :: Literal.tail lang datatype)))) = true := by
      rw [hstrip, List.contains_iff_mem]
      exact fun hmem => (hroots _ hmem '\x22' (by simp)).2 rfl
    have huri : Uri.isUri
        (String.ofList ('\x22' :: (s.toList ++ '\x22' :: Literal.tail lang datatype))) = false :=
      isUri_quoted (by rw [hstrip, String.toList_ofList])
    rw [Value.text, classify, if_neg hnot, huri, Value.text, hread]
    rfl
  · rename_i hne
    obtain ⟨rfl, rfl, hnull, hlist⟩ := Literal.isWritable_of_not_text hne h
    unfold classify
    split
    · cases hnull
    · cases hlist
    · exact absurd rfl (hne _)
    · rfl

mutual

theorem classify_exampleValue (hroots : ArePlain roots) (name : String) (o : Object)
    (h : isNamed roots name o = true) : classify roots name (exampleValue o) = o := by
  match o with
  | .var n =>
    obtain rfl : n = name := by simpa [isNamed] using h
    rfl
  | .literal n value lang datatype =>
    simp only [isNamed, Bool.and_eq_true, beq_iff_eq] at h
    obtain ⟨rfl, hwrite⟩ := h
    rw [exampleValue, classify_write hroots n hwrite]
  | .uri n value =>
    simp only [isNamed, Bool.and_eq_true, beq_iff_eq, Bool.not_eq_true'] at h
    obtain ⟨⟨⟨rfl, hstrip⟩, huri⟩, hroot⟩ := h
    rw [exampleValue, Value.text, classify, hstrip, if_neg (by rw [hroot]; decide), if_pos huri]
  | .reference n subject =>
    simp only [isNamed, Bool.and_eq_true, beq_iff_eq] at h
    obtain ⟨rfl, hroot⟩ := h
    have hstrip : Text.strip subject = subject := Text.strip_of_no_blanks fun c hc =>
      (hroots subject (List.contains_iff_mem.mp hroot) c hc).1
    rw [exampleValue, Value.text, classify, hstrip, if_pos hroot]
  | .choice n members =>
    simp only [isNamed, Bool.and_eq_true, beq_iff_eq] at h
    obtain ⟨rfl, hmembers⟩ := h
    rw [exampleValue, classify, classifyItems_exampleValues hroots n members hmembers]
  | .blank s => cases h

theorem classifyItems_exampleValues (hroots : ArePlain roots) (name : String) (os : List Object)
    (h : areNamed roots name os = true) : classifyItems roots name (exampleValues os) = os := by
  match os with
  | [] => rfl
  | o :: rest =>
    simp only [areNamed, Bool.and_eq_true] at h
    rw [exampleValues, classifyItems, classify_exampleValue hroots name o h.1,
      classifyItems_exampleValues hroots name rest h.2]

end

theorem splitKey?_encodeKey {uri : String} {c : Option Cardinality} (hne : uri ≠ "")
    (hstrip : Text.strip uri = uri) (h : isPredicateKey uri c = true) :
    Cardinality.splitKey? (encodeKey uri c) = some (uri, c) := by
  cases c with
  | none => simpa [encodeKey, isPredicateKey] using h
  | some c =>
    simp only [isPredicateKey, Bool.and_eq_true] at h
    exact Cardinality.splitKey?_suffix hne hstrip h.1 h.2

theorem typeObjects_classes {os : List Object} (h : os.all isClass = true) :
    typeObjects (os.map fun o => .text o.name) = .ok os := by
  induction os with
  | nil => rfl
  | cons o rest ih =>
    rw [List.all_cons, Bool.and_eq_true] at h
    obtain ⟨n, rfl⟩ : ∃ n, o = .uri n n := by
      cases o with
      | uri name value => exact ⟨name, by rw [beq_iff_eq.mp h.1]⟩
      | _ => cases h.1
    have hrest := ih h.2
    rw [typeObjects] at hrest ⊢
    rw [List.map_cons, List.filter_cons_of_pos rfl, List.mapM_cons, hrest]
    rfl

theorem isNull_encodeObject (o : Object) : (encodeObject o).isNull = false := by
  unfold encodeObject
  split <;> rfl

theorem buildObject_pair {name : String} (hname : name ≠ blankName) (v : Value) :
    buildObject roots (.map [(.text name, v)]) = .ok (classify roots name v) := by
  rw [buildObject, if_neg (by simpa using hname)]
  rfl

mutual

theorem buildObject_encodeObject (hroots : ArePlain roots) (o : Object)
    (h : isWellFormed roots o = true) : buildObject roots (encodeObject o) = .ok o := by
  match o with
  | .blank ⟨name, value, isBlank, ps⟩ =>
    simp only [isWellFormed, Bool.and_eq_true, beq_iff_eq] at h
    obtain ⟨⟨⟨rfl, rfl⟩, rfl⟩, hps⟩ := h
    rw [encodeObject, buildObject, if_pos (by simp), buildPredicates,
      buildItems_encodePredicates hroots ps hps]
    rfl
  | .var _ | .literal _ _ _ _ | .uri _ _ | .reference _ _ | .choice _ _ =>
    simp only [isWellFormed, Bool.and_eq_true, bne_iff_ne] at h
    rw [encodeObject, buildObject_pair h.1, classify_exampleValue hroots _ _ h.2]
    all_goals simp

theorem buildObjects_encodeObjects (hroots : ArePlain roots) (os : List Object)
    (h : areWellFormed roots os = true) : buildObjects roots (encodeObjects os) = .ok os := by
  match os with
  | [] => rfl
  | o :: rest =>
    simp only [areWellFormed, Bool.and_eq_true] at h
    rw [encodeObjects, buildObjects_cons, isNull_encodeObject, if_neg Bool.false_ne_true,
      buildObject_encodeObject hroots o h.1, buildObjects_encodeObjects hroots rest h.2]
    rfl

theorem buildItems_encodePredicates (hroots : ArePlain roots) (ps : List Predicate)
    (h : arePredicates roots ps = true) : buildItems roots (encodePredicates ps) = .ok ps := by
  match ps with
  | [] => rfl
  | ⟨uri, c, os⟩ :: rest =>
    simp only [arePredicates, Bool.and_eq_true, bne_iff_ne, beq_iff_eq] at h
    obtain ⟨⟨⟨⟨hne, hstrip⟩, hkey⟩, hos⟩, hrest⟩ := h
    have hentry : buildEntry roots (.text (encodeKey uri c), .list
        (if isTypeUri uri then os.map fun o => .text o.name else encodeObjects os)) =
        .ok ⟨uri, c, os⟩ := by
      rw [buildEntry, keyText_text, ok_bind, predicateOf, splitKey?_encodeKey hne hstrip hkey]
      dsimp only
      split_ifs at hos ⊢ with htype
      · rw [typeObjects_classes hos]
        rfl
      · rw [buildObjects_encodeObjects hroots os hos]
        rfl
    rw [encodePredicates, buildItems, buildEntries, hentry, buildEntries,
      buildItems_encodePredicates hroots rest hrest]
    rfl

end

theorem IsRoot.plain {s : Subject} (h : IsRoot roots s) :
    ∀ c ∈ s.name.toList, Text.isBlank c = false ∧ c ≠ '\x22' := by
  simpa using h.name_chars

theorem splitSubjectKey_encode {s : Subject} (h : IsRoot roots s) :
    splitSubjectKey (s.name ++ (s.value.map (" " ++ ·)).getD "") = .ok (s.name, s.value) := by
  have hname : ∀ c ∈ s.name.toList, Text.isBlank c = false := fun c hc => (h.plain c hc).1
  cases hvalue : s.value with
  | none =>
    have hwords := Text.words_of_no_blanks h.name_ne hname
    simp [splitSubjectKey, hwords]
  | some v =>
    have hne : v ≠ "" := fun he => h.value_ne (he ▸ hvalue)
    have hchars : ∀ c ∈ v.toList, Text.isBlank c = false := by
      simpa [hvalue] using h.value_chars
    have hwords := Text.words_space h.name_ne hname hne hchars
    simp [splitSubjectKey, ← String.append_assoc, hwords]

theorem registeredNames_encode {subjects : List Subject} (h : ∀ s ∈ subjects, IsRoot roots s) :
    registeredNames (encode subjects) = .ok (subjects.map (·.name)) := by
  induction subjects with
  | nil => rfl
  | cons s rest ih =>
    rw [List.forall_mem_cons] at h
    have hrest : registeredNames (rest.map encodeSubject) = .ok (rest.map (·.name)) := ih h.2
    rw [encode, List.map_cons, encodeSubject, registeredNames, keyText_text, ok_bind,
      splitSubjectKey_encode h.1, ok_bind, hrest]
    rfl

theorem buildAll_encode (hroots : ArePlain roots) {subjects : List Subject}
    (h : ∀ s ∈ subjects, IsRoot roots s) : buildAll roots (encode subjects) = .ok subjects := by
  induction subjects with
  | nil => rfl
  | cons s rest ih =>
    rw [List.forall_mem_cons] at h
    have hrest : buildAll roots (rest.map encodeSubject) = .ok rest := ih h.2
    have hsubject : buildSubjects roots [(.text (s.name ++ (s.value.map (" " ++ ·)).getD ""),
        .list (encodePredicates s.predicates))] = .ok [s] := by
      rw [buildSubjects, keyText_text, ok_bind, splitSubjectKey_encode h.1, ok_bind,
        buildPredicates, buildItems_encodePredicates hroots _ h.1.predicates, ← h.1.not_blank]
      cases s
      rfl
    rw [encode, List.map_cons, encodeSubject, buildAll, hsubject, ok_bind, hrest]
    rfl

/-- A graph that is well formed is built from its data. -/
theorem build_encode {subjects : List Subject} (h : IsExpressible subjects) :
    build (encode subjects) = .ok subjects := by
  have hroots : ArePlain (subjects.map (·.name)) := by
    intro n hn
    obtain ⟨s, hs, rfl⟩ := List.mem_map.mp hn
    exact (h s hs).plain
  rw [build, registeredNames_encode h, ok_bind, buildAll_encode hroots h]

/-- An entry with objects of all kinds: bounds, a blank node with lists of alternatives inside of each
other, and literals whose texts have quotes, tags and datatypes in them. -/
def richGraph : List Subject := [
  ⟨"Entry", some "ex:e1", false, [⟨"a", none, [.uri "ex:Entry" "ex:Entry"]⟩,
    ⟨"ex:gene", some ⟨some 1, none⟩, [.reference "gene" "Gene", .var "Gene"]⟩,
    ⟨"ex:seeAlso", some ⟨some 0, some 12⟩, [.uri "link" "<http://example.org/a b>"]⟩,
    ⟨"ex:has", none, [.blank (blankSubject [⟨"ex:value", none, [.choice "value" [.var "value",
      .literal "value" (.text "say \x22no\x22@en") (some "en-GB") none,
      .choice "value" [.literal "value" (.text "\x22^^x") none (some "xsd:string"),
        .literal "value" (.scalar (.int (-5))) none none]]]⟩])]⟩]⟩,
  ⟨"Gene", none, false, [⟨"ex:note", none, [.literal "note" (.text " ex:g1 \x22") none none]⟩]⟩]

theorem build_encode_richGraph :
    IsExpressible richGraph ∧ build (encode richGraph) = .ok richGraph := by
  have h : IsExpressible richGraph := by decide +kernel
  exact ⟨h, build_encode h⟩

theorem read_of_classify {registered : List String} {name n : String} {v value : Value}
    {lang datatype : Option String}
    (h : classify registered name v = .literal n value lang datatype) :
    Literal.read v = ⟨value, lang, datatype⟩ := by
  unfold classify at h
  split at h
  · cases h
  · cases h
  · rename_i s
    split_ifs at h
    obtain ⟨-, rfl, rfl, rfl⟩ := Object.literal.inj h
    change Literal.read (.text s) = _
    generalize Literal.read (.text s) = parts
    rfl
  · rename_i htext
    obtain ⟨-, rfl, rfl, rfl⟩ := Object.literal.inj h
    rw [Literal.read]
    exact htext

/-- No object that is made has an empty datatype. -/
theorem Entry.Makes.datatype_ne {registered : List String} {e : Entry} {n : String} {value : Value}
    {lang : Option String} : ¬e.Makes registered (.literal n value lang (some "")) := by
  intro h
  cases e with
  | blank => cases h
  | bare name =>
    rw [Entry.Makes] at h
    split_ifs at h
  | named name v =>
    exact Literal.datatype_read_ne v (by rw [read_of_classify h.symm])

def emptyDatatype : List Subject := [
  ⟨"Entry", none, false, [⟨"a", none, [.uri "ex:Entry" "ex:Entry"]⟩,
    ⟨"ex:score", none, [.literal "score" (.text "9") none (some "")]⟩]⟩]

/-- No data expresses a literal with an empty datatype. -/
theorem emptyDatatype_not_built : ¬∃ items, build items = .ok emptyDatatype := by
  rintro ⟨items, h⟩
  have hmakes := makes_buildAll (build_eq_ok h).2
  have hobjects : emptyDatatype.flatMap subjectObjects =
      [.literal "score" (.text "9") none (some "")] := rfl
  rw [hobjects, List.forall₂_cons_right_iff] at hmakes
  obtain ⟨e, _, he, -⟩ := hmakes
  exact he.datatype_ne

end SparqlModel.Graph
