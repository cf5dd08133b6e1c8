import SparqlModel.Proofs.Layout
import SparqlModel.Proofs.Leaves
import SparqlModel.Proofs.NameStarts
import SparqlModel.Proofs.TextParts
import SparqlModel.Proofs.Trail

/-!
# Prefix declarations

The path of a pattern triple consists of predicate URIs of the model, and the classes that are
written are declared in the model. The review has found a namespace for the labels of both. A query
writes each of them at a place where a name may start, so that the search for used prefixes finds
them all.
-/

namespace SparqlModel

namespace Pattern

def IsStepUri (m : Model) (uri : String) : Prop :=
  ∃ t ∈ m.index.triples, uri ∈ t.uris

variable {m : Model} {names : List String} {e : Edge}

theorem links_predicate {node : Spot} {route pending : List String}
    {hops : List (Step × Option (List String))} (he : e ∈ links node route pending hops) :
    ∃ path, e.predicate = pathSeparator.intercalate path ∧
      path ⊆ pending ++ hops.map (·.1.predicate.uri) := by
  induction hops generalizing node route pending with
  | nil => simp [links] at he
  | cons hop rest ih =>
    obtain ⟨step, types⟩ := hop
    have huris : pending ++ ((step, types) :: rest).map (·.1.predicate.uri) =
        (pending ++ [step.predicate.uri]) ++ rest.map (·.1.predicate.uri) := by simp
    rw [huris]
    cases types with
    | none => exact ih he
    | some types =>
      rcases List.mem_cons.mp he with rfl | he
      · exact ⟨_, rfl, List.subset_append_left _ _⟩
      · obtain ⟨path, hpath, hsub⟩ := ih he
        exact ⟨path, hpath, List.Subset.trans hsub (List.subset_append_right _ _)⟩

theorem linksEnd_subset (node : Spot) (route pending : List String)
    (hops : List (Step × Option (List String))) :
    (linksEnd node route pending hops).2 ⊆ pending ++ hops.map (·.1.predicate.uri) := by
  induction hops generalizing node route pending with
  | nil => simp [linksEnd]
  | cons hop rest ih =>
    obtain ⟨step, types⟩ := hop
    rw [List.map_cons, List.append_cons]
    cases types with
    | none => exact ih node _ _
    | some types =>
      rw [linksEnd]
      exact List.Subset.trans (ih _ _ []) (List.subset_append_right _ _)

/-- The path of an edge consists of predicate URIs of the model. -/
theorem exists_path (he : e ∈ plan m.index names) :
    ∃ path, e.predicate = pathSeparator.intercalate path ∧ ∀ uri ∈ path, IsStepUri m uri := by
  obtain ⟨v, -, t, hs, he⟩ := mem_plan_iff.mp he
  have ht := Index.producer?_mem (source?_eq_some_iff.mp hs).1
  have hhops : ∀ uri ∈ (typedHops m.index t).map (·.1.predicate.uri), IsStepUri m uri := by
    intro uri huri
    rw [map_uri_typedHops] at huri
    exact ⟨t, ht, by rw [uris_eq]; exact List.mem_append_left _ huri⟩
  rcases he with he | rfl
  · obtain ⟨path, hpath, hsub⟩ := links_predicate (mem_linkEdges he).2
    exact ⟨path, hpath, fun uri huri => hhops uri (hsub huri)⟩
  · rw [leafEdge, leafStep]
    cases hr : rendering m.index names t with
    | compressed =>
      refine ⟨_, rfl, fun uri huri => ?_⟩
      rw [Index.propertyPath_eq] at huri
      obtain ⟨u, hu, huri⟩ := List.mem_flatMap.mp huri
      have hmem := Index.mem_of_mem_stopAt (List.mem_reverse.mp hu)
      exact ⟨u, Index.mem_triples_of_mem_trail hmem, huri⟩
    | wholeRoute => exact ⟨_, rfl, fun uri huri => ⟨t, ht, huri⟩⟩
    | expanded =>
      refine ⟨_, rfl, fun uri huri => ?_⟩
      rcases List.mem_append.mp huri with huri | huri
      · exact hhops uri (linksEnd_subset _ _ _ _ huri)
      · exact ⟨t, ht, by rw [uris_eq]; exact List.mem_append_right _ huri⟩

end Pattern

namespace Query

open Pattern (IsStepUri IsClass pathSeparator)

/-- What a block shows of the names of the model: the steps of the path of a triple that states no
class, a class that stands alone in a class statement, and the classes to which a class variable is
bound. -/
inductive Shows (m : Model) (options : Pattern.Options) (d : Pattern.Draft) : String → Prop
  | step {u : Pattern.Triple} {uri : String} (before after : List String)
      (hu : u ∈ d.required ++ d.optional) (ht : u.isType = false) (huri : IsStepUri m uri)
      (hpath : u.predicate = pathSeparator.intercalate (before ++ uri :: after)) :
      Shows m options d uri
  | oneClass {u : Pattern.Triple} {c : String} (hu : u ∈ d.required ++ d.optional)
      (ht : u.isType = true) (hc : d.typesOf u.object = [c]) : Shows m options d c
  | boundClass {n : Pattern.Node} {c : String} (he : options.emitValues = true)
      (hn : n ∈ d.subjects) (hlen : 1 < (d.typesOf n).length) (hc : c ∈ d.typesOf n) :
      Shows m options d c

/-- The bare IRI of a namespace: blanks are taken off its ends, and then angle brackets. -/
def IsBareIri (ns iri : String) : Prop :=
  ∃ inner, Text.IsTrimmed Text.isBlank ns.toList inner ∧
    Text.IsTrimmed (fun c => c == '<' || c == '>') inner iri.toList

def IsDeclaration (e : String × String) (line : String) : Prop :=
  ∃ iri, IsBareIri e.2 iri ∧ line = "PREFIX " ++ e.1 ++ ": <" ++ iri ++ ">"

def declares (label line : String) : Bool :=
  ("PREFIX " ++ label ++ ": <").toList.isPrefixOf line.toList

/-- A label is declared with the namespace that the table has for it. No other line reads as a
declaration of it unless another declared label starts with this one, a colon and a bracket. -/
def DeclaredOnce (table declared : PrefixTable) (lines : List String) (label : String) : Prop :=
  ∃ ns line, table.get? label = some ns ∧ declared.filter (·.1 = label) = [(label, ns)] ∧
    IsDeclaration (label, ns) line ∧ line ∈ lines ∧
    (lines.filter (declares label) = [line] ↔
      ∀ l ∈ declared.names, ¬(label ++ ": <").toList <+: l.toList)

variable {s : String} {d : Pattern.Draft} {u : Pattern.Triple}

theorem standsIn_render {types : List String} (indent : String)
    (hindent : ∀ c ∈ indent.toList, Text.isBlank c = true) (isFirst isLast : Bool)
    (h : StandsIn s (u.renderTail types)) : StandsIn s (u.render types indent isFirst isLast) := by
  refine h.trans ?_
  unfold Pattern.Triple.render
  cases isFirst with
  | true => exact StandsIn.append_behind " " rfl continuesName_space _ _
  | false =>
    apply StandsIn.append
    intro c hc
    have hmem := List.mem_of_getLast? hc
    rw [if_neg (by simp), String.toList_append, List.mem_append, or_self] at hmem
    exact Text.continuesName_of_isBlank (hindent c hmem)

theorem standsIn_block (ix : Index) (request : Option (List String))
    (parameters : Pattern.Parameters) (options : Pattern.Options)
    (hindent : ∀ c ∈ options.indentUnit.toList, Text.isBlank c = true) :
    let w := Pattern.generate ix request parameters options
    u ∈ w.draft.required ++ w.draft.optional →
      StandsIn s (u.renderTail (w.draft.typesOf u.object)) →
      StandsIn s ("\n".intercalate w.lines) := by
  intro w hu h
  rw [show w.lines = _ from Pattern.generate_layout ix request parameters options]
  rcases List.mem_append.mp hu with hu | hu
  · obtain ⟨r, hr, rfl⟩ := Pattern.exists_mem_requiredRows hu
    have hline := standsIn_render options.indentUnit hindent r.isFirst r.isLast h
    refine hline.trans (StandsIn.line ?_)
    rw [← Pattern.Row.text_line]
    simp only [List.mem_append, List.mem_map]
    exact Or.inl (Or.inl (Or.inr ⟨r, hr, rfl⟩))
  · have hline := (standsIn_render "" (by simp) true true h).trans
      (StandsIn.append_behind "OPTIONAL \x7b " rfl continuesName_space options.indentUnit " \x7d")
    refine hline.trans (StandsIn.line ?_)
    simp only [List.mem_append]
    exact Or.inl (Or.inr (List.mem_map.mpr ⟨u, hu, rfl⟩))

/-- Everything that a block shows stands where a name may start. -/
theorem Shows.standsIn {m : Model} {request : Option (List String)}
    {parameters : Pattern.Parameters} {options : Pattern.Options}
    (hindent : ∀ c ∈ options.indentUnit.toList, Text.isBlank c = true)
    (h : Shows m options (Pattern.generate m.index request parameters options).draft s) :
    StandsIn s ("\n".intercalate
      (Pattern.generate m.index request parameters options).lines) := by
  cases h with
  | step before after hu ht huri hpath =>
    apply standsIn_block m.index request parameters options hindent hu
    unfold Pattern.Triple.renderTail
    rw [if_neg (by simp [ht]), hpath, String.append_assoc]
    exact (StandsIn.intercalate (c := ' ') rfl continuesName_space before after).trans
      (StandsIn.append_right _ _)
  | oneClass hu ht hc =>
    apply standsIn_block m.index request parameters options hindent hu
    unfold Pattern.Triple.renderTail
    rw [if_pos ht, hc]
    simpa using StandsIn.append_behind (s := s) "a " rfl continuesName_space "" ""
  | @boundClass n c he hn hlen hc =>
    obtain ⟨before, after, hsplit⟩ := List.append_of_mem hc
    have hvalue : StandsIn s (" ".intercalate
        ((Pattern.generate m.index request parameters options).draft.typesOf n)) := by
      rw [hsplit]
      exact StandsIn.intercalate (c := ' ') rfl continuesName_space before after
    have hline := hvalue.trans (StandsIn.append_behind " \x7b " rfl continuesName_space
      (options.indentUnit ++ "VALUES " ++ n.classVariable) " \x7d")
    refine hline.trans (StandsIn.line ?_)
    have hclass : Pattern.valuesLine options.indentUnit n.classVariable (" ".intercalate
        ((Pattern.generate m.index request parameters options).draft.typesOf n)) ∈
        Pattern.classTexts options (Pattern.generate m.index request parameters options).draft :=
      List.mem_map.mpr ⟨n, List.mem_filter.mpr ⟨hn, by simpa using hlen⟩, rfl⟩
    rw [Pattern.generate_layout, if_pos he, ← distinct_append]
    simp only [List.cons_append, List.mem_cons, List.mem_append, mem_distinct]
    exact Or.inr (Or.inl (Or.inl (Or.inl (Or.inr hclass))))

variable {m : Model}

theorem label_mem_of_isClass (hhops : m.index.HasPlainHops) {c label : String}
    (hc : IsClass m c) (hl : Uri.prefixOf? c = some label) : label ∈ m.prefixes.names := by
  rcases hc with ⟨s, hs, hc⟩ | ⟨t, ht, htype, rfl⟩
  · exact m.label_mem_of_types hs hc hl
  · exact (m.label_mem_of_triple hhops ht).2 htype hl

theorem Shows.label_mem (hhops : m.index.HasPlainHops) {options : Pattern.Options}
    {names : List String} {s label : String}
    (h : Shows m options (Pattern.Draft.ofVariables m.index names) s)
    (hl : Uri.prefixOf? s = some label) : label ∈ m.prefixes.names := by
  cases h with
  | step before after hu ht huri hpath =>
    obtain ⟨t, ht, huri⟩ := huri
    obtain ⟨step, hstep, rfl⟩ := List.mem_map.mp huri
    exact (m.label_mem_of_triple hhops ht).1 step hstep hl
  | oneClass hu ht hc =>
    apply label_mem_of_isClass hhops _ hl
    exact Pattern.isClass_of_mem_typesOf (hc ▸ List.mem_singleton_self s)
  | boundClass he hn hlen hc =>
    exact label_mem_of_isClass hhops (Pattern.isClass_of_mem_typesOf hc) hl

theorem exists_entry {α : Type} {table : Table α} (hn : table.names.Nodup) {name : String}
    (h : name ∈ table.names) :
    ∃ value, table.get? name = some value ∧ table.filter (·.1 = name) = [(name, value)] := by
  induction table with
  | nil => simp [Table.names] at h
  | cons entry rest ih =>
    obtain ⟨hfirst, hrest⟩ := List.nodup_cons.mp hn
    rw [Table.get?_cons, List.filter_cons]
    by_cases he : name = entry.1
    · subst he
      have hnone : rest.filter (·.1 = entry.1) = [] := by
        rw [List.filter_eq_nil_iff]
        intro e hmem hname
        exact hfirst (List.mem_map.mpr ⟨e, hmem, by simpa using hname⟩)
      exact ⟨entry.2, by simp, by simp [hnone]⟩
    · have hmem : name ∈ Table.names rest := (List.mem_cons.mp h).resolve_left he
      rw [if_neg he, if_neg (by simpa using Ne.symm he)]
      exact ih hrest hmem

theorem get?_of_mem {α : Type} {table : Table α} (hn : table.names.Nodup) {e : String × α}
    (he : e ∈ table) : table.get? e.1 = some e.2 := by
  obtain ⟨value, hget, hone⟩ := exists_entry hn (List.mem_map_of_mem he)
  have hmem : e ∈ table.filter (·.1 = e.1) := List.mem_filter.mpr ⟨he, by simp⟩
  rw [hone, List.mem_singleton] at hmem
  rw [hget, hmem]

def lineOf (e : String × String) : String :=
  "PREFIX " ++ e.1 ++ ": <" ++ Uri.namespaceIri e.2 ++ ">"

theorem isDeclaration_lineOf (e : String × String) : IsDeclaration e (lineOf e) := by
  refine ⟨Uri.namespaceIri e.2, ⟨(Text.strip e.2).toList, ?_, ?_⟩, rfl⟩
  · exact Text.isTrimmed_iff.mpr (String.toList_ofList).symm
  · exact Text.isTrimmed_iff.mpr (String.toList_ofList).symm

theorem prefixLines_eq {table : PrefixTable} (hn : table.names.Nodup) (lines : List String) :
    prefixLines lines table =
      (table.filter fun e => usesPrefix ("\n".intercalate lines).toList e.1).map lineOf := by
  rw [prefixLines, usedPrefixes, Table.names, List.filter_map, List.filterMap_map,
    ← List.filterMap_eq_map]
  apply List.filterMap_congr
  intro e he
  simp [get?_of_mem hn (List.mem_filter.mp he).1, lineOf]

theorem append_isPrefix_iff {xs ys zs : List Char} (hx : ':' ∉ xs) :
    xs ++ [':', ' ', '<'] <+: ys ++ ':' :: ' ' :: '<' :: zs ↔
      ys = xs ∨ xs ++ [':', ' ', '<'] <+: ys := by
  induction xs generalizing ys with
  | nil => rcases ys with _ | ⟨a, _ | ⟨b, _ | ⟨c, ys⟩⟩⟩ <;> simp
  | cons x xs ih =>
    obtain ⟨hne, hx⟩ := not_or.mp (mt List.mem_cons.mpr hx)
    cases ys with
    | nil => simp [Ne.symm hne]
    | cons y ys =>
      simp only [List.cons_append, List.cons_prefix_cons, List.cons.injEq, ih hx]
      tauto

theorem declares_lineOf_iff {label : String} (hlabel : ':' ∉ label.toList) (e : String × String) :
    declares label (lineOf e) = true ↔
      e.1 = label ∨ (label ++ ": <").toList <+: e.1.toList := by
  have htexts : ("PREFIX " ++ label ++ ": <").toList =
        "PREFIX ".toList ++ (label.toList ++ [':', ' ', '<']) ∧
      (lineOf e).toList = "PREFIX ".toList ++
        (e.1.toList ++ ':' :: ' ' :: '<' :: (Uri.namespaceIri e.2 ++ ">").toList) := by
    simp [lineOf]
  rw [declares, List.isPrefixOf_iff_prefix, htexts.1, htexts.2, List.prefix_append_right_inj,
    append_isPrefix_iff hlabel, String.toList_inj]
  simp

theorem colon_notMem_of_prefixOf? {uri label : String} (h : Uri.prefixOf? uri = some label) :
    ':' ∉ label.toList := by
  have hword : ∀ c ∈ label.toList, Text.isWord c = true := by
    unfold Uri.prefixOf? at h
    dsimp only at h
    split at h
    · cases h
    · split at h
      · split at h
        · cases h
        · rw [← Option.some.inj h, String.toList_ofList]
          exact fun c hc => List.mem_takeWhile_imp hc
      · cases h
  intro hc
  exact absurd (hword ':' hc) (by decide +kernel)

theorem declaredOnce {table : PrefixTable} (hn : table.names.Nodup) {label : String}
    (hl : label ∈ table.names) (hcolon : ':' ∉ label.toList) {used : String → Bool}
    (hused : used label = true) :
    DeclaredOnce table (table.filter fun e => used e.1)
      ((table.filter fun e => used e.1).map lineOf) label := by
  obtain ⟨ns, hget, hone⟩ := exists_entry hn hl
  let declared := table.filter fun e => used e.1
  have hentry : declared.filter (·.1 = label) = [(label, ns)] := by
    rw [List.filter_comm, hone]
    simp [hused]
  have hmem : (label, ns) ∈ declared :=
    List.mem_of_mem_filter (hentry ▸ List.mem_singleton_self _)
  refine ⟨ns, lineOf (label, ns), hget, hentry, isDeclaration_lineOf _, List.mem_map_of_mem hmem, ?_⟩
  rw [List.filter_map]
  constructor
  · -- a longer label would add a second line
    intro hlines l hlonger hstart
    obtain ⟨e, he, rfl⟩ := List.mem_map.mp hlonger
    have hlen := congrArg List.length hlines
    rw [List.length_map, List.length_singleton, List.length_eq_one_iff] at hlen
    obtain ⟨x, hx⟩ := hlen
    have heq : ∀ e ∈ declared, declares label (lineOf e) = true → e = x := by
      intro e he hd
      rw [← List.mem_singleton, ← hx]
      exact List.mem_filter.mpr ⟨he, hd⟩
    have hlabel := heq _ hmem ((declares_lineOf_iff hcolon _).mpr (Or.inl rfl))
    rw [heq e he ((declares_lineOf_iff hcolon e).mpr (Or.inr hstart)), ← hlabel] at hstart
    have hlength := hstart.length_le
    simp at hlength
  · intro hnone
    rw [List.filter_congr (q := fun e => decide (e.1 = label)), hentry]
    · rfl
    · intro e he
      have hlonger := hnone e.1 (List.mem_map_of_mem he)
      rw [Function.comp_apply, Bool.eq_iff_iff, declares_lineOf_iff hcolon, decide_eq_true_eq,
        or_iff_left hlonger]

/-- The declarations of a query, for a prefix table without repeated names and an indentation of
blanks. They stand before the line that selects, in the order of the table, and declare bare IRIs.
The path of every triple that states no class consists of predicate URIs of the model. The label of
each such URI and of each class that is shown is declared with the namespace that the table has for
it. One line reads as a declaration of the label, unless a longer label makes another line do so. -/
theorem generate_declares (m : Model) (hhops : m.index.HasPlainHops)
    (htable : m.prefixes.names.Nodup) (request : Option (List String))
    (parameters : Pattern.Parameters) (options : Pattern.Options)
    (hindent : ∀ c ∈ options.indentUnit.toList, Text.isBlank c = true) (limit : Option Int) :
    let w := Pattern.generate m.index request parameters options
    ∃ (declared : PrefixTable) (lines : List String), declared.Sublist m.prefixes ∧
      List.Forall₂ IsDeclaration declared lines ∧
      (generate m request parameters options limit).1 =
        lines ++ (if lines = [] then [] else [""])
          ++ selectLine m.index (some w.variableNames) :: (w.lines ++ limitLines limit) ∧
      (∀ u ∈ w.draft.required ++ w.draft.optional, u.isType = false → ∃ path,
        u.predicate = pathSeparator.intercalate path ∧ ∀ uri ∈ path, IsStepUri m uri) ∧
      ∀ s label, Shows m options w.draft s → Uri.prefixOf? s = some label →
        DeclaredOnce m.prefixes declared lines label := by
  intro w
  let text := ("\n".intercalate w.lines).toList
  let declared := m.prefixes.filter fun e => usesPrefix text e.1
  have hlines : prefixLines w.lines m.prefixes = declared.map lineOf := prefixLines_eq htable _
  refine ⟨declared, declared.map lineOf, List.filter_sublist, ?_, ?_, ?_, ?_⟩
  · rw [List.forall₂_map_right_iff, List.forall₂_same]
    exact fun e _ => isDeclaration_lineOf e
  · rw [← hlines]
    simp only [generate, List.isEmpty_iff, List.append_assoc, List.cons_append, List.nil_append]
    rfl
  · intro u hu htype
    obtain ⟨o, hu⟩ := Pattern.Draft.mem_append_iff.mp hu
    rcases Pattern.Draft.mem_ofVariables_cases hu with ⟨e, he, rfl⟩ | ⟨n, rfl, -⟩
    · exact Pattern.exists_path he
    · cases htype
  · intro s label hs hl
    have hstands := (StandsIn.of_prefixOf? hl).trans (hs.standsIn hindent)
    exact declaredOnce htable (hs.label_mem hhops hl) (colon_notMem_of_prefixOf? hl)
      hstands.usesPrefix

/-- A record with two classes and a label. One of the prefixes is not used. -/
def labelledRecord : Model where
  subjects := [⟨"Record", none, false,
    [⟨"a", none, [.uri "ex:Record" "ex:Record", .uri "ex:Thing" "ex:Thing"]⟩,
      ⟨"rdfs:label", none, [.var "label"]⟩]⟩]
  prefixes := [("rdfs", " <http://www.w3.org/2000/01/rdf-schema#> "),
    ("foaf", "http://xmlns.com/foaf/0.1/"), ("ex", "http://example.org/")]
  accepted := by decide +kernel

theorem generate_declares_labelledRecord :
    (generate labelledRecord (some ["label"]) [] { indentUnit := "" } (some 10)).1 =
      ["PREFIX rdfs: <http://www.w3.org/2000/01/rdf-schema#>", "PREFIX ex: <http://example.org/>",
        "", "SELECT ?label", "WHERE \x7b", "VALUES ?RecordClass \x7b ex:Record ex:Thing \x7d",
        "?Record a ?RecordClass ;", "rdfs:label ?label .", "\x7d", "LIMIT 10"] ∧
    ∃ (declared : PrefixTable) (lines : List String), declared.Sublist labelledRecord.prefixes ∧
      List.Forall₂ IsDeclaration declared lines ∧
      DeclaredOnce labelledRecord.prefixes declared lines "rdfs" ∧
      DeclaredOnce labelledRecord.prefixes declared lines "ex" := by
  have hhops : labelledRecord.index.HasPlainHops := by
    unfold Index.HasPlainHops
    decide +kernel
  obtain ⟨declared, lines, hsub, hlines, -, -, h⟩ := generate_declares labelledRecord hhops
    (by decide +kernel) (some ["label"]) [] { indentUnit := "" } (by simp) (some 10)
  refine ⟨by decide +kernel, declared, lines, hsub, hlines, h "rdfs:label" "rdfs" ?_ (by decide +kernel),
    h "ex:Thing" "ex" ?_ (by decide +kernel)⟩
  · have hstep : IsStepUri labelledRecord "rdfs:label" := by
      unfold IsStepUri
      decide +kernel
    exact Shows.step (u := ⟨.var "Record", "rdfs:label", .var "label"⟩) [] [] (by decide +kernel)
      (by decide) hstep (by decide +kernel)
  · exact Shows.boundClass (n := .var "Record") rfl (by decide +kernel) (by decide +kernel)
      (by decide +kernel)

/-- An entry with a role, and a label that holds another label with a colon. -/
def nestedLabel : Model where
  subjects := [⟨"Entry", none, false, [⟨"a", none, [.uri "ex:Entry" "ex:Entry"]⟩,
    ⟨"ex: <a:role", none, [.var "role"]⟩]⟩]
  prefixes := [("ex", "a: <b"), ("ex: <a", "b")]
  accepted := by decide +kernel

/-- The label of a step is declared, and two lines read as its declaration. -/
theorem nestedLabel_declares_twice :
    let w := Pattern.generate nestedLabel.index (some ["role"]) [] {}
    (generate nestedLabel (some ["role"]) [] {} none).1 =
      ["PREFIX ex: <a: <b>", "PREFIX ex: <a: <b>", "", "SELECT ?role", "WHERE \x7b",
        "    ?Entry a ex:Entry ;", "        ex: <a:role ?role .", "\x7d"] ∧
    Shows nestedLabel {} w.draft "ex: <a:role" ∧ Uri.prefixOf? "ex: <a:role" = some "ex" ∧
    ((generate nestedLabel (some ["role"]) [] {} none).1.filter (declares "ex")).length = 2 := by
  have hstep : IsStepUri nestedLabel "ex: <a:role" := by
    unfold IsStepUri
    decide +kernel
  refine ⟨by decide +kernel, ?_, by decide +kernel, by decide +kernel⟩
  exact Shows.step (u := ⟨.var "Entry", "ex: <a:role", .var "role"⟩) [] [] (by decide +kernel)
    (by decide) hstep (by decide +kernel)

end Query

end SparqlModel
