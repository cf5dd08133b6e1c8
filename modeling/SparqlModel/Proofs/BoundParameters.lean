import SparqlModel.Proofs.SelfJoins

/-!
# Variables that parameters bind

Each parameter that an object of the model answers to is bound by a `VALUES` line, requested or
not, and parameters add no triples to the block. So a bound variable is written in a triple line
exactly if the request constrains it, or if the text of a predicate, a class or another node writes
it. A requested variable that an object other than a class produces is always constrained.
-/

namespace SparqlModel

namespace Pattern

def UsesVariable (d : Draft) (indent v : String) : Prop :=
  ∃ line ∈ requiredLines d indent ++ optionalLines d indent, HasVariable v line

instance (d : Draft) (indent v : String) : Decidable (UsesVariable d indent v) :=
  inferInstanceAs
    (Decidable (∃ line ∈ requiredLines d indent ++ optionalLines d indent, HasVariable v line))

variable {ix : Index} {names : List String} {v indent : String}

theorem usesVariable_iff {d : Draft} :
    UsesVariable d indent v ↔ ∃ l ∈ tripleLines d indent, HasVariable v l.text := by
  rw [UsesVariable, ← text_tripleLines]
  simp

theorem UsesVariable.isConstrained (hv : ' ' ∉ v.toList) (hindent : '?' ∉ indent.toList)
    (h : UsesVariable (Draft.ofVariables ix names) indent v) :
    IsConstrained ix names v ∨
      ∃ l ∈ tripleLines (Draft.ofVariables ix names) indent, l.HasStray v := by
  obtain ⟨l, hl, hwritten⟩ := usesVariable_iff.mp h
  rcases (hasVariable_line_iff hv hindent hl).mp hwritten with hnode | hstray
  · obtain ⟨u, hu, hhas⟩ := exists_has_of_mem_tripleLines hl hnode
    exact Or.inl (.of_has hu hhas)
  · exact Or.inr ⟨l, hl, hstray⟩

theorem IsConstrained.usesVariable (hv : isBlankLabel v = false) (h : IsConstrained ix names v) :
    UsesVariable (Draft.ofVariables ix names) indent v := by
  obtain ⟨l, hl, hnode⟩ := (exists_tripleLine_iff hv indent).mpr (h.exists_has hv)
  exact usesVariable_iff.mpr ⟨l, hl, hasVariable_of_mem hl hnode⟩

theorem UsesVariable.of_stray {d : Draft} (hv : ' ' ∉ v.toList) (hindent : '?' ∉ indent.toList)
    (h : ∃ l ∈ tripleLines d indent, l.HasStray v) : UsesVariable d indent v := by
  obtain ⟨l, hl, hstray⟩ := h
  exact usesVariable_iff.mpr ⟨l, hl, (hasVariable_line_iff hv hindent hl).mpr (Or.inr hstray)⟩

theorem isTypeUri_leafStep_eq_false {t : SparqlModel.Triple} (htype : t.predicate.isType = false)
    (h : ¬ReachedByType ix names t) : isTypeUri (leafStep ix names t).2 = false := by
  by_cases hr : rendering ix names t = .expanded
  · rw [leafStep, hr]
    exact isTypeUri_intercalate htype _
  · rw [← Bool.not_eq_true]
    exact (isTypeUri_leafStep hr).not.mpr h

theorem mem_requestedVariables_none {t : SparqlModel.Triple} (hv : ¬ix.isSubject v)
    (hp : ix.producer? v = some t) (htype : t.predicate.isType = false) :
    v ∈ requestedVariables ix none := by
  have hname := Index.producer?_name hp hv
  have hobject : v ∈ ix.objectNames := by
    rw [Index.objectNames, mem_distinct, List.mem_map]
    exact ⟨t, List.mem_filter.mpr ⟨Index.producer?_mem hp, by simp [htype]⟩, hname⟩
  rw [requestedVariables, mem_distinct]
  exact List.mem_map.mpr ⟨v, hobject, by simp [Index.variableFor, hv]⟩

theorem IsConstrained.of_producer {m : Model} {names : List String} {v : String}
    {t : SparqlModel.Triple} (hv : v ∈ names) (hs : ¬m.index.isSubject v)
    (hp : m.index.producer? v = some t) (htype : t.predicate.isType = false) :
    IsConstrained m.index names v := by
  have hsubject : t.subject.name ≠ v := by
    rintro rfl
    exact hs (Index.isSubject_iff.mpr ⟨_, m.subject_mem (Index.producer?_mem hp), rfl⟩)
  have hreached : ¬ReachedByType m.index names t := by
    refine not_reachedByType fun t' ht' => ?_
    rw [Index.producer?_name hp hs, hp] at ht'
    exact Option.some.inj ht' ▸ htype
  have hsource : source? m.index v = some t := source?_eq_some_iff.mpr ⟨hp, hsubject⟩
  exact .leaf hv hsource (isTypeUri_leafStep_eq_false htype hreached)

/-- What parameters bind. The block of a request starts with the lines of the parameters that an
object answers to, and its triple lines are those of the request. The variable of such a parameter
is written in a triple line if it is requested, by name or because all objects are, and is produced
by an object that is no class. In general it is written there exactly if the request constrains it
or the text of a predicate, a class or another node writes it. -/
theorem generate_binds (m : Model) (request : Option (List String)) (parameters : Parameters)
    (options : Options) (hvalues : options.emitValues = true)
    (hindent : '?' ∉ options.indentUnit.toList) :
    let w := generate m.index request parameters options
    let bound := parameterTexts m.index options parameters
    w.lines = "WHERE \x7b" :: (distinct bound ++
        (distinct (classTexts options w.draft)).filter (· ∉ bound)) ++
      (requiredLines w.draft options.indentUnit ++ optionalLines w.draft options.indentUnit) ++
        ["\x7d"] ∧
    ∀ p ∈ parameters, ∀ o, m.index.findObject? p.1 = some o →
      let v := m.index.variableFor p.1
      let strays := ∃ l ∈ tripleLines w.draft options.indentUnit, l.HasStray v
      valuesLine options.indentUnit ("?" ++ v) (parameterText options o p.1 p.2) ∈ bound ∧
      (' ' ∉ v.toList → UsesVariable w.draft options.indentUnit v →
        IsConstrained m.index w.variableNames v ∨ strays) ∧
      (isBlankLabel v = false →
        (' ' ∉ v.toList → (UsesVariable w.draft options.indentUnit v ↔
          IsConstrained m.index w.variableNames v ∨ strays)) ∧
        (IsConstrained m.index w.variableNames v → UsesVariable w.draft options.indentUnit v) ∧
        ∀ t, m.index.producer? v = some t → t.predicate.isType = false →
          ¬m.index.isSubject v → request = none ∨ v ∈ w.variableNames →
          UsesVariable w.draft options.indentUnit v) := by
  intro w bound
  constructor
  · have hlayout := generate_layout m.index request parameters options
    dsimp only at hlayout
    rw [if_pos hvalues, text_requiredRows, List.append_assoc _ (requiredLines _ _)] at hlayout
    exact hlayout
  · intro p hp o ho v strays
    have hused (hspace : ' ' ∉ v.toList) : UsesVariable w.draft options.indentUnit v →
        IsConstrained m.index w.variableNames v ∨ strays :=
      UsesVariable.isConstrained hspace hindent
    refine ⟨?_, hused, fun hv => ⟨fun hspace => ⟨hused hspace, ?_⟩,
      IsConstrained.usesVariable hv, ?_⟩⟩
    · exact List.mem_filterMap.mpr ⟨p, hp, by rw [ho]; rfl⟩
    · rintro (h | h)
      · exact h.usesVariable hv
      · exact UsesVariable.of_stray hspace hindent h
    · intro t ht htype hs hrequested
      have hmem : v ∈ w.variableNames := by
        rcases hrequested with rfl | hmem
        · exact mem_requestedVariables_none hs ht htype
        · exact hmem
      exact (IsConstrained.of_producer hmem hs ht htype).usesVariable hv

def identifiedEntry : Model where
  subjects := [⟨"Entry", none, false, [⟨"a", none, [.uri "ex:Entry" "ex:Entry"]⟩,
    ⟨"dct:identifier", none, [.literal "entry_id" (.scalar (.text "E000")) none none]⟩,
    ⟨"rdfs:label", none, [.var "entry_label"]⟩]⟩]
  prefixes := [("ex", "http://example.org/"), ("dct", "http://purl.org/dc/terms/"),
    ("rdfs", "http://www.w3.org/2000/01/rdf-schema#")]
  accepted := by decide +kernel

def boundIdentifier : Parameters := [("entry_id", .scalar (.text "E001"))]

theorem generate_binds_identifiedEntry :
    let w := generate identifiedEntry.index (some ["entry_id", "entry_label"]) boundIdentifier {}
    w.lines = ["WHERE \x7b", "    VALUES ?entry_id \x7b \"E001\" \x7d", "    ?Entry a ex:Entry ;",
      "        dct:identifier ?entry_id ;", "        rdfs:label ?entry_label .", "\x7d"] ∧
    identifiedEntry.index.isSubject "entry_id" = false ∧ "entry_id" ∈ w.variableNames ∧
    UsesVariable w.draft "    " "entry_id" ∧
    IsConstrained identifiedEntry.index w.variableNames "entry_id" := by
  intro w
  have hrequested : "entry_id" ∈ w.variableNames := by decide +kernel
  have hsubject : identifiedEntry.index.isSubject "entry_id" = false := by decide +kernel
  obtain ⟨-, hbound⟩ := generate_binds identifiedEntry (some ["entry_id", "entry_label"])
    boundIdentifier {} rfl (by decide)
  obtain ⟨-, hused, hshown⟩ := hbound _ List.mem_cons_self _ rfl
  have hline : UsesVariable w.draft "    " "entry_id" :=
    (hshown (by decide)).2.2 _ rfl (by decide) (by decide +kernel) (Or.inr hrequested)
  have hnone : ¬∃ l ∈ tripleLines w.draft "    ", l.HasStray "entry_id" := by decide +kernel
  exact ⟨by decide +kernel, hsubject, hrequested, hline,
    (hused (by decide) hline).resolve_right hnone⟩

/-- The identifier is bound without being requested, and no triple line has it. -/
theorem identifiedEntry_not_usesVariable :
    let w := generate identifiedEntry.index (some ["entry_label"]) boundIdentifier {}
    w.lines = ["WHERE \x7b", "    VALUES ?entry_id \x7b \"E001\" \x7d", "    ?Entry a ex:Entry ;",
      "        rdfs:label ?entry_label .", "\x7d"] ∧
    parameterTexts identifiedEntry.index {} boundIdentifier =
      ["    VALUES ?entry_id \x7b \"E001\" \x7d"] ∧
    ¬UsesVariable w.draft "    " "entry_id" := by
  decide +kernel

/-- An entry with a label whose predicate is written like a variable, and an address. -/
def markedPredicate : Model where
  subjects := [⟨"Entry", none, false, [⟨"a", none, [.uri "ex:Entry" "ex:Entry"]⟩,
    ⟨"?email", none, [.var "label"]⟩, ⟨"ex:email", none, [.var "email"]⟩]⟩]
  prefixes := [("ex", "http://example.org/")]
  accepted := by decide +kernel

example :
    let w := generate markedPredicate.index (some ["label"]) [("email", .scalar (.text "x"))] {}
    w.lines = ["WHERE \x7b", "    VALUES ?email \x7b x \x7d", "    ?Entry a ex:Entry ;",
      "        ?email ?label .", "\x7d"] ∧
    UsesVariable w.draft "    " "email" ∧
    (∃ l ∈ tripleLines w.draft "    ", l.HasStray "email") ∧
    ∀ l ∈ tripleLines w.draft "    ", Piece.node (.var "email") ∉ l := by
  decide +kernel

end Pattern

end SparqlModel
