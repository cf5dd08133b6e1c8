import SparqlModel.Proofs.NodeClasses
import SparqlModel.Proofs.Rows

/-!
# The layout of a block

The `VALUES` lines are those of the parameters and then those of the nodes with several classes,
each line once. Behind them each subject has its rows together, in the order in which the subjects
first occur among the required triples.
-/

namespace SparqlModel

section

variable {α β : Type} [BEq α] [LawfulBEq α] [BEq β] [LawfulBEq β]

theorem distinct_map {xs : List α} {f : α → β} (hf : ∀ x ∈ xs, ∀ x' ∈ xs, f x = f x' → x = x') :
    distinct (xs.map f) = (distinct xs).map f := by
  induction xs using List.reverseRecOn with
  | nil => rfl
  | append_singleton xs x ih =>
    have hxs := ih fun a ha b hb =>
      hf a (List.mem_append_left _ ha) b (List.mem_append_left _ hb)
    have hmem : f x ∈ distinct (xs.map f) ↔ x ∈ distinct xs := by
      rw [mem_distinct, mem_distinct, List.mem_map]
      constructor
      · rintro ⟨a, ha, he⟩
        exact hf a (List.mem_append_left _ ha) x (by simp) he ▸ ha
      · intro hx
        exact ⟨x, hx, rfl⟩
    rw [List.map_append, List.map_singleton, distinct_append_singleton, distinct_append_singleton]
    by_cases hx : x ∈ distinct xs
    · rw [if_pos (hmem.mpr hx), if_pos hx, hxs]
    · rw [if_neg (mt hmem.mp hx), if_neg hx, hxs, List.map_append, List.map_singleton]

end

namespace Table

variable {α : Type} {name : String} {names : List String}

theorem get?_map (names : List String) (f : String → α) (name : String) :
    get? name (names.map fun x => (x, f x)) = if name ∈ names then some (f name) else none := by
  induction names with
  | nil => rfl
  | cons x rest ih =>
    rw [List.map_cons, get?_cons, ih]
    by_cases hx : name = x <;> simp [hx]

theorem insert_map_of_notMem (f : String → α) (value : α) (h : name ∉ names) :
    insert name value (names.map fun x => (x, f x)) =
      (names.map fun x => (x, f x)) ++ [(name, value)] := by
  induction names with
  | nil => rfl
  | cons x rest ih =>
    rw [List.mem_cons, not_or] at h
    rw [List.map_cons, insert, if_neg (by simpa using Ne.symm h.1), ih h.2, List.cons_append]

theorem insert_map_of_mem {f g : String → α} (hn : names.Nodup) (h : name ∈ names)
    (hg : ∀ x, x ≠ name → g x = f x) :
    insert name (g name) (names.map fun x => (x, f x)) = names.map fun x => (x, g x) := by
  induction names with
  | nil => simp at h
  | cons x rest ih =>
    obtain ⟨hx, hrest⟩ := List.nodup_cons.mp hn
    rw [List.map_cons, List.map_cons, insert]
    by_cases he : x = name
    · subst he
      have hsame : ∀ y ∈ rest, (y, f y) = (y, g y) := by
        intro y hy
        rw [hg y fun hyx => hx (hyx ▸ hy)]
      rw [if_pos (by simp), List.map_congr_left hsame]
    · have hmem : name ∈ rest := (List.mem_cons.mp h).resolve_left (Ne.symm he)
      rw [if_neg (by simpa using he), ih hrest hmem, hg x he]

end Table

namespace Pattern

/-- The group of a name holds the triples whose subjects have that name, in their order. -/
theorem groups_eq (ts : List Triple) :
    groups ts = (distinct (ts.map (·.subject.name))).map fun x =>
      (x, ts.filter (·.subject.name = x)) := by
  induction ts using List.reverseRecOn with
  | nil => rfl
  | append_singleton ts t ih =>
    rw [groups_append_singleton, ih, Table.get?_map, List.map_append, List.map_singleton,
      distinct_append_singleton]
    have hother : ∀ x, x ≠ t.subject.name →
        (ts ++ [t]).filter (·.subject.name = x) = ts.filter (·.subject.name = x) := by
      intro x hx
      simp [List.filter_append, Ne.symm hx]
    have hown : (ts ++ [t]).filter (·.subject.name = t.subject.name) =
        ts.filter (·.subject.name = t.subject.name) ++ [t] := by
      simp [List.filter_append]
    split_ifs with hmem
    · rw [Option.getD_some, ← hown]
      exact Table.insert_map_of_mem (nodup_distinct _) hmem hother
    · have hnone : ts.filter (·.subject.name = t.subject.name) = [] := by
        rw [List.filter_eq_nil_iff]
        intro u hu he
        exact hmem (mem_distinct.mpr (List.mem_map.mpr ⟨u, hu, by simpa using he⟩))
      rw [Option.getD_none, Table.insert_map_of_notMem _ _ hmem, List.map_append,
        List.map_singleton, hown, hnone]
      refine congrArg (· ++ _) (List.map_congr_left fun x hx => ?_)
      rw [hother x fun he => hmem (he ▸ hx)]

/-- Subjects of triples with the same name are the same node. -/
def SubjectsApart (ts : List Triple) : Prop :=
  ∀ u ∈ ts, ∀ u' ∈ ts, u.subject.name = u'.subject.name → u.subject = u'.subject

theorem SubjectsApart.subset {ts us : List Triple} (h : SubjectsApart us) (hsub : ts ⊆ us) :
    SubjectsApart ts :=
  fun u hu u' hu' => h u (hsub hu) u' (hsub hu')

theorem requiredRows_eq {d : Draft} (h : SubjectsApart d.required) :
    requiredRows d = (distinct (d.required.map (·.subject))).flatMap fun n =>
      groupRows true (d.required.filter (·.subject = n)) := by
  have hnames : distinct (d.required.map (·.subject.name)) =
      (distinct (d.required.map (·.subject))).map Node.name := by
    rw [← distinct_map, List.map_map]
    · rfl
    · simp only [List.forall_mem_map]
      exact h
  rw [requiredRows, groups_eq, hnames, List.map_map, List.flatMap_map]
  apply List.flatMap_congr
  intro n hn
  obtain ⟨u, hu, rfl⟩ := List.mem_map.mp (mem_distinct.mp hn)
  refine congrArg (groupRows true) (List.filter_congr fun u' hu' => ?_)
  rw [decide_eq_decide]
  exact ⟨h u' hu' u hu, congrArg Node.name⟩

theorem filter_requiredRows {d : Draft} (h : SubjectsApart d.required) (n : Node) :
    (requiredRows d).filter (fun r => r.triple.subject = n) =
      groupRows true (d.required.filter (·.subject = n)) := by
  have hown : ∀ n', (groupRows true (d.required.filter (·.subject = n'))).filter
      (fun r => r.triple.subject = n) =
        if n' = n then groupRows true (d.required.filter (·.subject = n)) else [] := by
    intro n'
    have hrow : ∀ r ∈ groupRows true (d.required.filter (·.subject = n')),
        r.triple.subject = n' := by
      intro r hr
      simpa using (List.mem_filter.mp (triple_mem_of_mem_groupRows hr)).2
    split_ifs with he
    · subst he
      exact List.filter_eq_self.mpr fun r hr => by simpa using hrow r hr
    · rw [List.filter_eq_nil_iff]
      intro r hr hn
      exact he ((hrow r hr).symm.trans (by simpa using hn))
  rw [requiredRows_eq h, List.filter_flatMap]
  simp only [hown]
  by_cases hn : n ∈ distinct (d.required.map (·.subject))
  · -- the subject has one group, and the groups before and behind it have none of its rows
    obtain ⟨before, after, hsplit⟩ := List.append_of_mem hn
    have hnodup := nodup_distinct (d.required.map (·.subject))
    have hnone : ∀ ns : List Node, n ∉ ns → (ns.flatMap fun n' =>
        if n' = n then groupRows true (d.required.filter (·.subject = n)) else []) = [] := by
      intro ns hns
      rw [List.flatMap_eq_nil_iff]
      intro n' hn'
      have hne : n' ≠ n := by
        rintro rfl
        exact hns hn'
      rw [if_neg hne]
    rw [hsplit, List.nodup_append', List.nodup_cons, List.disjoint_cons_right] at hnodup
    rw [hsplit, List.flatMap_append, List.flatMap_cons, if_pos rfl, hnone before hnodup.2.2.1,
      hnone after hnodup.2.1.1, List.nil_append, List.append_nil]
  · have hnil : d.required.filter (·.subject = n) = [] := by
      rw [List.filter_eq_nil_iff]
      intro u hu he
      exact hn (mem_distinct.mpr (List.mem_map.mpr ⟨u, hu, by simpa using he⟩))
    rw [hnil]
    simp [groupRows]

theorem subjectsOf_eq {ts : List Triple} (h : SubjectsApart ts) :
    Draft.subjectsOf ts = distinct (ts.map (·.subject)) := by
  induction ts using List.reverseRecOn with
  | nil => rfl
  | append_singleton ts t ih =>
    have hmem : (∃ n ∈ distinct (ts.map (·.subject)), n.name = t.subject.name) ↔
        t.subject ∈ distinct (ts.map (·.subject)) := by
      constructor
      · rintro ⟨n, hn, he⟩
        obtain ⟨u, hu, rfl⟩ := List.mem_map.mp (mem_distinct.mp hn)
        exact h u (List.mem_append_left _ hu) t (by simp) he ▸ hn
      · intro ht
        exact ⟨_, ht, rfl⟩
    rw [Draft.subjectsOf_append_singleton, ih (h.subset (List.subset_append_left _ _)),
      List.map_append, List.map_singleton, distinct_append_singleton]
    simp only [hmem]

def parameterTexts (ix : Index) (options : Options) (parameters : Parameters) : List String :=
  parameters.filterMap fun p => (ix.findObject? p.1).map fun object =>
    valuesLine options.indentUnit ("?" ++ ix.variableFor p.1)
      (parameterText options object p.1 p.2)

/-- The lines that bind the class variables of the nodes with several classes. -/
def classTexts (options : Options) (d : Draft) : List String :=
  (d.subjects.filter fun n => 1 < (d.typesOf n).length).map fun n =>
    valuesLine options.indentUnit n.classVariable (" ".intercalate (d.typesOf n))

theorem pushLine_distinct (line : String) (lines : List String) :
    pushLine line (distinct lines) = distinct (lines ++ [line]) := by
  rw [distinct_append_singleton, pushLine]
  simp only [List.contains_iff_mem]

theorem foldl_pushLine {α : Type} (f : α → String) (xs : List α) (lines : List String) :
    xs.foldl (fun lines x => pushLine (f x) lines) (distinct lines) =
      distinct (lines ++ xs.map f) := by
  induction xs generalizing lines with
  | nil => simp
  | cons x rest ih =>
    rw [List.foldl_cons, pushLine_distinct, ih, List.map_cons, List.append_assoc,
      List.singleton_append]

theorem parameterLines_eq (ix : Index) (options : Options) (parameters : Parameters)
    (lines : List String) :
    (parameterLines ix options parameters (distinct lines)).1 =
      distinct (lines ++ parameterTexts ix options parameters) := by
  induction parameters generalizing lines with
  | nil => simp [parameterLines, parameterTexts]
  | cons p rest ih =>
    obtain ⟨name, value⟩ := p
    rw [parameterLines]
    cases ho : ix.findObject? name with
    | none => simpa [parameterTexts, ho] using ih lines
    | some object =>
      dsimp only
      rw [pushLine_distinct, ih]
      simp [parameterTexts, ho]

/-- The block of a request. The lines of the parameters come first, then the class lines that are
not among them, and no line comes twice. -/
theorem generate_layout (ix : Index) (request : Option (List String)) (parameters : Parameters)
    (options : Options) :
    let w := generate ix request parameters options
    let bound := parameterTexts ix options parameters
    w.lines = "WHERE \x7b" :: (if options.emitValues then
        distinct bound ++ (distinct (classTexts options w.draft)).filter (· ∉ bound) else [])
      ++ (requiredRows w.draft).map (fun r => (r.line w.draft options.indentUnit).text)
      ++ optionalLines w.draft options.indentUnit ++ ["\x7d"] := by
  intro w bound
  have hvalues : classLines options w.draft (parameterLines ix options parameters []).1 =
      distinct bound ++ (distinct (classTexts options w.draft)).filter (· ∉ bound) := by
    have hbound : (parameterLines ix options parameters []).1 = distinct bound :=
      parameterLines_eq ix options parameters []
    rw [hbound, classLines, foldl_pushLine, distinct_append]
    rfl
  rw [text_requiredRows, ← hvalues]
  cases he : options.emitValues <;> simp [w, generate, he]

end Pattern

end SparqlModel
