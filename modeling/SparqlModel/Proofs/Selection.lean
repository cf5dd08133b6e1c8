import SparqlModel.Proofs.Lookup
import SparqlModel.Query.Basic

/-!
# Selected variables

A query maps the variables of its pattern to variables once more before it selects them. This
changes nothing as long as every object that stands for a requested subject has a name of its own,
and no longer: if the object is named like another subject that is used as an object too, then the
query selects the variable of that other subject.
-/

namespace SparqlModel

namespace Index

/-- The object that stands for a name does not have the name of a subject for which another object
stands. Only the name of a subject can fail to be settled. -/
def IsSettled (ix : Index) (name : String) : Prop :=
  ∀ x y, ix.isSubject name → ix.asObject? name = some x → ix.isSubject x →
    ix.asObject? x = some y → y = x

theorem variableFor_of_asObject? {ix : Index} {name x : String} (hs : ix.isSubject name)
    (hx : ix.asObject? name = some x) : ix.variableFor name = x := by
  rw [variableFor, if_pos hs, hx, Option.getD_some]

/-- A name leads to the same variable when it is looked up twice exactly if it is settled. -/
theorem variableFor_variableFor_iff (ix : Index) (name : String) :
    ix.variableFor (ix.variableFor name) = ix.variableFor name ↔ ix.IsSettled name := by
  by_cases hs : ix.isSubject name
  · cases hx : ix.asObject? name with
    | none =>
      have hv : ix.variableFor name = name := by rw [variableFor, if_pos hs, hx, Option.getD_none]
      simp [IsSettled, hv, hx]
    | some x =>
      rw [variableFor_of_asObject? hs hx]
      constructor
      · intro he x' y _ hx' hs' hy
        obtain rfl : x = x' := Option.some.inj (hx.symm.trans hx')
        rwa [variableFor_of_asObject? hs' hy] at he
      · intro h
        unfold variableFor
        split_ifs with hs'
        · cases hy : ix.asObject? x with
          | none => rfl
          | some y => exact h x y hs hx hs' hy
        · rfl
  · have hv : ix.variableFor name = name := by rw [variableFor, if_neg hs]
    simp [IsSettled, hv, hs]

end Index

namespace Query

open Pattern

/-- The variables that a query selects. Its lines are prefix declarations, the line that selects,
the block of the pattern, and a limit. The selected variables are those of the pattern, in the same
order, exactly if every requested name is settled. -/
theorem generate_selects (m : Model) (request : Option (List String)) (parameters : Parameters)
    (options : Options) (limit : Option Int) :
    let w := Pattern.generate m.index request parameters options
    let selected := requestedVariables m.index (some w.variableNames)
    (∃ declarations, (∀ l ∈ declarations, l ∈ prefixLines w.lines m.prefixes ∨ l = "") ∧
      (generate m request parameters options limit).1 =
        declarations ++ ["SELECT " ++ " ".intercalate (selected.map ("?" ++ ·))] ++ w.lines
          ++ limitLines limit) ∧
    (selected = w.variableNames ↔
      ∀ name ∈ request.getD m.index.objectNames, m.index.IsSettled name) := by
  intro w selected
  constructor
  · refine ⟨prefixLines w.lines m.prefixes ++
      (if (prefixLines w.lines m.prefixes).isEmpty then [] else [""]), ?_, ?_⟩
    · intro l hl
      rcases List.mem_append.mp hl with hl | hl
      · exact Or.inl hl
      · split_ifs at hl
        · simp at hl
        · exact Or.inr (List.mem_singleton.mp hl)
    · rfl
  · have hnames : w.variableNames =
        distinct ((request.getD m.index.objectNames).map m.index.variableFor) := rfl
    have hselected : selected = distinct (w.variableNames.map m.index.variableFor) := rfl
    have hnodup : w.variableNames.Nodup := nodup_distinct _
    rw [hselected, distinct_map_eq_self_iff hnodup, hnames]
    simp only [mem_distinct, List.forall_mem_map, Index.variableFor_variableFor_iff]

/-- A book with a writer and an author. The writer is a person, but the reference to it is named
like the subject of the authors. -/
def bookWriters : Model where
  subjects := [
    ⟨"Book", none, false, [⟨"a", none, [.uri "ex:Book" "ex:Book"]⟩,
      ⟨"ex:writer", none, [.reference "Author" "Person"]⟩,
      ⟨"ex:author", none, [.reference "author" "Author"]⟩]⟩,
    ⟨"Person", none, false, [⟨"a", none, [.uri "ex:Person" "ex:Person"]⟩]⟩,
    ⟨"Author", none, false, [⟨"a", none, [.uri "ex:Author" "ex:Author"]⟩]⟩]
  prefixes := [("ex", "http://example.org/")]
  accepted := by decide +kernel

/-- The pattern has the variable `?Author`, and the query selects `?author`. -/
theorem bookWriters_selects_other :
    let w := Pattern.generate bookWriters.index (some ["Person"]) [] {}
    w.variableNames = ["Author"] ∧
      requestedVariables bookWriters.index (some w.variableNames) = ["author"] ∧
      (generate bookWriters (some ["Person"]) [] {} none).1 =
        ["PREFIX ex: <http://example.org/>", "", "SELECT ?author", "WHERE \x7b",
          "    ?Book a ex:Book ;", "        ex:author ?Author .", "    ?Author a ex:Author .",
          "\x7d"] := by
  decide +kernel

end Query

end SparqlModel
