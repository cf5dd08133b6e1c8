import Mathlib.Data.List.Nodup
import Mathlib.Tactic
import SparqlModel.Model
import SparqlModel.Pattern.Where

/-!
# Names that are told apart

Lists without repetitions, entries of tables, the unique subject names of an accepted model, and the
names of pattern nodes. A blank node of a pattern is named by its number behind `_b`; a variable
whose name does not have this form is never taken for a blank node.
-/

namespace SparqlModel

theorem eq_singleton_of_nodup {α : Type} {l : List α} {x : α} (hn : l.Nodup) (hx : x ∈ l)
    (h : ∀ y ∈ l, y = x) : l = [x] := by
  have hl : l = List.replicate l.length x := List.eq_replicate_iff.mpr ⟨rfl, h⟩
  have hone : l.length ≤ 1 := by
    rw [hl, List.nodup_replicate] at hn
    simpa using hn
  have hpos : 0 < l.length := List.length_pos_of_mem hx
  rw [hl, show l.length = 1 by omega]
  rfl

section

variable {α : Type} [BEq α] [LawfulBEq α]

theorem distinct_append_singleton (xs : List α) (x : α) :
    distinct (xs ++ [x]) = if x ∈ distinct xs then distinct xs else distinct xs ++ [x] := by
  simp [distinct, List.foldl_append]

theorem distinct_spec (xs : List α) :
    (distinct xs).Nodup ∧ ∀ x, x ∈ distinct xs ↔ x ∈ xs := by
  induction xs using List.reverseRecOn with
  | nil => simp [distinct]
  | append_singleton xs y ih =>
    obtain ⟨hn, hm⟩ := ih
    rw [distinct_append_singleton]
    split_ifs with h
    · refine ⟨hn, fun x => ?_⟩
      have hy : y ∈ xs := (hm y).mp h
      rw [hm x, List.mem_append, List.mem_singleton]
      constructor
      · exact Or.inl
      · rintro (hx | rfl)
        · exact hx
        · exact hy
    · refine ⟨?_, fun x => by simp [hm]⟩
      rw [← List.concat_eq_append, List.nodup_concat]
      exact ⟨h, hn⟩

@[simp] theorem mem_distinct {xs : List α} {x : α} : x ∈ distinct xs ↔ x ∈ xs :=
  (distinct_spec xs).2 x

theorem nodup_distinct (xs : List α) : (distinct xs).Nodup :=
  (distinct_spec xs).1

@[simp] theorem distinct_eq_nil_iff {xs : List α} : distinct xs = [] ↔ xs = [] := by
  simp [List.eq_nil_iff_forall_not_mem]

theorem distinct_of_nodup {xs : List α} (h : xs.Nodup) : distinct xs = xs := by
  induction xs using List.reverseRecOn with
  | nil => rfl
  | append_singleton xs x ih =>
    rw [← List.concat_eq_append, List.nodup_concat] at h
    rw [distinct_append_singleton, ih h.2, if_neg h.1]

theorem distinct_append [DecidableEq α] (xs ys : List α) :
    distinct (xs ++ ys) = distinct xs ++ (distinct ys).filter (· ∉ xs) := by
  induction ys using List.reverseRecOn with
  | nil => simp [distinct]
  | append_singleton ys y ih =>
    rw [← List.append_assoc, distinct_append_singleton, distinct_append_singleton, ih]
    by_cases hx : y ∈ xs <;> by_cases hy : y ∈ ys <;> simp [hx, hy]

theorem nodup_of_length_distinct {xs : List α} (h : xs.length ≤ (distinct xs).length) :
    xs.Nodup := by
  have hsub : (distinct xs).Subperm xs :=
    (nodup_distinct xs).subperm fun x hx => mem_distinct.mp hx
  exact (hsub.perm_of_length_le h).nodup_iff.mp (nodup_distinct xs)

theorem distinct_map_eq_self_iff {xs : List α} (h : xs.Nodup) (f : α → α) :
    distinct (xs.map f) = xs ↔ ∀ x ∈ xs, f x = x := by
  constructor
  · intro he
    have hnodup : (xs.map f).Nodup := by
      apply nodup_of_length_distinct
      rw [he, List.length_map]
    rw [distinct_of_nodup hnodup] at he
    exact List.map_inj_left.mp (he.trans (List.map_id xs).symm)
  · intro hf
    rw [List.map_congr_left hf, List.map_id', distinct_of_nodup h]

end

namespace Table

variable {α : Type} {name name' : String} {value : α} {table : Table α}

theorem get?_cons (entry : String × α) (rest : Table α) :
    get? name (entry :: rest) = if name = entry.1 then some entry.2 else get? name rest := by
  unfold get?
  rw [List.lookup_cons]
  split_ifs with h
  · simp [h]
  · simp [beq_false_of_ne h]

theorem get?_insert_self : get? name (insert name value table) = some value := by
  induction table with
  | nil => simp [insert, get?_cons]
  | cons entry rest ih =>
    rw [insert]
    split_ifs with h
    · simp [get?_cons, beq_iff_eq.mp h]
    · have hne : name ≠ entry.1 := fun he => h (by simp [he])
      rw [get?_cons, if_neg hne, ih]

theorem get?_insert_of_ne (hn : name' ≠ name) :
    get? name' (insert name value table) = get? name' table := by
  induction table with
  | nil => simp [insert, get?_cons, hn]
  | cons entry rest ih =>
    rw [insert]
    split_ifs with h
    · have hne : name' ≠ entry.1 := fun he => hn (he.trans (beq_iff_eq.mp h))
      simp [get?_cons, hne]
    · rw [get?_cons, get?_cons, ih]

theorem get?_insert (table : Table α) (name name' : String) (value : α) :
    get? name' (insert name value table) = if name' = name then some value else get? name' table := by
  split_ifs with hn
  · rw [hn, get?_insert_self]
  · rw [get?_insert_of_ne hn]

theorem get?_filter_ne (table : Table α) (name name' : String) :
    get? name' (List.filter (fun e => e.1 != name) table) =
      if name' = name then none else get? name' table := by
  induction table with
  | nil => simp [get?]
  | cons entry rest ih =>
    rw [List.filter_cons]
    split_ifs with hentry hname hname
    · have hne : name' ≠ entry.1 := fun he => bne_iff_ne.mp hentry (he.symm.trans hname)
      rw [get?_cons, if_neg hne, ih, if_pos hname]
    · rw [get?_cons, get?_cons, ih, if_neg hname]
    · rw [ih, if_pos hname]
    · have hne : name' ≠ entry.1 := fun he => hname (he.trans (by simpa using hentry))
      rw [ih, if_neg hname, get?_cons, if_neg hne]

theorem mem_of_get? (h : get? name table = some value) : (name, value) ∈ table := by
  induction table with
  | nil => simp [get?] at h
  | cons entry rest ih =>
    rw [get?_cons] at h
    split_ifs at h with he
    · exact List.mem_cons.mpr (Or.inl (Prod.ext he (Option.some.inj h).symm))
    · exact List.mem_cons_of_mem entry (ih h)

end Table

theorem repeated_eq_nil_iff (names : List String) : repeated names = [] ↔ names.Nodup := by
  rw [List.nodup_iff_count_le_one, repeated, List.filter_eq_nil_iff]
  constructor
  · intro h name
    by_cases hm : name ∈ names
    · simpa using h name (mem_distinct.mpr hm)
    · simp [List.count_eq_zero_of_not_mem hm]
  · intro h name _
    simpa using h name

namespace Model

variable (m : Model)

theorem nodup_subjectNames : (m.subjects.map (·.name)).Nodup := by
  have h := m.accepted
  simp only [problems, List.append_eq_nil_iff, List.map_eq_nil_iff] at h
  exact (repeated_eq_nil_iff _).mp h.1.2

theorem eq_of_name_eq {s s' : Subject} (hs : s ∈ m.subjects) (hs' : s' ∈ m.subjects)
    (h : s.name = s'.name) : s = s' :=
  List.inj_on_of_nodup_map m.nodup_subjectNames hs hs' h

end Model

namespace Pattern

/-- A name of the form in which blank nodes are numbered: `_b` and digits. -/
def isBlankLabel (name : String) : Bool :=
  match name.toList with
  | '_' :: 'b' :: ds => !ds.isEmpty && ds.all Char.isDigit
  | _ => false

namespace Node

theorem toList_name_blank (k : ℕ) :
    (blank k).name.toList = '_' :: 'b' :: Nat.toDigits 10 k := by
  have h : toString (k : ℤ) = Nat.repr k := rfl
  simp [name, h, Nat.toList_repr]

theorem isBlankLabel_name_blank (k : ℕ) : isBlankLabel (blank k).name = true := by
  have hd : ∀ c ∈ Nat.toDigits 10 k, c.isDigit = true := fun c hc =>
    Nat.isDigit_of_mem_toDigits (by decide) (by decide) hc
  simp only [isBlankLabel, toList_name_blank, Bool.and_eq_true, List.all_eq_true]
  exact ⟨by simp [Nat.toDigits_ne_nil], hd⟩

/-- A node that is told from all other such nodes by its name. -/
def IsPlain : Node → Prop
  | var n => isBlankLabel n = false
  | blank k => 0 ≤ k

theorem eq_of_name_eq {n n' : Node} (hn : n.IsPlain) (hn' : n'.IsPlain)
    (h : n.name = n'.name) : n = n' := by
  cases n with
  | var a =>
    cases n' with
    | var b => exact congrArg var h
    | blank k =>
      obtain ⟨k, rfl⟩ := Int.eq_ofNat_of_zero_le hn'
      have hb := isBlankLabel_name_blank k
      rw [← h] at hb
      exact absurd (hn.symm.trans hb) Bool.false_ne_true
  | blank k =>
    obtain ⟨k, rfl⟩ := Int.eq_ofNat_of_zero_le hn
    cases n' with
    | var b =>
      have hb := isBlankLabel_name_blank k
      rw [h] at hb
      exact absurd (hn'.symm.trans hb) Bool.false_ne_true
    | blank l =>
      obtain ⟨l, rfl⟩ := Int.eq_ofNat_of_zero_le hn'
      have hd : Nat.toDigits 10 k = Nat.toDigits 10 l := by
        have hl := congrArg String.toList h
        simpa [toList_name_blank] using hl
      have hkl : k = l := by
        rw [← Nat.ofDigitChars_ten_toDigits (n := k), hd, Nat.ofDigitChars_ten_toDigits]
      rw [hkl]

end Node

end Pattern

end SparqlModel
