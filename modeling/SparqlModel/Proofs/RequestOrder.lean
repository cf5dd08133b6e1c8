import SparqlModel.Proofs.UnknownNames

/-!
# The order of a request

Which triples a pattern has depends on the set of the requested variables only. A blank node stands
for its key, so that the numbers, which do follow the order of the request, can be forgotten: two
orders give the same statements, and a permutation of the numbers leads from one pattern to the
other.
-/

namespace SparqlModel.Pattern

/-- What a node stands for in a draft: a variable for itself, and a blank node for its key. -/
def Draft.spot? (d : Draft) : Node → Option Spot
  | .var n => some (.var n)
  | .blank k => if k < 1 then none else d.blanks[(k - 1).toNat]?.map .blank

theorem Draft.spot?_place {d : Draft} {i : ℕ} {key : BlankKey} (h : d.blanks[i]? = some key) :
    d.spot? (.blank (i + 1)) = some (.blank key) := by
  have hi : ((i : ℤ) + 1 - 1).toNat = i := by omega
  rw [spot?, if_neg (by omega), hi, h, Option.map_some]

theorem Draft.spot?_number {d : Draft} {s : Spot} (h : ∀ key ∈ s.keys, key ∈ d.blanks) :
    d.spot? (s.number d.blanks) = some s := by
  cases s with
  | var n => rfl
  | blank key =>
    have hkey := List.getElem?_idxOf (h key (by simp [Spot.keys]))
    rw [Spot.number, Nat.cast_add, Nat.cast_one, spot?_place hkey]

/-- A triple without the numbers of its blank nodes. -/
@[ext]
structure Statement where
  subject : Spot
  predicate : String
  object : Spot

def Statement.triple (keys : List BlankKey) (x : Statement) : Triple :=
  ⟨x.subject.number keys, x.predicate, x.object.number keys⟩

def Draft.Reads (d : Draft) (u : Triple) (x : Statement) : Prop :=
  d.spot? u.subject = some x.subject ∧ u.predicate = x.predicate ∧
    d.spot? u.object = some x.object

def Draft.statements (d : Draft) (isOptional : Bool) : Set Statement :=
  {x | ∃ u ∈ d.buffered isOptional, d.Reads u x}

/-- Give other numbers to blank nodes. -/
def Node.renumber (σ : Equiv.Perm ℤ) : Node → Node
  | var n => var n
  | blank k => blank (σ k)

def Triple.renumber (σ : Equiv.Perm ℤ) (u : Triple) : Triple :=
  ⟨u.subject.renumber σ, u.predicate, u.object.renumber σ⟩

theorem Node.renumber_injective (σ : Equiv.Perm ℤ) : Function.Injective (renumber σ) := by
  intro n n' h
  cases n with
  | var a =>
    cases n' with
    | var b => exact h
    | blank k => cases h
  | blank k =>
    cases n' with
    | var b => cases h
    | blank l => rw [σ.injective (Node.blank.inj h)]

theorem Triple.renumber_injective (σ : Equiv.Perm ℤ) : Function.Injective (renumber σ) := by
  rintro ⟨s, p, o⟩ ⟨s', p', o'⟩ h
  obtain ⟨hs, hp, ho⟩ := Triple.mk.inj h
  cases Node.renumber_injective σ hs
  cases hp
  cases Node.renumber_injective σ ho
  rfl

variable {keys keys' : List BlankKey}

/-- The place at which the key of a number stands in a second list, counted from one. Other numbers
stay. -/
def moved (keys keys' : List BlankKey) (k : ℤ) : ℤ :=
  if k < 1 then k
  else match keys[(k - 1).toNat]? with
    | some key => keys'.idxOf key + 1
    | none => k

theorem moved_place (keys' : List BlankKey) {i : ℕ} {key : BlankKey} (h : keys[i]? = some key) :
    moved keys keys' (i + 1) = keys'.idxOf key + 1 := by
  have hi : ((i : ℤ) + 1 - 1).toNat = i := by omega
  rw [moved, if_neg (by omega), hi, h]

theorem moved_of_length_lt (keys' : List BlankKey) {k : ℤ} (h : k < 1 ∨ keys.length < k) :
    moved keys keys' k = k := by
  unfold moved
  split_ifs with hk
  · rfl
  · rw [List.getElem?_eq_none (by omega)]

theorem moved_moved (hn : keys.Nodup) (hn' : keys'.Nodup) (h : ∀ key, key ∈ keys ↔ key ∈ keys')
    (k : ℤ) : moved keys' keys (moved keys keys' k) = k := by
  have hlen : keys.length = keys'.length :=
    ((List.perm_ext_iff_of_nodup hn hn').mpr h).length_eq
  by_cases hk : k < 1 ∨ keys.length < k
  · rw [moved_of_length_lt keys' hk, moved_of_length_lt keys (by omega)]
  · obtain ⟨i, rfl⟩ : ∃ i : ℕ, k = i + 1 := ⟨(k - 1).toNat, by omega⟩
    have hi : i < keys.length := by omega
    have hmem : keys[i] ∈ keys' := (h _).mp (List.getElem_mem hi)
    rw [moved_place keys' (List.getElem?_eq_getElem hi),
      moved_place keys (List.getElem?_idxOf hmem), hn.idxOf_getElem i hi]

/-- The permutation of the numbers that leads from one list of keys to another one. -/
def renumbering (hn : keys.Nodup) (hn' : keys'.Nodup) (h : ∀ key, key ∈ keys ↔ key ∈ keys') :
    Equiv.Perm ℤ where
  toFun := moved keys keys'
  invFun := moved keys' keys
  left_inv := moved_moved hn hn' h
  right_inv := moved_moved hn' hn fun key => (h key).symm

theorem renumber_number (hn : keys.Nodup) (hn' : keys'.Nodup)
    (h : ∀ key, key ∈ keys ↔ key ∈ keys') {s : Spot} (hs : ∀ key ∈ s.keys, key ∈ keys) :
    (s.number keys).renumber (renumbering hn hn' h) = s.number keys' := by
  cases s with
  | var n => rfl
  | blank key =>
    have hmem : key ∈ keys := hs key (by simp [Spot.keys])
    have hmoved := moved_place keys' (List.getElem?_idxOf hmem)
    simp only [Spot.number, Node.renumber, renumbering, Equiv.coe_fn_mk, Node.blank.injEq]
    push_cast
    exact hmoved

theorem spot?_renumber {d d' : Draft} (hn : d.blanks.Nodup) (hn' : d'.blanks.Nodup)
    (h : ∀ key, key ∈ d.blanks ↔ key ∈ d'.blanks) (n : Node) :
    d'.spot? (n.renumber (renumbering hn hn' h)) = d.spot? n := by
  cases n with
  | var v => rfl
  | blank k =>
    have hlen : d.blanks.length = d'.blanks.length :=
      ((List.perm_ext_iff_of_nodup hn hn').mpr h).length_eq
    simp only [Node.renumber, renumbering, Equiv.coe_fn_mk]
    by_cases hk : k < 1 ∨ d.blanks.length < k
    · rw [moved_of_length_lt d'.blanks hk, Draft.spot?, Draft.spot?]
      split_ifs with hk'
      · rfl
      · rw [List.getElem?_eq_none (by omega), List.getElem?_eq_none (by omega)]
    · obtain ⟨i, rfl⟩ : ∃ i : ℕ, k = i + 1 := ⟨(k - 1).toNat, by omega⟩
      have hi : i < d.blanks.length := by omega
      have hmem : d.blanks[i] ∈ d'.blanks := (h _).mp (List.getElem_mem hi)
      rw [moved_place d'.blanks (List.getElem?_eq_getElem hi),
        Draft.spot?_place (List.getElem?_idxOf hmem),
        Draft.spot?_place (List.getElem?_eq_getElem hi)]

variable {ix : Index} {names names' : List String}

/-- The edges of a plan do not depend on the order of the request. -/
theorem mem_plan_congr (h : ∀ v, v ∈ names ↔ v ∈ names') {e : Edge} :
    e ∈ plan ix names ↔ e ∈ plan ix names' := by
  simp only [plan, List.mem_flatMap, h, edges_of_known fun v _ => h v]

/-- A spot gets a type triple: a route starts at it from a subject with classes, or it is a blank
node with classes, or it is a requested variable at which no edge starts and refers to subjects with
classes. -/
def IsClassed (ix : Index) (names : List String) : Spot → Prop
  | .var v =>
    (∃ name ∈ names, ∃ t, source? ix name = some t ∧
      startName ix names t = v ∧ (startSubject ix names t).types ≠ []) ∨
    (v ∈ names ∧ (∀ e ∈ plan ix names, e.subject ≠ .var v) ∧ Draft.referencedTypes ix v ≠ [])
  | .blank key => (∃ e ∈ plan ix names, e.subject = .blank key) ∧ key.types ≠ []

theorem isClassed_congr (h : ∀ v, v ∈ names ↔ v ∈ names') (s : Spot) :
    IsClassed ix names s ↔ IsClassed ix names' s := by
  cases s with
  | var v =>
    simp only [IsClassed, startName, mem_plan_congr h, h, startSubject_of_known fun v _ => h v]
  | blank key => simp only [IsClassed, mem_plan_congr h]

/-- What a pattern states: the edges of its plan, and the classes of its nodes. -/
def States (ix : Index) (names : List String) (isOptional : Bool) (x : Statement) : Prop :=
  (⟨x.subject, x.predicate, x.object, isOptional⟩ ∈ plan ix names) ∨
    (isOptional = false ∧ ∃ s, IsClassed ix names s ∧ x = ⟨s, "a", s⟩)

theorem states_congr (h : ∀ v, v ∈ names ↔ v ∈ names') (o : Bool) (x : Statement) :
    States ix names o x ↔ States ix names' o x := by
  simp only [States, mem_plan_congr h, isClassed_congr h]

theorem blanks_congr (h : ∀ v, v ∈ names ↔ v ∈ names') (key : BlankKey) :
    key ∈ (Draft.ofVariables ix names).blanks ↔ key ∈ (Draft.ofVariables ix names').blanks := by
  simp only [Draft.blanks_ofVariables, (Draft.traced_shows ix _).blanks, Draft.edgeKeys,
    mem_distinct, List.mem_flatMap, mem_plan_congr h]

theorem nodup_blanks (ix : Index) (names : List String) :
    (Draft.ofVariables ix names).blanks.Nodup := by
  rw [Draft.blanks_ofVariables, (Draft.traced_shows ix names).blanks]
  exact nodup_distinct _

theorem States.keys_mem {o : Bool} {x : Statement} (h : States ix names o x) :
    (∀ key ∈ x.subject.keys, key ∈ (Draft.ofVariables ix names).blanks) ∧
      ∀ key ∈ x.object.keys, key ∈ (Draft.ofVariables ix names).blanks := by
  have hshows := Draft.traced_shows ix names
  rw [Draft.blanks_ofVariables]
  rcases h with he | ⟨-, s, hs, rfl⟩
  · exact ⟨hshows.entered _ he, hshows.object_mem he⟩
  · rw [and_self]
    cases s with
    | var v => exact Spot.mem_of_mem_keys_var _
    | blank key =>
      obtain ⟨⟨e, he, hsubject⟩, -⟩ := hs
      exact hsubject ▸ hshows.entered e he

/-- A statement can be read off from its triple. -/
theorem States.reads {o : Bool} {x : Statement} (h : States ix names o x) :
    (Draft.ofVariables ix names).Reads (x.triple (Draft.ofVariables ix names).blanks) x :=
  ⟨Draft.spot?_number h.keys_mem.1, rfl, Draft.spot?_number h.keys_mem.2⟩

section

variable {m : Model} (hm : m.index.HasPlainNames)
include hm

theorem var_mem_subjects_iff {v : String} : .var v ∈ (Draft.traced m.index names).subjects ↔
    ∃ e ∈ plan m.index names, e.subject = .var v := by
  rw [mem_subjects_iff hm]
  constructor
  · rintro ⟨e, he, hn⟩
    exact ⟨e, he, Spot.eq_var_of_number_eq hn⟩
  · rintro ⟨e, he, hs⟩
    exact ⟨e, he, by rw [hs]; rfl⟩

theorem mem_typedNodes_iff_isClassed {n : Node} :
    n ∈ Draft.typedNodes m.index names (Draft.traced m.index names) ↔
      ∃ s, IsClassed m.index names s ∧ s.number (Draft.traced m.index names).blanks = n := by
  rw [mem_typedNodes hm]
  constructor
  · rintro (⟨hn, htypes⟩ | ⟨v, hv, rfl, hs, htypes⟩)
    · obtain ⟨e, he, rfl⟩ := (mem_subjects_iff hm).mp hn
      refine ⟨e.subject, ?_, rfl⟩
      cases hs : e.subject with
      | var v =>
        rw [hs] at htypes
        exact Or.inl (Draft.typesOf_traced_ne_nil_iff.mp htypes)
      | blank key =>
        refine ⟨⟨e, he, hs⟩, ?_⟩
        have hmem := (Draft.traced_shows m.index names).entered e he key (by simp [hs, Spot.keys])
        rw [hs] at htypes
        rwa [← Draft.typesOf_numberOf hmem]
    · refine ⟨.var v, Or.inr ⟨hv, fun e he he' => hs ?_, htypes⟩, rfl⟩
      exact (var_mem_subjects_iff hm).mpr ⟨e, he, he'⟩
  · rintro ⟨s, hs, rfl⟩
    cases s with
    | var v =>
      rcases hs with hgiven | ⟨hv, hnone, htypes⟩
      · refine Or.inl ⟨?_, Draft.typesOf_traced_ne_nil_iff.mpr hgiven⟩
        obtain ⟨name, hn, t, ht, rfl, -⟩ := hgiven
        exact (var_mem_subjects_iff hm).mpr (Draft.exists_edge_from_start hn ht)
      · refine Or.inr ⟨v, hv, rfl, fun hs => ?_, htypes⟩
        obtain ⟨e, he, hs⟩ := (var_mem_subjects_iff hm).mp hs
        exact hnone e he hs
    | blank key =>
      obtain ⟨⟨e, he, hs⟩, htypes⟩ := hs
      have hmem := (Draft.traced_shows m.index names).entered e he key (by simp [hs, Spot.keys])
      refine Or.inl ⟨(mem_subjects_iff hm).mpr ⟨e, he, by rw [hs]⟩, ?_⟩
      exact (Draft.typesOf_numberOf hmem).symm ▸ htypes

/-- The triples of a pattern are its statements with numbers. -/
theorem mem_buffered_iff_states {o : Bool} {u : Triple} :
    u ∈ (Draft.ofVariables m.index names).buffered o ↔ ∃ x, States m.index names o x ∧
      x.triple (Draft.ofVariables m.index names).blanks = u := by
  rw [mem_ofVariables_iff hm, Draft.blanks_ofVariables]
  constructor
  · rintro (⟨rfl, n, hn, rfl⟩ | ⟨e, he, rfl, rfl⟩)
    · obtain ⟨s, hs, rfl⟩ := (mem_typedNodes_iff_isClassed hm).mp hn
      exact ⟨⟨s, "a", s⟩, Or.inr ⟨rfl, s, hs, rfl⟩, rfl⟩
    · exact ⟨⟨e.subject, e.predicate, e.object⟩, Or.inl he, rfl⟩
  · rintro ⟨x, he | ⟨rfl, s, hs, rfl⟩, rfl⟩
    · exact Or.inr ⟨_, he, rfl, rfl⟩
    · exact Or.inl ⟨rfl, _, (mem_typedNodes_iff_isClassed hm).mpr ⟨s, hs, rfl⟩, rfl⟩

/-- Without the numbers, the buffers hold the statements. -/
theorem statements_eq (o : Bool) :
    (Draft.ofVariables m.index names).statements o = {x | States m.index names o x} := by
  ext x
  constructor
  · rintro ⟨u, hu, hs, hp, ho⟩
    obtain ⟨y, hy, rfl⟩ := (mem_buffered_iff_states hm).mp hu
    obtain ⟨hs', hp', ho'⟩ := hy.reads
    have heq : y = x := by
      ext1
      · exact Option.some.inj (hs'.symm.trans hs)
      · exact hp
      · exact Option.some.inj (ho'.symm.trans ho)
    exact heq ▸ hy
  · intro hx
    exact ⟨_, (mem_buffered_iff_states hm).mpr ⟨x, hx, rfl⟩, hx.reads⟩

end

section

variable {m : Model} (hm : m.index.HasPlainNames) (h : ∀ v, v ∈ names ↔ v ∈ names')
include hm h

/-- The same variables in another order, with other numbers. -/
theorem mem_buffered_renumber (o : Bool) (u : Triple) :
    u ∈ (Draft.ofVariables m.index names).buffered o ↔
      u.renumber (renumbering (nodup_blanks m.index names) (nodup_blanks m.index names')
        (blanks_congr h)) ∈ (Draft.ofVariables m.index names').buffered o := by
  have hnumber : ∀ x, States m.index names o x →
      (x.triple (Draft.ofVariables m.index names).blanks).renumber
          (renumbering (nodup_blanks m.index names) (nodup_blanks m.index names')
            (blanks_congr h)) =
        x.triple (Draft.ofVariables m.index names').blanks := by
    intro x hx
    obtain ⟨hsubject, hobject⟩ := hx.keys_mem
    simp only [Statement.triple, Triple.renumber]
    rw [renumber_number _ _ _ hsubject, renumber_number _ _ _ hobject]
  constructor
  · intro hu
    obtain ⟨x, hx, rfl⟩ := (mem_buffered_iff_states hm).mp hu
    rw [hnumber x hx]
    exact (mem_buffered_iff_states hm).mpr ⟨x, (states_congr h o x).mp hx, rfl⟩
  · intro hu
    obtain ⟨x, hx, heq⟩ := (mem_buffered_iff_states hm).mp hu
    have hx := (states_congr h o x).mpr hx
    have hsame := Triple.renumber_injective _ ((hnumber x hx).trans heq)
    exact (mem_buffered_iff_states hm).mpr ⟨x, hx, hsame⟩

end

/-- The order of a request does not matter. Requests for the same variables give the same required
and the same optional statements, where a blank node is told by its route and its classes; every
triple makes a statement; and a permutation of the numbers, under which a blank node keeps its
route and classes, takes the triples of one pattern to those of the other. -/
theorem generate_unordered (m : Model) (hm : m.index.HasPlainNames)
    (request request' : Option (List String)) (parameters parameters' : Parameters)
    (options options' : Options)
    (h : ∀ v, v ∈ requestedVariables m.index request ↔ v ∈ requestedVariables m.index request') :
    let d := (generate m.index request parameters options).draft
    let d' := (generate m.index request' parameters' options').draft
    (∀ o, d.statements o = d'.statements o) ∧
    (∀ o, ∀ u ∈ d.buffered o, ∃ x ∈ d.statements o, d.Reads u x) ∧
    ∃ σ : Equiv.Perm ℤ, (∀ n, d'.spot? (n.renumber σ) = d.spot? n) ∧
      ∀ o u, u ∈ d.buffered o ↔ u.renumber σ ∈ d'.buffered o := by
  intro d d'
  have hd : ∀ o, d.statements o = _ := statements_eq hm
  have hd' : ∀ o, d'.statements o = _ := statements_eq hm
  refine ⟨fun o => ?_, fun o u hu => ?_, renumbering (nodup_blanks m.index _)
    (nodup_blanks m.index _) (blanks_congr h), spot?_renumber _ _ _, mem_buffered_renumber hm h⟩
  · rw [hd, hd']
    ext x
    exact states_congr h o x
  · obtain ⟨x, hx, rfl⟩ := (mem_buffered_iff_states hm).mp hu
    exact ⟨x, hd o ▸ hx, hx.reads⟩

/-- The two values of an entry in both orders. The blank nodes change their numbers. -/
theorem generate_unordered_twoHoldings :
    let d := (generate twoHoldings.index (some ["value_a", "value_b"]) [] {}).draft
    let d' := (generate twoHoldings.index (some ["value_b", "value_a"]) [] {}).draft
    ⟨.blank 2, "ex:value", .var "value_b"⟩ ∈ d.required ∧
    ⟨.blank 1, "ex:value", .var "value_b"⟩ ∈ d'.required ∧
    (∀ o, d.statements o = d'.statements o) ∧
    ∃ σ : Equiv.Perm ℤ, (∀ n, d'.spot? (n.renumber σ) = d.spot? n) ∧
      ∀ o u, u ∈ d.buffered o ↔ u.renumber σ ∈ d'.buffered o := by
  intro d d'
  have hset : ∀ v, v ∈ requestedVariables twoHoldings.index (some ["value_a", "value_b"]) ↔
      v ∈ requestedVariables twoHoldings.index (some ["value_b", "value_a"]) := by
    have hab : requestedVariables twoHoldings.index (some ["value_a", "value_b"]) =
        ["value_a", "value_b"] := by decide +kernel
    have hba : requestedVariables twoHoldings.index (some ["value_b", "value_a"]) =
        ["value_b", "value_a"] := by decide +kernel
    intro v
    simp [hab, hba, or_comm]
  have h := generate_unordered twoHoldings twoHoldings_plain (some ["value_a", "value_b"])
    (some ["value_b", "value_a"]) [] [] {} {} hset
  exact ⟨by decide +kernel, by decide +kernel, h.1, h.2.2⟩

end SparqlModel.Pattern
