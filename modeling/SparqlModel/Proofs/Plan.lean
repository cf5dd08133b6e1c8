import SparqlModel.Proofs.Lookup

/-!
# The plan of a request

Every requested variable asks for a list of edges: the links that enter blank nodes, and one leaf
edge that ends at the variable. Which edges these are depends on the index and on the request only,
not on what has been drafted before.
-/

namespace SparqlModel.Pattern

/-- A node of a pattern before the blank nodes are numbered. -/
inductive Spot
  | var (name : String)
  | blank (key : BlankKey)
deriving DecidableEq

/-- A triple that a variable asks for, and the buffer that it is meant for. -/
structure Edge where
  subject : Spot
  predicate : String
  object : Spot
  isOptional : Bool
deriving DecidableEq

/-- The number of a blank node is its place among the keys, counted from one. -/
def Spot.number (keys : List BlankKey) : Spot → Node
  | var n => .var n
  | blank key => .blank (keys.idxOf key + 1 : ℕ)

def Spot.keys : Spot → List BlankKey
  | var _ => []
  | blank key => [key]

theorem Spot.mem_of_mem_keys_var {name : String} (keys : List BlankKey) :
    ∀ key ∈ (Spot.var name).keys, key ∈ keys := by
  simp [Spot.keys]

def Edge.triple (keys : List BlankKey) (e : Edge) : Triple :=
  ⟨e.subject.number keys, e.predicate, e.object.number keys⟩

/-- The three ways in which a variable is reached. -/
inductive Rendering
  | compressed
  | wholeRoute
  | expanded
deriving DecidableEq

def rendering (ix : Index) (names : List String) (t : SparqlModel.Triple) : Rendering :=
  if t.crossesBlank && ix.samePathExists t.object.name names then
    if (ix.blankTypes t).all Option.isNone then .wholeRoute else .expanded
  else .compressed

/-- The links of a route: every hop with declared classes is entered from the node before it. -/
def links (node : Spot) (route pending : List String) :
    List (Step × Option (List String)) → List Edge
  | [] => []
  | (step, types) :: rest =>
    let uri := step.predicate.uri
    match types with
    | none => links node (route ++ [uri]) (pending ++ [uri]) rest
    | some types =>
      let key : BlankKey := ⟨route ++ [uri], distinct types⟩
      ⟨node, pathSeparator.intercalate (pending ++ [uri]), .blank key, false⟩
        :: links (.blank key) (route ++ [uri]) [] rest

/-- The last node of a route, and the path that is still pending there. -/
def linksEnd (node : Spot) (route pending : List String) :
    List (Step × Option (List String)) → Spot × List String
  | [] => (node, pending)
  | (step, types) :: rest =>
    let uri := step.predicate.uri
    match types with
    | none => linksEnd node (route ++ [uri]) (pending ++ [uri]) rest
    | some types => linksEnd (.blank ⟨route ++ [uri], distinct types⟩) (route ++ [uri]) [] rest

def typedHops (ix : Index) (t : SparqlModel.Triple) : List (Step × Option (List String)) :=
  t.hops.zip (ix.blankTypes t)

def rootSpot (ix : Index) (t : SparqlModel.Triple) : Spot :=
  .var (ix.variableFor t.subject.name)

/-- The links that lead to the variable that a triple produces. -/
def linkEdges (ix : Index) (names : List String) (t : SparqlModel.Triple) : List Edge :=
  match rendering ix names t with
  | .expanded => links (rootSpot ix t) [] [] (typedHops ix t)
  | _ => []

/-- The node and the path by which the variable that a triple produces is reached at the end. -/
def leafStep (ix : Index) (names : List String) (t : SparqlModel.Triple) : Spot × String :=
  match rendering ix names t with
  | .compressed =>
    let anchor := Draft.anchor ix names t
    (.var (ix.variableFor anchor.name),
      pathSeparator.intercalate (ix.propertyPath t.object.name (some anchor.name)))
  | .wholeRoute => (rootSpot ix t, t.path pathSeparator)
  | .expanded =>
    let last := linksEnd (rootSpot ix t) [] [] (typedHops ix t)
    (last.1, pathSeparator.intercalate (last.2 ++ [t.predicate.uri]))

def leafEdge (ix : Index) (names : List String) (name : String) (t : SparqlModel.Triple) : Edge :=
  ⟨(leafStep ix names t).1, (leafStep ix names t).2, .var name, t.predicate.isOptional⟩

/-- The triple from which a variable is drawn. A variable that its own subject produces is not
drawn. -/
def source? (ix : Index) (name : String) : Option SparqlModel.Triple :=
  (ix.producer? name).filter fun t => t.subject.name != name

def edges (ix : Index) (names : List String) (name : String) : List Edge :=
  match source? ix name with
  | none => []
  | some t => linkEdges ix names t ++ [leafEdge ix names name t]

def plan (ix : Index) (names : List String) : List Edge :=
  names.flatMap (edges ix names)

variable {ix : Index} {names : List String} {name : String} {t : SparqlModel.Triple} {e : Edge}

theorem source?_eq_some_iff :
    source? ix name = some t ↔ ix.producer? name = some t ∧ t.subject.name ≠ name := by
  simp [source?, Option.filter_eq_some_iff]

theorem mem_edges_iff : e ∈ edges ix names name ↔
    ∃ t, source? ix name = some t ∧ (e ∈ linkEdges ix names t ∨ e = leafEdge ix names name t) := by
  unfold edges
  cases source? ix name <;> simp

theorem mem_plan_iff : e ∈ plan ix names ↔ ∃ name ∈ names, ∃ t, source? ix name = some t ∧
    (e ∈ linkEdges ix names t ∨ e = leafEdge ix names name t) := by
  simp only [plan, List.mem_flatMap, mem_edges_iff]

theorem leafEdge_mem_plan (hn : name ∈ names) (hs : source? ix name = some t) :
    leafEdge ix names name t ∈ plan ix names :=
  mem_plan_iff.mpr ⟨name, hn, t, hs, Or.inr rfl⟩

theorem links_object {node : Spot} {route pending : List String}
    {hops : List (Step × Option (List String))} (he : e ∈ links node route pending hops) :
    (∃ key, e.object = .blank key) ∧ e.isOptional = false := by
  induction hops generalizing node route pending with
  | nil => simp [links] at he
  | cons hop rest ih =>
    obtain ⟨step, types⟩ := hop
    cases types with
    | none => exact ih he
    | some types =>
      rcases List.mem_cons.mp he with rfl | he
      · exact ⟨⟨_, rfl⟩, rfl⟩
      · exact ih he

theorem links_subject {node : Spot} {route pending : List String}
    {hops : List (Step × Option (List String))} (he : e ∈ links node route pending hops) :
    e.subject = node ∨ ∃ key, e.subject = .blank key := by
  induction hops generalizing node route pending with
  | nil => simp [links] at he
  | cons hop rest ih =>
    obtain ⟨step, types⟩ := hop
    cases types with
    | none => exact ih he
    | some types =>
      rcases List.mem_cons.mp he with rfl | he
      · exact Or.inl rfl
      · exact Or.inr ((ih he).elim (fun h => ⟨_, h⟩) id)

/-- A route ends at the blank node of its last link. -/
theorem linksEnd_eq_getLast (node : Spot) (route pending : List String)
    (hops : List (Step × Option (List String))) :
    (linksEnd node route pending hops).1 =
      ((links node route pending hops).getLast?.map (·.object)).getD node := by
  induction hops generalizing node route pending with
  | nil => rfl
  | cons hop rest ih =>
    obtain ⟨step, types⟩ := hop
    cases types with
    | none => exact ih node _ _
    | some types =>
      rw [linksEnd, links, List.getLast?_cons, ih]
      cases (links _ _ _ rest).getLast? <;> rfl

theorem links_ne_nil {hops : List (Step × Option (List String))}
    (h : ∃ hop ∈ hops, hop.2.isSome) (node : Spot) (route pending : List String) :
    links node route pending hops ≠ [] := by
  induction hops generalizing node route pending with
  | nil => simp at h
  | cons hop rest ih =>
    obtain ⟨step, types⟩ := hop
    cases types with
    | none =>
      obtain ⟨hop, hm, hs⟩ := h
      rcases List.mem_cons.mp hm with rfl | hm
      · cases hs
      · exact ih ⟨hop, hm, hs⟩ node _ _
    | some types => exact List.cons_ne_nil _ _

theorem mem_linkEdges (he : e ∈ linkEdges ix names t) :
    rendering ix names t = .expanded ∧ e ∈ links (rootSpot ix t) [] [] (typedHops ix t) := by
  unfold linkEdges at he
  split at he
  · exact ⟨‹_›, he⟩
  · simp at he

end SparqlModel.Pattern
