import SparqlModel.Graph.Basic
import SparqlModel.Term.Literal
import SparqlModel.Term.Uri

/-!
# Building a subject graph from configuration data

The data is a list of mappings from subject keys to property lists. A subject key is the name of
the subject, which an example URI may follow. The first key of each mapping registers its subject,
and an object that names a registered subject becomes a reference to it. A mapping with the single
key `[]` is a blank node. A whole number with too many digits, as a bound, a name or a class, stops
the building.
-/

namespace SparqlModel

inductive BuildError
  | emptySubjectName
  | severalNames (names : List String)
  | oversizedNumber
deriving DecidableEq

namespace Graph

def splitSubjectKey (key : String) : Except BuildError (String × Option String) :=
  match Text.words key with
  | [] => .error .emptySubjectName
  | name :: rest => .ok (name, rest.head?)

/-- The text of a key or value. A whole number with too many digits has none. -/
def textOf (v : Value) : Except BuildError String :=
  match v.display? with
  | some s => .ok s
  | none => .error .oversizedNumber

def keyText (key : Scalar) : Except BuildError String :=
  textOf (.scalar key)

/-- The names under which references are recognised: the first key of each mapping. -/
def registeredNames : List Value → Except BuildError (List String)
  | [] => .ok []
  | .map ((key, _) :: _) :: rest => do
    let (name, _) ← splitSubjectKey (← keyText key)
    return name :: (← registeredNames rest)
  | _ :: rest => registeredNames rest

/-- The single key `[]`, or the bare text, stands for a blank node. -/
def isBlankNode : Value → Bool
  | .scalar s => s == .text blankName
  | .map [(key, _)] => key == .text blankName
  | _ => false

mutual

/-- The kind of object that an example value makes of a name. -/
def classify (registered : List String) (name : String) : Value → Object
  | .scalar .null => .var name
  | .list items => .choice name (classifyItems registered name items)
  | .scalar (.text s) =>
    if registered.contains (Text.strip s) then .reference name (Text.strip s)
    else if Uri.isUri s then .uri name (Text.strip s)
    else
      let parts := Literal.read (.text s)
      .literal name parts.value parts.lang parts.datatype
  | v => .literal name v none none

def classifyItems (registered : List String) (name : String) : List Value → List Object
  | [] => []
  | v :: rest => classify registered name v :: classifyItems registered name rest

end

/-- A value that is no mapping names a variable, or a subject that is registered. -/
def namedObject (registered : List String) (v : Value) : Except BuildError Object := do
  let name := Text.strip (← textOf v)
  return if registered.contains name then .reference name name else .var name

/-- The class objects of a type predicate: the text of each value that is not null. -/
def typeObjects (items : List Value) : Except BuildError (List Object) :=
  (items.filter fun v => !v.isNull).mapM fun v => return .uri (← textOf v) (← textOf v)

/-- A value that is not a list stands for the list of itself. -/
def asItems : Value → List Value
  | .list items => items
  | v => [v]

/-- A predicate key with its values. The objects that they make are not those of a type predicate. -/
def predicateOf (key : String) (items : List Value) (objects : Except BuildError (List Object)) :
    Except BuildError Predicate :=
  match Cardinality.splitKey? key with
  | none => .error .oversizedNumber
  | some (uri, cardinality) =>
    if isTypeUri uri then do return ⟨uri, cardinality, ← typeObjects items⟩
    else do return ⟨uri, cardinality, ← objects⟩

def blankSubject (predicates : List Predicate) : Subject :=
  ⟨blankName, none, true, predicates⟩

mutual

def buildObject (registered : List String) : Value → Except BuildError Object
  | .map [(key, value)] =>
    if key == .text blankName then do
      return .blank (blankSubject (← buildPredicates registered value))
    else do return classify registered (← keyText key) value
  | .map entries => do
    let names ← entries.mapM fun e => keyText e.1
    .error (.severalNames (names.mergeSort fun a b => a ≤ b))
  | .scalar s =>
    if s == .text blankName then .ok (.blank (blankSubject []))
    else namedObject registered (.scalar s)
  | v => namedObject registered v

/-- The objects of a predicate, without the null entries. -/
def buildObjects (registered : List String) : List Value → Except BuildError (List Object)
  | [] => .ok []
  | .scalar .null :: rest => buildObjects registered rest
  | v :: rest => do
    let o ← buildObject registered v
    return o :: (← buildObjects registered rest)

/-- The property list of a subject or blank node. A mapping stands for the list of itself; what is
not a mapping is passed over. -/
def buildPredicates (registered : List String) : Value → Except BuildError (List Predicate)
  | .list items => buildItems registered items
  | .map entries => buildEntries registered entries
  | _ => .ok []

def buildItems (registered : List String) : List Value → Except BuildError (List Predicate)
  | [] => .ok []
  | .map entries :: rest => do
    let ps ← buildEntries registered entries
    return ps ++ (← buildItems registered rest)
  | _ :: rest => buildItems registered rest

def buildEntries (registered : List String) :
    List (Scalar × Value) → Except BuildError (List Predicate)
  | [] => .ok []
  | e :: rest => do
    let p ← buildEntry registered e
    return p :: (← buildEntries registered rest)

def buildEntry (registered : List String) : Scalar × Value → Except BuildError Predicate
  | (key, .list items) => do
    predicateOf (← keyText key) items (buildObjects registered items)
  | (key, v) => do
    predicateOf (← keyText key) [v]
      (if v.isNull then .ok [] else (buildObject registered v).map fun o => [o])

end

def buildPredicate (registered : List String) (key : String) (value : Value) :
    Except BuildError Predicate :=
  buildEntry registered (.text key, value)

def buildSubjects (registered : List String) :
    List (Scalar × Value) → Except BuildError (List Subject)
  | [] => .ok []
  | (key, value) :: rest => do
    let (name, exampleUri) ← splitSubjectKey (← keyText key)
    let predicates ← buildPredicates registered value
    return ⟨name, exampleUri, false, predicates⟩ :: (← buildSubjects registered rest)

/-- The subjects of all mappings, in the order of the data. -/
def buildAll (registered : List String) : List Value → Except BuildError (List Subject)
  | [] => .ok []
  | .map entries :: rest => do
    let subjects ← buildSubjects registered entries
    return subjects ++ (← buildAll registered rest)
  | _ :: rest => buildAll registered rest

def build (items : List Value) : Except BuildError (List Subject) := do
  buildAll (← registeredNames items) items

end Graph

end SparqlModel
