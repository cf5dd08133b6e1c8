import SparqlModel.Yaml.Token

/-!
# Nodes of a document

The tree that the tokens of a document describe: plain and quoted scalars, sequences, and mappings
with arbitrary nodes as keys. A node may have a tag and an anchor, and an alias stands for another
node. A place without content is an empty plain scalar. A stream holds at most one document, which
starts with a mark if directives stand before it. The tags of the tokens are names in full.

The readers consume tokens and carry a bound on the number of their calls; `Node.ofTokens` gives a
bound that no token list exceeds. A reader that meets a fault among the tokens reports it, and any
other token out of place makes the text malformed.
-/

namespace SparqlModel.Yaml

inductive Node
  | plain (text : String)
  | quoted (text : String)
  | sequence (items : List Node)
  | mapping (entries : List (Node × Node))
  | tagged (tag : String) (content : Node)
  | anchored (name : String) (content : Node)
  | aliasOf (name : String)

/-- The properties in front of a node. -/
structure Properties where
  anchor : Option String
  tag : Option String

namespace Properties

def isEmpty (p : Properties) : Bool :=
  p.anchor.isNone && p.tag.isNone

/-- An anchor and a tag in either order, and the tokens after them. -/
def take : List Token → Properties × List Token
  | .anchor name :: .tag tag :: rest => (⟨some name, some tag.name⟩, rest)
  | .tag tag :: .anchor name :: rest => (⟨some name, some tag.name⟩, rest)
  | .anchor name :: rest => (⟨some name, none⟩, rest)
  | .tag tag :: rest => (⟨none, some tag.name⟩, rest)
  | ts => (⟨none, none⟩, ts)

/-- The unspecific tag makes a scalar plain and leaves a collection as it is. -/
def withTag : Option String → Node → Node
  | none, n => n
  | some tag, n =>
    if tag == unspecificTag then
      match n with
      | .quoted text => .plain text
      | n => n
    else .tagged tag n

def apply (p : Properties) (n : Node) : Node :=
  match p.anchor with
  | none => withTag p.tag n
  | some name => .anchored name (withTag p.tag n)

end Properties

namespace Node

def empty : Node := plain ""

/-- Why a reader cannot go on. -/
def refusal : List Token → Error
  | .fault e :: _ => e
  | _ => .malformed

/-- Collections may lie in each other up to this depth. -/
def nestingLimit : Nat := 486

def opensCollection (t : Token) : Bool :=
  [.blockSequenceStart, .blockMappingStart, .flowSequenceStart, .flowMappingStart].contains t

def closesCollection (t : Token) : Bool :=
  [.blockEnd, .flowSequenceEnd, .flowMappingEnd].contains t

/-- Put a fault in the place of the first collection that lies too deep. -/
def limitNesting (depth : Nat) : List Token → List Token
  | [] => []
  | t :: rest =>
    if opensCollection t then
      if depth < nestingLimit then t :: limitNesting (depth + 1) rest else [.fault .tooDeep]
    else t :: limitNesting (if closesCollection t then depth - 1 else depth) rest

/-- Tokens that end an entry of a block sequence. -/
def endsEntry : List Token → Bool
  | .blockEntry :: _ | .blockEnd :: _ => true
  | _ => false

/-- Tokens that end a key or value of a block mapping. -/
def endsPair : List Token → Bool
  | .key :: _ | .value :: _ | .blockEnd :: _ => true
  | _ => false

/-- Tokens that end an entry of a sequence at the indentation of its mapping. -/
def endsIndentless (ts : List Token) : Bool :=
  endsEntry ts || endsPair ts

/-- Tokens that end a value between brackets. -/
def endsFlow (close : Token) : List Token → Bool
  | t :: _ => t == .flowEntry || t == close
  | [] => false

/-- Tokens that end a key between brackets. -/
def endsFlowKey (close : Token) (ts : List Token) : Bool :=
  ts.head? == some .value || endsFlow close ts

/-- An empty node where one may stand before the given tokens. -/
def emptyContent (mayBeEmpty : Bool) : List Token → Scanned (Node × List Token)
  | .fault e :: _ => .error e
  | ts => if mayBeEmpty then .ok (empty, ts) else .error .malformed

mutual

/-- A node. Block collections are allowed only outside of brackets, and a block sequence without
indentation of its own only as the key or value of a mapping. -/
def read (isBlock isIndentless : Bool) : Nat → List Token → Scanned (Node × List Token)
  | 0, _ => .error .malformed
  | _ + 1, .aliasOf name :: rest => .ok (aliasOf name, rest)
  | fuel + 1, ts => do
    let (properties, ts) := Properties.take ts
    let (content, rest) ← readContent isBlock isIndentless (!properties.isEmpty) fuel ts
    return (properties.apply content, rest)

/-- A node after its properties. It may be empty if there are any. -/
def readContent (isBlock isIndentless mayBeEmpty : Bool) :
    Nat → List Token → Scanned (Node × List Token)
  | 0, _ => .error .malformed
  | fuel + 1, ts =>
    match ts with
    | .plain text :: rest => .ok (plain text, rest)
    | .quoted text :: rest => .ok (quoted text, rest)
    | .flowSequenceStart :: rest => do
      let (items, rest) ← readFlowItems true fuel rest
      return (sequence items, rest)
    | .flowMappingStart :: rest => do
      let (entries, rest) ← readFlowEntries true fuel rest
      return (mapping entries, rest)
    | .blockEntry :: _ =>
      if isIndentless then do
        let (items, rest) ← readIndentless fuel ts
        return (sequence items, rest)
      else emptyContent mayBeEmpty ts
    | .blockSequenceStart :: rest =>
      if isBlock then do
        let (items, rest) ← readItems fuel rest
        return (sequence items, rest)
      else emptyContent mayBeEmpty ts
    | .blockMappingStart :: rest =>
      if isBlock then do
        let (entries, rest) ← readEntries fuel rest
        return (mapping entries, rest)
      else emptyContent mayBeEmpty ts
    | ts => emptyContent mayBeEmpty ts

/-- The entries of a block sequence, up to the end of its block. -/
def readItems : Nat → List Token → Scanned (List Node × List Token)
  | 0, _ => .error .malformed
  | fuel + 1, .blockEntry :: rest => do
    let (item, rest) ← if endsEntry rest then .ok (empty, rest) else read true false fuel rest
    let (items, rest) ← readItems fuel rest
    return (item :: items, rest)
  | _ + 1, .blockEnd :: rest => .ok ([], rest)
  | _ + 1, ts => .error (refusal ts)

/-- The entries of a block sequence without indentation of its own. -/
def readIndentless : Nat → List Token → Scanned (List Node × List Token)
  | 0, _ => .error .malformed
  | fuel + 1, .blockEntry :: rest => do
    let (item, rest) ← if endsIndentless rest then .ok (empty, rest) else read true false fuel rest
    let (items, rest) ← readIndentless fuel rest
    return (item :: items, rest)
  | _ + 1, ts => .ok ([], ts)

/-- The pairs of a block mapping, up to the end of its block. A key without a colon has no value. -/
def readEntries : Nat → List Token → Scanned (List (Node × Node) × List Token)
  | 0, _ => .error .malformed
  | fuel + 1, .key :: rest => do
    let (key, rest) ← if endsPair rest then .ok (empty, rest) else read true true fuel rest
    let (value, rest) ← readValue fuel rest
    let (entries, rest) ← readEntries fuel rest
    return ((key, value) :: entries, rest)
  | _ + 1, .blockEnd :: rest => .ok ([], rest)
  | _ + 1, ts => .error (refusal ts)

def readValue : Nat → List Token → Scanned (Node × List Token)
  | 0, _ => .error .malformed
  | fuel + 1, .value :: rest =>
    if endsPair rest then .ok (empty, rest) else read true true fuel rest
  | _ + 1, ts => .ok (empty, ts)

/-- The items between square brackets, which commas divide. A pair among them is a mapping of its
own. -/
def readFlowItems (isFirst : Bool) : Nat → List Token → Scanned (List Node × List Token)
  | 0, _ => .error .malformed
  | _ + 1, .flowSequenceEnd :: rest => .ok ([], rest)
  | fuel + 1, ts => do
    let rest ← if isFirst then .ok ts else match ts with
      | .flowEntry :: rest => .ok rest
      | ts => .error (refusal ts)
    match rest with
    | .flowSequenceEnd :: rest => return ([], rest)
    | .key :: rest =>
      let (entry, rest) ← readFlowPair .flowSequenceEnd fuel rest
      let (items, rest) ← readFlowItems false fuel rest
      return (mapping [entry] :: items, rest)
    | rest =>
      let (item, rest) ← read false false fuel rest
      let (items, rest) ← readFlowItems false fuel rest
      return (item :: items, rest)

/-- The pairs between braces, which commas divide. A node without a colon is a key without a
value. -/
def readFlowEntries (isFirst : Bool) : Nat → List Token → Scanned (List (Node × Node) × List Token)
  | 0, _ => .error .malformed
  | _ + 1, .flowMappingEnd :: rest => .ok ([], rest)
  | fuel + 1, ts => do
    let rest ← if isFirst then .ok ts else match ts with
      | .flowEntry :: rest => .ok rest
      | ts => .error (refusal ts)
    match rest with
    | .flowMappingEnd :: rest => return ([], rest)
    | .key :: rest =>
      let (entry, rest) ← readFlowPair .flowMappingEnd fuel rest
      let (entries, rest) ← readFlowEntries false fuel rest
      return (entry :: entries, rest)
    | rest =>
      let (key, rest) ← read false false fuel rest
      let (entries, rest) ← readFlowEntries false fuel rest
      return ((key, empty) :: entries, rest)

/-- A pair between brackets, after its key token. -/
def readFlowPair (close : Token) : Nat → List Token → Scanned ((Node × Node) × List Token)
  | 0, _ => .error .malformed
  | fuel + 1, ts => do
    let (key, rest) ← if endsFlowKey close ts then .ok (empty, ts) else read false false fuel ts
    match rest with
    | .value :: rest =>
      if endsFlow close rest then return ((key, empty), rest)
      else
        let (value, rest) ← read false false fuel rest
        return ((key, value), rest)
    | rest => return ((key, empty), rest)

end

/-- Pass over directives. The version of the language is given at most once, and its major number
is one; a handle is declared at most once. -/
def skipDirectives (hasVersion : Bool) (handles : List String) :
    List Token → Scanned (List Token)
  | .directive .other :: rest => skipDirectives hasVersion handles rest
  | .directive (.version major) :: rest =>
    if hasVersion || major != 1 then .error .malformed else skipDirectives true handles rest
  | .directive (.handle name _) :: rest =>
    if handles.contains name then .error .malformed
    else skipDirectives hasVersion (name :: handles) rest
  | ts => .ok ts

/-- After a document only marks of its end may follow. A further document is refused after its
directives have been read. -/
def streamEnd (ts : List Token) : Scanned Unit :=
  match ts.dropWhile (· == .documentEnd) with
  | [] => .ok ()
  | ts => do .error (refusal (← skipDirectives false [] ts))

def endsDocument : List Token → Bool
  | [] => true
  | .documentStart :: _ | .documentEnd :: _ | .directive _ :: _ => true
  | _ => false

def ofMarkedDocument (fuel : Nat) (ts : List Token) : Scanned Node :=
  if endsDocument ts then do
    streamEnd ts
    return empty
  else do
    let (node, rest) ← read true false fuel ts
    streamEnd rest
    return node

/-- The node of the only document of a stream. A stream without a document has none. -/
def ofTokens (ts : List Token) : Scanned (Option Node) :=
  let fuel := 5 * ts.length + 8
  match ts with
  | [] => .ok none
  | .documentStart :: rest => (ofMarkedDocument fuel rest).map some
  | .directive _ :: _ => do
    match ← skipDirectives false [] ts with
    | .documentStart :: rest => (ofMarkedDocument fuel rest).map some
    | rest => .error (refusal rest)
  | ts => do
    let (node, rest) ← read true false fuel ts
    streamEnd rest
    return some node

end Node

end SparqlModel.Yaml
