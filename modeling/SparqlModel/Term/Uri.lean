import SparqlModel.Text.Blank
import SparqlModel.Text.Word
import SparqlModel.Value.Display

/-!
# URI notation

A URI is written in full between angle brackets, or as a compact form `label:local` whose label
abbreviates a namespace. The label may be empty. The prefix of a compact form is the run of word
characters before its first colon.
-/

namespace SparqlModel.Uri

/-- A full IRI: at least one character between angle brackets, and no line feed. -/
def isBracketed (s : String) : Bool :=
  match s.toList with
  | '<' :: rest =>
    match rest.reverse with
    | '>' :: inner => !inner.isEmpty && !inner.contains '\n'
    | _ => false
  | _ => false

/-- What stands after the colon of a compact form: no blanks, and no slash at the start. -/
def isLocalName : List Char → Bool
  | [] => false
  | c :: cs => c != '/' && (c :: cs).all fun c => !Text.isBlank c

/-- A label is empty or starts with a letter of the basic alphabet or an underscore; dots and
hyphens may follow. -/
def isLabel : List Char → Bool
  | [] => true
  | c :: cs => (c.isAlpha || c == '_') && cs.all fun c => Text.isWord c || c == '.' || c == '-'

/-- A compact form, divided at its first colon. -/
def isCompact (s : String) : Bool :=
  match s.toList.dropWhile (· != ':') with
  | _ :: rest => isLabel (s.toList.takeWhile (· != ':')) && isLocalName rest
  | [] => false

/-- A text that denotes a URI rather than a literal, blanks at its ends aside. -/
def isUri (s : String) : Bool :=
  isBracketed (Text.strip s) || isCompact (Text.strip s)

/-- The prefix that a URI relies on. Full IRIs rely on none. -/
def prefixOf? (s : String) : Option String :=
  if isBracketed s then none
  else
    let label := s.toList.takeWhile Text.isWord
    match s.toList.dropWhile Text.isWord with
    | ':' :: _ => if label.isEmpty then none else some (String.ofList label)
    | _ => none

/-- The IRI of a namespace, without blanks and angle brackets around it. -/
def namespaceIri (s : String) : String :=
  String.ofList (Text.trimBy (fun c => c == '<' || c == '>') (Text.strip s).toList)

def isUriValue : Value → Bool
  | .scalar (.text s) => isUri s
  | _ => false

/-- Null has no prefix; any other value is taken by its text. -/
def prefixOfValue? (v : Value) : Option String :=
  if v.isNull then none else prefixOf? v.display

end SparqlModel.Uri
