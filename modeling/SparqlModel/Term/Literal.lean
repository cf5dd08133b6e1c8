import SparqlModel.Text.Blank
import SparqlModel.Text.Split
import SparqlModel.Value.Basic

/-!
# Literal notation

An example literal is written as it is, or between double quotes, after which a language tag or a
datatype may follow. Quotes inside the text need no escape: the closing quote is the last one that
leaves a tail of the right form. In generated patterns a literal is quoted and escaped; a text of
several lines takes three quotes.
-/

namespace SparqlModel.Literal

/-- An example value with the language tag or the datatype that its notation gives. -/
structure Parts where
  value : Value
  lang : Option String
  datatype : Option String

/-- Subtags of letters and digits after the first one, divided by hyphens. The flag tells whether
the current subtag has a character. -/
def isSubtags : Bool → List Char → Bool
  | started, [] => started
  | started, '-' :: cs => started && isSubtags false cs
  | _, c :: cs => c.isAlphanum && isSubtags true cs

def isTagFrom : Bool → List Char → Bool
  | started, [] => started
  | started, '-' :: cs => started && isSubtags false cs
  | _, c :: cs => c.isAlpha && isTagFrom true cs

/-- Letters, then any number of subtags. -/
def isLanguageTag (cs : List Char) : Bool :=
  isTagFrom false cs

def languageTail? : List Char → Option String
  | '\x22' :: '@' :: tag => if isLanguageTag tag then some (String.ofList tag) else none
  | _ => none

def datatypeTail? : List Char → Option String
  | '\x22' :: '^' :: '^' :: d =>
    if !d.isEmpty && d.all (fun c => !Text.isBlank c) then some (String.ofList d) else none
  | _ => none

def closingTail? : List Char → Option Unit
  | ['\x22'] => some ()
  | _ => none

/-- The parts of a quoted text: its content, its language tag and its datatype. -/
def quotedParts? (cs : List Char) : Option (List Char × Option String × Option String) :=
  match cs with
  | '\x22' :: rest =>
    match Text.splitLast? languageTail? rest with
    | some (t, lang) => some (t, some lang, none)
    | none =>
      match Text.splitLast? datatypeTail? rest with
      | some (t, datatype) => some (t, none, some datatype)
      | none => (Text.splitLast? closingTail? rest).map fun r => (r.1, none, none)
  | _ => none

/-- Read an example value. What is not quoted text is kept as it is, blanks included. -/
def read : Value → Parts
  | .scalar (.text s) =>
    match quotedParts? (Text.strip s).toList with
    | some (t, lang, datatype) => ⟨.text (String.ofList t), lang, datatype⟩
    | none => ⟨.text s, none, none⟩
  | v => ⟨v, none, none⟩

def escapeChar : Char → List Char
  | '\\' => ['\\', '\\']
  | '\x22' => ['\\', '\x22']
  | '\r' => ['\\', 'r']
  | c => [c]

def escapeBackslash : Char → List Char
  | '\\' => ['\\', '\\']
  | c => [c]

def escapeReturn : Char → List Char
  | '\r' => ['\\', 'r']
  | c => [c]

/-- A quote at the very end would join the closing quotes, so it takes a backslash unless one stands
before it. -/
def guardLastQuote (cs : List Char) : List Char :=
  match cs.reverse with
  | '\x22' :: '\\' :: _ => cs
  | '\x22' :: before => before.reverse ++ ['\\', '\x22']
  | _ => cs

/-- The content of a text of several lines between three quotes. -/
def escapeLines (cs : List Char) : List Char :=
  let triple := ['\x22', '\x22', '\x22']
  let escaped := cs.flatMap escapeBackslash
  let escaped :=
    if Text.occursIn triple cs then
      Text.replaceAll triple ['\\', '\x22', '\\', '\x22', '\\', '\x22'] escaped
    else escaped
  (guardLastQuote escaped).flatMap escapeReturn

def encode (s : String) : String :=
  if s.toList.contains '\n' then
    "\x22\x22\x22" ++ String.ofList (escapeLines s.toList) ++ "\x22\x22\x22"
  else "\x22" ++ String.ofList (s.toList.flatMap escapeChar) ++ "\x22"

end SparqlModel.Literal
