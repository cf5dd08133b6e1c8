import SparqlModel.Text.Digit
import SparqlModel.Yaml.Property

/-!
# Directives

A line that starts with a percent sign is a directive to the reader of the document that follows. A
`YAML` directive names the version of the language, of which only the major number matters. A `TAG`
directive says what a handle stands for in tags. Other directives are passed over.
-/

namespace SparqlModel.Yaml

inductive Directive
  | version (major : Nat)
  | handle (name meaning : String)
  | other
deriving DecidableEq

def directiveName (c : Cursor) : Scanned (List Char × Cursor) :=
  let (name, c) := c.run isNameLetter
  if name.isEmpty || !endsWord c then c.refuse else .ok (name, c)

def versionNumber (c : Cursor) : Scanned (Nat × Cursor) :=
  let (digits, c) := c.run Char.isDigit
  if digits.isEmpty then c.refuse
  else
    match Text.readNat? digits with
    | some n => .ok (n, c)
    | none => .error .unreadable

/-- A version of two numbers, of which the first is returned. -/
def version (c : Cursor) : Scanned (Nat × Cursor) := do
  let (major, c) ← versionNumber (c.skipWhile (· == ' '))
  if c.peek? == some '.' then
    let (_, c) ← versionNumber c.next
    if endsWord c then return (major, c) else c.refuse
  else c.refuse

/-- A handle and what it stands for, both after spaces. -/
def handleMeaning (c : Cursor) : Scanned (String × String × Cursor) := do
  let c := c.skipWhile (· == ' ')
  if c.peek? != some '!' then c.refuse
  else
    let (name, c) ← tagHandle c
    if c.peek? != some ' ' then c.refuse
    else
      let (meaning, c) ← tagPart (c.skipWhile (· == ' '))
      if endsWord c then return (name, meaning, c) else c.refuse

/-- The rest of the line of a directive: nothing but spaces and a comment. -/
def directiveEnd (c : Cursor) : Scanned Cursor :=
  let c := c.skipWhile (· == ' ')
  let c := if c.peek? == some '#' then c.skipWhile fun ch => !isBreak ch else c
  match c.peek?, c.lineBreak? with
  | none, _ => .ok c
  | some _, some (_, c) => .ok c
  | some _, none => .error .malformed

/-- A directive with its percent sign at the cursor. -/
def directive (c : Cursor) : Scanned (Directive × Cursor) := do
  let (name, c) ← directiveName c.next
  if name == "YAML".toList then
    let (major, c) ← version c
    return (.version major, ← directiveEnd c)
  else if name == "TAG".toList then
    let (name, meaning, c) ← handleMeaning c
    return (.handle name meaning, ← directiveEnd c)
  else return (.other, ← directiveEnd (c.skipWhile fun ch => !isBreak ch))

end SparqlModel.Yaml
