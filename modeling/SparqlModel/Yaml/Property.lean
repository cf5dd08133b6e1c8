import SparqlModel.Yaml.ScalarText

/-!
# Properties of nodes

An anchor gives a node a name, under which an alias repeats the node. A tag names the type of a
node. It is written in full between angle brackets, or as a handle and the rest of the name. A
handle is one exclamation mark, two of them, or a name between two. An exclamation mark alone is
the unspecific tag.
-/

namespace SparqlModel.Yaml

/-- The name after the mark of an anchor or alias. -/
def anchorName (c : Cursor) : Scanned (String × Cursor) :=
  let (name, c) := c.next.run isNameLetter
  let ends := c.peek?.all fun ch =>
    isGap ch || ['?', ':', ',', ']', '\x7d', '%', '@', '\x60'].contains ch
  if name.isEmpty || !ends then c.refuse else .ok (String.ofList name, c)

def isTagLetter (c : Char) : Bool :=
  c.isAlphanum || "-;/?:@&=+$,_.!~*()[]%".toList.contains c || c == '\x27'

/-- The bytes of a text of the basic alphabet in which a percent sign and two hexadecimal digits
stand for any byte. -/
def percentBytes? : List Char → Option (List UInt8)
  | [] => some []
  | '%' :: a :: b :: rest => do
    let high ← hexValue? a
    let low ← hexValue? b
    return UInt8.ofNat (16 * high + low) :: (← percentBytes? rest)
  | c :: rest => if c == '%' then none else (percentBytes? rest).map (UInt8.ofNat c.toNat :: ·)

def tagPart (c : Cursor) : Scanned (String × Cursor) :=
  let (cs, c) := c.run isTagLetter
  match (percentBytes? cs).bind fun bytes => String.fromUTF8? ⟨bytes.toArray⟩ with
  | some text => if cs.isEmpty then c.refuse else .ok (text, c)
  | none => c.refuse

/-- A handle whose first exclamation mark is at the cursor. Before a space it is that mark alone. -/
def tagHandle (c : Cursor) : Scanned (String × Cursor) :=
  if c.next.peek? == some ' ' then .ok ("!", c.next)
  else
    let (name, c) := c.next.run isNameLetter
    if c.peek? == some '!' then .ok ("!" ++ String.ofList name ++ "!", c.next) else c.refuse

/-- A tag as it is written: its handle, if it has one, and the rest of its name. -/
structure WrittenTag where
  handle : Option String
  name : String
deriving DecidableEq

def unspecificTag : String := "!"

def standardTag (name : String) : String :=
  "tag:yaml.org,2002:" ++ name

/-- A tag before the space or line break that has to follow it. -/
def wholeTag (tag : WrittenTag) (c : Cursor) : Scanned (WrittenTag × Cursor) :=
  if endsWord c then .ok (tag, c) else c.refuse

/-- A tag whose exclamation mark is at the cursor. -/
def readTag (c : Cursor) : Scanned (WrittenTag × Cursor) :=
  if c.next.peek? == some '<' then do
    let (name, c) ← tagPart (c.skip 2)
    if c.peek? == some '>' then wholeTag ⟨none, name⟩ c.next else c.refuse
  else if isGapOrEnd c.next.peek? then wholeTag ⟨none, unspecificTag⟩ c.next
  else do
    let word := c.next.rest.takeWhile fun ch => !(ch == ' ' || isBreak ch)
    let (handle, c) ← if word.contains '!' then tagHandle c else .ok ("!", c.next)
    let (name, c) ← tagPart c
    wholeTag ⟨some handle, name⟩ c

end SparqlModel.Yaml
