import SparqlModel.Yaml.Source

/-!
# Positions in a document

A cursor is the text that is still to be read, with the number of characters in it and before it,
and its line and column. A byte order mark takes no column. If there is more behind the text that
cannot be read, the cursor knows why.
-/

namespace SparqlModel.Yaml

def lineSeparator : Char := '\u2028'

def paragraphSeparator : Char := '\u2029'

def byteOrderMark : Char := '\ufeff'

def isBreak (c : Char) : Bool :=
  c == '\n' || c == '\r' || c == nextLine || c == lineSeparator || c == paragraphSeparator

def isGap (c : Char) : Bool :=
  c == ' ' || c == '\t' || isBreak c

/-- Letters of names that the notation itself uses. -/
def isNameLetter (c : Char) : Bool :=
  c.isAlphanum || c == '-' || c == '_'

def isGapOrEnd : Option Char → Bool
  | none => true
  | some c => isGap c

structure Cursor where
  rest : List Char
  left : Nat
  offset : Nat
  line : Nat
  column : Nat
  beyond : Option Error

namespace Cursor

def start (s : Source) : Cursor := ⟨s.text, s.text.length, 0, 0, 0, s.beyond⟩

/-- The error of having come to the end of what can be read. -/
def obstacle? (c : Cursor) : Option Error :=
  if c.rest.isEmpty then c.beyond else none

def refuse {α : Type} (c : Cursor) : Scanned α :=
  .error (c.obstacle?.getD .malformed)

def peek? (c : Cursor) : Option Char :=
  c.rest.head?

/-- Move over one character. A carriage return before a line feed does not end the line. -/
def next (c : Cursor) : Cursor :=
  match c.rest with
  | [] => c
  | ch :: rest =>
    if isBreak ch && !(ch == '\r' && rest.head? == some '\n') then
      { c with
        rest, left := c.left - 1, offset := c.offset + 1, line := c.line + 1, column := 0 }
    else
      { c with
        rest, left := c.left - 1, offset := c.offset + 1
        column := if ch == byteOrderMark then c.column else c.column + 1 }

def skip : Nat → Cursor → Cursor
  | 0, c => c
  | n + 1, c => skip n c.next

/-- The longest run of characters of a class, and the cursor after it. -/
def run (p : Char → Bool) (c : Cursor) : List Char × Cursor :=
  let cs := c.rest.takeWhile p
  (cs, c.skip cs.length)

def skipWhile (p : Char → Bool) (c : Cursor) : Cursor :=
  (c.run p).2

/-- A line break at the cursor, as it counts in scalars, and the cursor after it. -/
def lineBreak? (c : Cursor) : Option (Char × Cursor) :=
  match c.rest with
  | '\r' :: '\n' :: _ => some ('\n', c.skip 2)
  | ch :: _ =>
    if ch == lineSeparator || ch == paragraphSeparator then some (ch, c.next)
    else if isBreak ch then some ('\n', c.next)
    else none
  | [] => none

/-- A line of three hyphens or three dots starts or ends a document. -/
def atMark (mark : Char) (c : Cursor) : Bool :=
  match c.rest with
  | x :: y :: z :: rest => x == mark && y == mark && z == mark && isGapOrEnd rest.head?
  | _ => false

def atDocumentMark (c : Cursor) : Bool :=
  c.atMark '-' || c.atMark '.'

end Cursor

/-- A space, a line break or the end of the text. -/
def endsWord (c : Cursor) : Bool :=
  c.peek?.all fun ch => ch == ' ' || isBreak ch

end SparqlModel.Yaml
