import SparqlModel.Text.Utf8

/-!
# Sources of documents

A document is read from a text that is known as a whole, or piece by piece from a file. A character
that no document may have, or bytes that are no text, are met as soon as the piece with them is
read. What lies in the pieces before can still be read, and the reader stands one character ahead of
what it looks at.
-/

namespace SparqlModel.Yaml

/-- Why a text has no data. -/
inductive Error
  /-- It is not a document of the supported form. -/
  | malformed
  /-- Its bytes are not valid. -/
  | undecodable
  /-- A scalar in it denotes no value of its type. -/
  | unreadable
  /-- A number in it lies beyond what the arithmetic of its kind can hold. -/
  | overflow
  /-- A number in it has no characters. -/
  | emptyNumber
  /-- A word in it stands for a truth value, but is none. -/
  | unknownTruth
  /-- A text in it stands for a date, but has not the form of one. -/
  | formlessDate
  /-- A mapping in it stands for a date. -/
  | dateMapping
  /-- Its collections lie in each other too deep or without end. -/
  | tooDeep
deriving DecidableEq

abbrev Scanned (α : Type) := Except Error α

def nextLine : Char := '\x85'

/-- Characters that a document may have. -/
def isAllowed (c : Char) : Bool :=
  c == '\t' || c == '\n' || c == '\r' || c == nextLine || (32 ≤ c.toNat && c.toNat ≤ 126)
    || (0xa0 ≤ c.toNat && c.toNat ≤ 0xfffd) || 0x10000 ≤ c.toNat

/-- The characters that can be read, and the error of reading further, unless they are all. -/
structure Source where
  text : List Char
  beyond : Option Error

namespace Source

def ofText (s : String) : Source :=
  if s.toList.all isAllowed then ⟨s.toList, none⟩ else ⟨[], some .malformed⟩

/-- The number of characters in a piece. The first two pieces are read at once. -/
def pieceLength : Nat := 4096

def pieceStart (place : Nat) : Nat :=
  if place < 2 * pieceLength then 0 else place / pieceLength * pieceLength

/-- A text whose pieces from a place on cannot be read. -/
def cut (cs : List Char) (place : Nat) (error : Error) : Source :=
  ⟨cs.take (pieceStart place - 1), some error⟩

/-- A text that is read piece by piece, with what comes after it. -/
def ofPieces (cs : List Char) (beyond : Option Error) : Source :=
  let place := cs.findIdx fun c => !isAllowed c
  match beyond with
  | some e =>
    if pieceStart place < pieceStart cs.length then cut cs place .malformed
    else cut cs cs.length e
  | none => if place < cs.length then cut cs place .malformed else ⟨cs, none⟩

/-- A file that is read piece by piece. -/
def ofBytes (bytes : ByteArray) : Source :=
  match Text.ofBytes? bytes with
  | some s => ofPieces s.toList none
  | none => ofPieces (Text.beforeFault bytes).toList (some .undecodable)

end Source

end SparqlModel.Yaml
