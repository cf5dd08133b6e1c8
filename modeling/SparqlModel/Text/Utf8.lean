/-!
# Text of a file

Files are encoded in UTF-8, and any convention for the end of a line is read as a line feed. Bytes
are decoded piece by piece; a character may begin in one piece and end in the next. Of a file whose
bytes are not valid, the text up to the piece with the fault is still delivered.
-/

namespace SparqlModel.Text

/-- Carriage returns, with or without a line feed after them, become line feeds. -/
def unifyBreaks : List Char → List Char
  | [] => []
  | '\r' :: '\n' :: cs => '\n' :: unifyBreaks cs
  | '\r' :: cs => '\n' :: unifyBreaks cs
  | c :: cs => c :: unifyBreaks cs

def ofBytes? (bytes : ByteArray) : Option String :=
  (String.fromUTF8? bytes).map fun s => String.ofList (unifyBreaks s.toList)

/-- The number of bytes that are decoded at a time. -/
def pieceSize : Nat := 8192

def characterSize (b : UInt8) : Nat :=
  if 0xc2 ≤ b && b ≤ 0xdf then 2
  else if 0xe0 ≤ b && b ≤ 0xef then 3
  else if 0xf0 ≤ b && b ≤ 0xf4 then 4
  else 1

/-- No bytes, or the first bytes of a character that is not complete. -/
def isBegun : List UInt8 → Bool
  | [] => true
  | b :: rest => rest.length + 1 < characterSize b && rest.all fun b => 0x80 ≤ b && b ≤ 0xbf

/-- The text of the first bytes of a file, without a character that is begun at their end. -/
def ofStart? (bytes : ByteArray) (n : Nat) : Option String :=
  (List.range 4).findSome? fun k =>
    if k ≤ n && isBegun (bytes.extract (n - k) n).toList then ofBytes? (bytes.extract 0 (n - k))
    else none

/-- Decode a number of further pieces, as far as they are valid, after a text that is. -/
def decodePieces (bytes : ByteArray) : Nat → Nat → String → String
  | 0, _, text => text
  | count + 1, n, text =>
    let n := min (n + pieceSize) bytes.size
    match ofStart? bytes n with
    | some text => decodePieces bytes count n text
    | none => text

/-- The text that is delivered before the fault in the bytes of a file is met. -/
def beforeFault (bytes : ByteArray) : String :=
  decodePieces bytes (bytes.size / pieceSize + 1) 0 ""

end SparqlModel.Text
