import SparqlModel.Yaml.Cursor

/-!
# Text of scalars

Plain scalars run over lines that are indented deeper than their block, quoted scalars over any
lines; a line break inside them is folded into a space unless blank lines follow. Block scalars keep
their lines, or fold them, and a mark in their header decides about the breaks at the end.

Loops over lines carry a bound, which is the number of characters that are left, and the text that
has been read, its last character first.
-/

namespace SparqlModel.Yaml

/-- A folded line break: a space, or the blank lines after it. Separators of lines and paragraphs
are kept. -/
def foldBreak (first : Char) (blankLines : List Char) : List Char :=
  (if first != '\n' then [first] else if blankLines.isEmpty then [' '] else []) ++ blankLines

/-! ## Plain scalars -/

/-- Characters that end a plain scalar inside brackets. -/
def isFlowMark (c : Char) : Bool :=
  [',', '[', ']', '\x7b', '\x7d'].contains c

/-- A colon ends a plain scalar before a gap, and inside brackets also before a bracket or comma. -/
def endsAfterColon (inFlow : Bool) : Option Char → Bool
  | none => true
  | some c => isGap c || (inFlow && isFlowMark c)

/-- The part of a plain scalar up to the next gap. -/
def plainRun (inFlow : Bool) : List Char → List Char
  | [] => []
  | c :: cs =>
    if isGap c || (c == ':' && endsAfterColon inFlow cs.head?)
        || (inFlow && (isFlowMark c || c == '?')) then []
    else c :: plainRun inFlow cs

/-- Blank lines after a line break in a plain scalar, the last one first. The flag tells that a
document mark was met. -/
def plainBlankLines : Nat → Cursor → List Char → List Char × Bool × Cursor
  | 0, c, acc => (acc, false, c)
  | fuel + 1, c, acc =>
    if c.peek? == some ' ' then plainBlankLines fuel c.next acc
    else match c.lineBreak? with
      | none => (acc, false, c)
      | some (b, c) =>
        if c.atDocumentMark then (acc, true, c) else plainBlankLines fuel c (b :: acc)

/-- The gap after a part of a plain scalar, and whether it runs over a line break. An empty gap ends
the scalar. -/
def plainGap (c : Cursor) : List Char × Bool × Cursor :=
  let (spaces, c) := c.run (· == ' ')
  match c.lineBreak? with
  | none => (spaces, false, c)
  | some (b, c) =>
    if c.atDocumentMark then ([], true, c)
    else
      let (blankLines, atEnd, c) := plainBlankLines c.left c []
      (if atEnd then [] else foldBreak b blankLines.reverse, true, c)

/-- Parts of a plain scalar with the gaps between them. The flag of the result tells that the scalar
ended at the start of a line. -/
def plainParts (inFlow : Bool) (indent : Int) :
    Nat → Cursor → List Char → List Char → Bool → List Char × Bool × Cursor
  | 0, c, text, _, atLineStart => (text.reverse, atLineStart, c)
  | fuel + 1, c, text, gap, atLineStart =>
    let part := plainRun inFlow c.rest
    if c.peek? == some '#' || part.isEmpty then (text.reverse, atLineStart, c)
    else
      let text := part.reverseAux (gap.reverseAux text)
      let (gap, overBreak, c) := plainGap (c.skip part.length)
      if gap.isEmpty || c.peek? == some '#' || (!inFlow && (c.column : Int) < indent) then
        (text.reverse, overBreak, c)
      else plainParts inFlow indent fuel c text gap overBreak

/-- A plain scalar whose further lines need at least the given column. -/
def plainScalar (inFlow : Bool) (indent : Int) (c : Cursor) : List Char × Bool × Cursor :=
  plainParts inFlow indent c.left c [] [] false

/-! ## Quoted scalars -/

/-- The characters that a backslash and a letter stand for. -/
def escapes : List (Char × Char) :=
  [('0', '\x00'), ('a', '\x07'), ('b', '\x08'), ('t', '\t'), ('\t', '\t'), ('n', '\n'),
    ('v', '\x0b'), ('f', '\x0c'), ('r', '\r'), ('e', '\x1b'), (' ', ' '), ('\x22', '\x22'),
    ('\\', '\\'), ('/', '/'), ('N', '\x85'), ('_', '\xa0'), ('L', lineSeparator),
    ('P', paragraphSeparator)]

/-- The number of hexadecimal digits after an escape letter. -/
def codeLength? : Char → Option Nat
  | 'x' => some 2
  | 'u' => some 4
  | 'U' => some 8
  | _ => none

def hexValue? (c : Char) : Option Nat :=
  if c.isDigit then some (c.toNat - 48)
  else if 'a' ≤ c && c ≤ 'f' then some (c.toNat - 87)
  else if 'A' ≤ c && c ≤ 'F' then some (c.toNat - 55)
  else none

/-- The character with a code point in hexadecimal. Surrogates are none, nor is there one beyond the
last code point, and a code point has less than 32 bits. -/
def readCode (cs : List Char) : Scanned Char :=
  match cs.mapM hexValue? with
  | none => .error .malformed
  | some ds =>
    let n := ds.foldl (fun n d => 16 * n + d) 0
    if n.isValidChar then .ok (Char.ofNat n)
    else if n < 0x80000000 then .error .unreadable
    else .error .overflow

/-- Blank lines inside a quoted scalar, where no document mark may stand. -/
def quotedBlankLines : Nat → Cursor → List Char → Scanned (List Char × Cursor)
  | 0, c, acc => .ok (acc.reverse, c)
  | fuel + 1, c, acc =>
    if c.atDocumentMark then .error .malformed
    else
      let c := c.skipWhile fun ch => ch == ' ' || ch == '\t'
      match c.lineBreak? with
      | none => .ok (acc.reverse, c)
      | some (b, c) => quotedBlankLines fuel c (b :: acc)

/-- What a backslash in a double-quoted scalar stands for, read from the character after it. -/
def escaped (c : Cursor) : Scanned (List Char × Cursor) :=
  match c.peek? with
  | none => c.refuse
  | some ch =>
    match escapes.lookup ch, codeLength? ch with
    | some r, _ => .ok ([r], c.next)
    | none, some n =>
      let digits := c.next.rest.take n
      if digits.length = n then do return ([← readCode digits], c.next.skip n)
      else (c.next.skipWhile fun ch => (hexValue? ch).isSome).refuse
    | none, none =>
      match c.lineBreak? with
      | some (_, c) => quotedBlankLines (c.left + 1) c []
      | none => .error .malformed

/-- The gap inside a quoted scalar: spaces and tabs are kept within a line and dropped around a line
break. -/
def quotedGap (c : Cursor) : Scanned (List Char × Cursor) :=
  let (spaces, c) := c.run fun ch => ch == ' ' || ch == '\t'
  match c.lineBreak? with
  | none => .ok (spaces, c)
  | some (b, c) => do
    let (blankLines, c) ← quotedBlankLines (c.left + 1) c []
    return (foldBreak b blankLines, c)

/-- The content of a quoted scalar up to its closing quote, after which the cursor is left. -/
def quotedParts (quote : Char) : Nat → Cursor → List Char → Scanned (List Char × Cursor)
  | 0, _, _ => .error .malformed
  | fuel + 1, c, text =>
    match c.rest with
    | [] => c.refuse
    | ch :: rest =>
      if ch == quote then
        if quote == '\x27' && rest.head? == some quote then
          quotedParts quote fuel (c.skip 2) (quote :: text)
        else .ok (text.reverse, c.next)
      else if ch == '\\' && quote == '\x22' then do
        let (r, c) ← escaped c.next
        quotedParts quote fuel c (r.reverseAux text)
      else if isGap ch then do
        let (gap, c) ← quotedGap c
        quotedParts quote fuel c (gap.reverseAux text)
      else quotedParts quote fuel c.next (ch :: text)

def quotedScalar (c : Cursor) : Scanned (List Char × Cursor) :=
  match c.peek? with
  | none => c.refuse
  | some quote => quotedParts quote (c.left + 1) c.next []

/-! ## Block scalars -/

/-- What happens to the line breaks at the end of a block scalar. -/
inductive Chomping
  | clip
  | strip
  | keep
deriving DecidableEq

def chomping? : Option Char → Option Chomping
  | some '+' => some .keep
  | some '-' => some .strip
  | _ => none

/-- An indentation of zero cannot be given. -/
def increment? : Option Char → Scanned (Option Nat)
  | some c =>
    if c == '0' then .error .malformed
    else if c.isDigit then .ok (some (c.toNat - 48))
    else .ok none
  | none => .ok none

/-- The marks in the header of a block scalar, in either order. -/
def blockMarks (c : Cursor) : Scanned (Chomping × Option Nat × Cursor) :=
  match chomping? c.peek? with
  | some k => do
    match ← increment? c.next.peek? with
    | some n => return (k, some n, c.skip 2)
    | none => return (k, none, c.next)
  | none => do
    match ← increment? c.peek? with
    | some n =>
      match chomping? c.next.peek? with
      | some k => return (k, some n, c.skip 2)
      | none => return (.clip, some n, c.next)
    | none => return (.clip, none, c)

/-- The rest of a header: nothing but spaces and a comment. -/
def blockHeaderEnd (c : Cursor) : Scanned Cursor :=
  if !endsWord c then .error .malformed
  else
    let c := c.skipWhile (· == ' ')
    let c := if c.peek? == some '#' then c.skipWhile fun ch => !isBreak ch else c
    match c.peek? with
    | none => .ok c
    | some _ =>
      match c.lineBreak? with
      | some (_, c) => .ok c
      | none => .error .malformed

/-- Blank lines before the first line of a block scalar, with the largest indentation met. -/
def blockIndentation : Nat → Cursor → List Char → Nat → List Char × Nat × Cursor
  | 0, c, acc, widest => (acc.reverse, widest, c)
  | fuel + 1, c, acc, widest =>
    if c.peek? == some ' ' then
      blockIndentation fuel c.next acc (max widest c.next.column)
    else match c.lineBreak? with
      | some (b, c) => blockIndentation fuel c (b :: acc) widest
      | none => (acc.reverse, widest, c)

def skipIndent (indent : Nat) : Nat → Cursor → Cursor
  | 0, c => c
  | fuel + 1, c =>
    if c.column < indent && c.peek? == some ' ' then skipIndent indent fuel c.next else c

def blockBlankLines (indent : Nat) : Nat → Cursor → List Char → List Char × Cursor
  | 0, c, acc => (acc.reverse, c)
  | fuel + 1, c, acc =>
    let c := skipIndent indent c.left c
    match c.lineBreak? with
    | some (b, c) => blockBlankLines indent fuel c (b :: acc)
    | none => (acc.reverse, c)

/-- The lines of a block scalar. The result is its text, the break after its last line and the blank
lines after that. -/
def blockLines (folded : Bool) (indent : Nat) :
    Nat → Cursor → List Char → List Char → List Char × List Char × List Char × Cursor
  | 0, c, text, blankLines => (text.reverse, [], blankLines, c)
  | fuel + 1, c, text, blankLines =>
    let text := blankLines.reverseAux text
    let isText := fun (c : Cursor) => !(c.peek?.any fun ch => ch == ' ' || ch == '\t')
    let leading := isText c
    let (line, c) := c.run fun ch => !isBreak ch
    let text := line.reverseAux text
    let (lineEnd, c) := match c.lineBreak? with
      | some (b, c) => ([b], c)
      | none => ([], c)
    let (blankLines, c) := blockBlankLines indent (c.left + 1) c []
    if c.column == indent && c.peek?.isSome then
      let joined :=
        if folded && lineEnd == ['\n'] && leading && isText c then
          if blankLines.isEmpty then [' '] else []
        else lineEnd
      blockLines folded indent fuel c (joined.reverseAux text) blankLines
    else (text.reverse, lineEnd, blankLines, c)

/-- A block scalar under a block of the given indentation. The cursor is at its first mark. -/
def blockScalar (folded : Bool) (parent : Int) (c : Cursor) : Scanned (List Char × Cursor) := do
  let (chomping, increment, c) ← blockMarks c.next
  let c ← blockHeaderEnd c
  let least := (max (parent + 1) 1).toNat
  let (indent, blankLines, c) := match increment with
    | none =>
      let (blankLines, widest, c) := blockIndentation (c.left + 1) c [] 0
      (max least widest, blankLines, c)
    | some n =>
      let indent := least + n - 1
      let (blankLines, c) := blockBlankLines indent (c.left + 1) c []
      (indent, blankLines, c)
  let (text, lineEnd, blankLines, c) :=
    if c.column == indent && c.peek?.isSome then
      blockLines folded indent (c.left + 1) c [] blankLines
    else ([], [], blankLines, c)
  let text := if chomping == .strip then text else text ++ lineEnd
  return (if chomping == .keep then text ++ blankLines else text, c)

end SparqlModel.Yaml
