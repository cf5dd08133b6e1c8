import SparqlModel.Yaml.Directive

/-!
# Tokens of a document

Indentation opens and closes blocks. A scalar or a bracket that a colon follows on the same line
is a key; this is known only at the colon, so the place of a possible key is remembered, and the
key token is put there afterwards. A possible key at the indentation of its block has to become
one.

A text that cannot be divided further ends in a token for the fault. The tokens before it are those
that were settled when the faulty part was met.
-/

namespace SparqlModel.Yaml

inductive Token
  | directive (directive : Directive)
  | documentStart
  | documentEnd
  | blockSequenceStart
  | blockMappingStart
  | blockEnd
  | flowSequenceStart
  | flowSequenceEnd
  | flowMappingStart
  | flowMappingEnd
  | blockEntry
  | flowEntry
  | key
  | value
  | anchor (name : String)
  | aliasOf (name : String)
  | tag (tag : WrittenTag)
  | plain (text : String)
  | quoted (text : String)
  | fault (error : Error)
deriving DecidableEq

/-- Where a key may have started: its place among the tokens and in the text. -/
structure PossibleKey where
  token : Nat
  isRequired : Bool
  offset : Nat
  line : Nat
  column : Nat

/-- The state between two tokens. The tokens so far are counted, and the last one comes first. The
column of the current block is `-1` outside of all blocks, and the possible keys are listed with
their depth of brackets. -/
structure Scan where
  cursor : Cursor
  tokens : List Token
  count : Nat
  indent : Int
  outer : List Int
  depth : Nat
  keyAllowed : Bool
  keys : List (Nat × PossibleKey)

namespace Scan

def start (source : Source) : Scan :=
  ⟨.start source, [], 0, -1, [], 0, true, []⟩

def inFlow (s : Scan) : Bool :=
  s.depth != 0

def emit (s : Scan) (t : Token) : Scan :=
  { s with tokens := t :: s.tokens, count := s.count + 1 }

/-- Emit a token for a number of characters. -/
def take (s : Scan) (n : Nat) (t : Token) : Scan :=
  { s.emit t with cursor := s.cursor.skip n }

/-- Pass over spaces, comments and line breaks. Outside of brackets a key may start after a line
break. -/
def toNextToken : Nat → Scan → Scan
  | 0, s => s
  | fuel + 1, s =>
    let c := s.cursor.skipWhile (· == ' ')
    let c := if c.peek? == some '#' then c.skipWhile fun ch => !isBreak ch else c
    match c.lineBreak? with
    | some (_, c) =>
      toNextToken fuel { s with cursor := c, keyAllowed := s.keyAllowed || !s.inFlow }
    | none => { s with cursor := c }

def skipByteOrderMark (s : Scan) : Scan :=
  if s.cursor.offset = 0 && s.cursor.peek? == some byteOrderMark then
    { s with cursor := s.cursor.next }
  else s

/-- A key ends on its line and is not longer than 1024 characters. -/
def isStale (c : Cursor) (k : PossibleKey) : Bool :=
  k.line != c.line || 1024 < c.offset - k.offset

def dropStaleKeys (s : Scan) : Scanned Scan :=
  if s.keys.any fun k => isStale s.cursor k.2 && k.2.isRequired then .error .malformed
  else .ok { s with keys := s.keys.filter fun k => !isStale s.cursor k.2 }

def possibleKey? (s : Scan) : Option PossibleKey :=
  s.keys.lookup s.depth

def forgetKey (s : Scan) : Scan :=
  { s with keys := s.keys.filter fun k => k.1 != s.depth }

/-- Give up the possible key at this depth. -/
def dropKey (s : Scan) : Scanned Scan :=
  match s.possibleKey? with
  | some k => if k.isRequired then .error .malformed else .ok s.forgetKey
  | none => .ok s

/-- Remember that the next token may start a key. -/
def saveKey (s : Scan) : Scanned Scan :=
  if s.keyAllowed then do
    let c := s.cursor
    let isRequired := !s.inFlow && s.indent == (c.column : Int)
    let s ← s.dropKey
    return { s with
      keys := s.keys ++ [(s.depth, ⟨s.count, isRequired, c.offset, c.line, c.column⟩)] }
  else .ok s

/-- Close the blocks that are indented deeper than a column. Brackets suspend indentation. -/
def closeBlocks (column : Int) : Nat → Scan → Scan
  | 0, s => s
  | fuel + 1, s =>
    if s.inFlow || s.indent ≤ column then s
    else
      closeBlocks column fuel
        { s.emit .blockEnd with indent := s.outer.head?.getD (-1), outer := s.outer.tail }

def unwind (s : Scan) (column : Int) : Scan :=
  s.closeBlocks column (s.outer.length + 1)

/-- Open a block at a column if it is deeper than the current block. -/
def openBlock (s : Scan) (column : Nat) : Bool × Scan :=
  if s.indent < (column : Int) then
    (true, { s with indent := column, outer := s.indent :: s.outer })
  else (false, s)

/-- Put a token before the one at a place. -/
def insertToken (s : Scan) (place : Nat) (t : Token) : Scan :=
  let (later, earlier) := s.tokens.splitAt (s.count - place)
  { s with tokens := later ++ t :: earlier, count := s.count + 1 }

/-- A line that marks the start or the end of a document. -/
def documentMark (s : Scan) (t : Token) : Scanned Scan := do
  let s ← (s.unwind (-1)).dropKey
  return { s.take 3 t with keyAllowed := false }

def directiveLine (s : Scan) : Scanned Scan := do
  let s ← (s.unwind (-1)).dropKey
  let (d, c) ← directive s.cursor
  return { s.emit (.directive d) with cursor := c, keyAllowed := false }

def flowStart (s : Scan) (t : Token) : Scanned Scan := do
  let s ← s.saveKey
  return { s.take 1 t with depth := s.depth + 1, keyAllowed := true }

/-- A closing bracket without an opening one is refused at once. -/
def flowEnd (s : Scan) (t : Token) : Scanned Scan := do
  let s ← s.dropKey
  if s.depth = 0 then .error .malformed
  else return { s.take 1 t with depth := s.depth - 1, keyAllowed := false }

def flowEntry (s : Scan) : Scanned Scan := do
  let s ← s.dropKey
  return { s.take 1 .flowEntry with keyAllowed := true }

def blockEntry (s : Scan) : Scanned Scan :=
  if s.inFlow then do
    let s ← s.dropKey
    return { s.take 1 .blockEntry with keyAllowed := true }
  else if !s.keyAllowed then .error .malformed
  else do
    let (opened, s) := s.openBlock s.cursor.column
    let s ← (if opened then s.emit .blockSequenceStart else s).dropKey
    return { s.take 1 .blockEntry with keyAllowed := true }

/-- A question mark before a key that may be any node. -/
def explicitKey (s : Scan) : Scanned Scan :=
  if s.inFlow then do
    let s ← s.dropKey
    return { s.take 1 .key with keyAllowed := false }
  else if !s.keyAllowed then .error .malformed
  else do
    let (opened, s) := s.openBlock s.cursor.column
    let s ← (if opened then s.emit .blockMappingStart else s).dropKey
    return { s.take 1 .key with keyAllowed := true }

/-- A colon. It turns a possible key into a key, which may open a mapping at its column. -/
def valueMark (s : Scan) : Scanned Scan :=
  match s.possibleKey? with
  | some k =>
    let s := s.forgetKey.insertToken k.token .key
    let (opened, s) := if s.inFlow then (false, s) else s.openBlock k.column
    let s := if opened then s.insertToken k.token .blockMappingStart else s
    .ok { s.take 1 .value with keyAllowed := false }
  | none =>
    if s.inFlow then .ok { s.take 1 .value with keyAllowed := false }
    else if !s.keyAllowed then .error .malformed
    else
      let (opened, s) := s.openBlock s.cursor.column
      let s := if opened then s.emit .blockMappingStart else s
      .ok { s.take 1 .value with keyAllowed := true }

/-- An anchor, an alias or a tag, which may be the start of a key. -/
def property (s : Scan) (read : Cursor → Scanned (Token × Cursor)) : Scanned Scan := do
  let s ← s.saveKey
  let (t, c) ← read s.cursor
  return { s.emit t with cursor := c, keyAllowed := false }

def wrapped {α : Type} (wrap : α → Token) (read : Cursor → Scanned (α × Cursor)) (c : Cursor) :
    Scanned (Token × Cursor) :=
  (read c).map fun (a, c) => (wrap a, c)

def blockText (s : Scan) (folded : Bool) : Scanned Scan := do
  let s ← s.dropKey
  let (text, c) ← blockScalar folded s.indent s.cursor
  return { s.emit (.quoted (String.ofList text)) with cursor := c, keyAllowed := true }

def quotedText (s : Scan) : Scanned Scan := do
  let s ← s.saveKey
  let (text, c) ← quotedScalar s.cursor
  return { s.emit (.quoted (String.ofList text)) with cursor := c, keyAllowed := false }

def plainText (s : Scan) : Scanned Scan := do
  let s ← s.saveKey
  let (text, atLineStart, c) := plainScalar s.inFlow (s.indent + 1) s.cursor
  return { s.emit (.plain (String.ofList text)) with cursor := c, keyAllowed := atLineStart }

/-- A plain scalar cannot start with a mark, except a hyphen, and outside of brackets a question
mark or colon, before a character other than a gap. -/
def startsPlain (s : Scan) (ch : Char) (after : Option Char) : Bool :=
  !(isGap ch || ("-?:,[]#&*!|>%@".toList ++ ['\x7b', '\x7d', '\x27', '\x22', '\x60']).contains ch)
    || (!isGapOrEnd after && (ch == '-' || (!s.inFlow && (ch == '?' || ch == ':'))))

/-- Read the next token, which starts with a given character. -/
def dispatch (s : Scan) (ch : Char) : Scanned Scan :=
  let after := s.cursor.next.peek?
  let atLineStart := s.cursor.column = 0
  if ch == '%' && atLineStart then s.directiveLine
  else if atLineStart && s.cursor.atMark '-' then s.documentMark .documentStart
  else if atLineStart && s.cursor.atMark '.' then s.documentMark .documentEnd
  else if ch == '[' then s.flowStart .flowSequenceStart
  else if ch == '\x7b' then s.flowStart .flowMappingStart
  else if ch == ']' then s.flowEnd .flowSequenceEnd
  else if ch == '\x7d' then s.flowEnd .flowMappingEnd
  else if ch == ',' then s.flowEntry
  else if ch == '-' && isGapOrEnd after then s.blockEntry
  else if ch == '?' && (s.inFlow || isGapOrEnd after) then s.explicitKey
  else if ch == ':' && (s.inFlow || isGapOrEnd after) then s.valueMark
  else if ch == '*' then s.property (wrapped .aliasOf anchorName)
  else if ch == '&' then s.property (wrapped .anchor anchorName)
  else if ch == '!' then s.property (wrapped .tag readTag)
  else if ch == '|' && !s.inFlow then s.blockText false
  else if ch == '>' && !s.inFlow then s.blockText true
  else if ch == '\x27' || ch == '\x22' then s.quotedText
  else if s.startsPlain ch after then s.plainText
  else .error .malformed

/-- Read one more token, or close all blocks at the end of the text. The flag tells that there was
one more. -/
def advance (s : Scan) : Scanned (Bool × Scan) := do
  let s ← (toNextToken (s.cursor.left + 1) s).dropStaleKeys
  let s := s.unwind s.cursor.column
  match s.cursor.peek? with
  | none => return (false, ← (s.unwind (-1)).dropKey)
  | some ch => return (true, ← s.dispatch ch)

/-- The tokens before the first possible key, in front of which further tokens may still be put. -/
def settled (s : Scan) : List Token :=
  let places := (s.keys.filter fun k => !isStale s.cursor k.2).map fun k => k.2.token
  (s.tokens.drop (s.count - places.foldl min s.count)).reverse

/-- Read tokens up to the end. Every token takes at least one character. -/
def loop : Nat → Scan → List Token
  | 0, s => s.settled ++ [.fault .malformed]
  | fuel + 1, s =>
    match s.advance with
    | .error e => s.settled ++ [.fault e]
    | .ok (hasMore, next) =>
      match next.cursor.obstacle? with
      | some e => s.settled ++ [.fault e]
      | none => if hasMore then loop fuel next else next.tokens.reverse

end Scan

def tokens (source : Source) : List Token :=
  ((Scan.start source).skipByteOrderMark).loop (source.text.length + 2)

end SparqlModel.Yaml
