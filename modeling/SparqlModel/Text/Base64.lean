/-!
# Bytes in letters

Four letters of an alphabet of 64 stand for three bytes. Other characters are passed over. The
equals sign fills up the last group, which has at least two letters, and ends the text.
-/

namespace SparqlModel.Text

def sixBits? (c : Char) : Option Nat :=
  if 'A' ≤ c && c ≤ 'Z' then some (c.toNat - 65)
  else if 'a' ≤ c && c ≤ 'z' then some (c.toNat - 71)
  else if c.isDigit then some (c.toNat + 4)
  else if c == '+' then some 62
  else if c == '/' then some 63
  else none

/-- Read letters after a number of them in the current group, with the bits that they leave over
and the equals signs since the last letter. A group that is neither complete nor filled up is
refused. -/
def base64From? (place left signs : Nat) : List Char → Option (List UInt8)
  | [] => if place = 0 then some [] else none
  | c :: cs =>
    if c == '=' then
      if place < 2 then base64From? place left signs cs
      else if 4 ≤ place + signs + 1 then some []
      else base64From? place left (signs + 1) cs
    else
      match sixBits? c with
      | none => base64From? place left signs cs
      | some v =>
        match place with
        | 0 => base64From? 1 v 0 cs
        | 1 => (base64From? 2 (v % 16) 0 cs).map (UInt8.ofNat (left * 4 + v / 16) :: ·)
        | 2 => (base64From? 3 (v % 4) 0 cs).map (UInt8.ofNat (left * 16 + v / 4) :: ·)
        | _ => (base64From? 0 0 0 cs).map (UInt8.ofNat (left * 64 + v) :: ·)

def base64? (s : String) : Option (List UInt8) :=
  base64From? 0 0 0 s.toList

end SparqlModel.Text
