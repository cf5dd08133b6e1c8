import SparqlModel.Value.Basic

/-!
# Order of sets

The members of a set stand in the order of slots. A number has a code, which is its remainder by a
prime, and lies in the slot that the code names, or in the first free slot on a path from there. A
set with any other members keeps the order in which they were written.
-/

namespace SparqlModel

/-- The prime, by which a power of two has the same remainder when its exponent is 61 higher. -/
def codePrime : Nat := Nat.pow 2 61 - 1

/-- The code with a sign. No number has the code minus one. -/
def signedCode (negative : Bool) (n : Nat) : Int :=
  if !negative then n else if n = 1 then -2 else -n

/-- The code of a number. Other scalars have none. -/
def Scalar.code? : Scalar → Option Int
  | bool b => some (if b then 1 else 0)
  | int n => some (signedCode (n < 0) (n.natAbs % codePrime))
  | float (.finite negative m e) =>
    some (signedCode negative (m * Nat.pow 2 (e % 61).toNat % codePrime))
  | float (.infinite negative) => some (signedCode negative 314159)
  | _ => none

/-- The number of slots of a set: at least eight, and more than two for each of five members or
more. -/
def slotCount (members : Nat) : Nat :=
  if members < 5 then 8 else Nat.pow 2 (Nat.log2 (2 * members) + 1)

/-- The slots on the path from a slot, for a number of turns. A turn passes ten slots in a row, if
there are as many, and jumps by what is left of the code. -/
def slotPath (slots : Nat) : Nat → Nat → Nat → List Nat
  | 0, _, _ => []
  | turns + 1, slot, code =>
    let row := if slot + 9 < slots then (List.range 10).map (slot + ·) else [slot]
    row ++ slotPath slots turns ((5 * slot + 1 + code / 32) % slots) (code / 32)

def fillSlot (slots : Nat) (filled : List (Nat × Scalar)) (member : Scalar × Int) :
    List (Nat × Scalar) :=
  let code := (member.2 % (Nat.pow 2 64 : Nat)).toNat
  match (slotPath slots (slots + 16) (code % slots) code).find? fun i =>
      (filled.lookup i).isNone with
  | some i => (i, member.1) :: filled
  | none => filled

/-- A set of distinct members in the order in which they were written. -/
def Value.ofMembers (members : List Scalar) : Value :=
  match members.mapM fun s => s.code?.map fun code => (s, code) with
  | some coded =>
    let filled := coded.foldl (fillSlot (slotCount members.length)) []
    .set ((filled.mergeSort fun a b => a.1 ≤ b.1).map (·.2))
  | none => .set members

end SparqlModel
