/-
GraphShapes.Datum.Cast — values as integers, and values as array sizes.

`toInt` turns a size of any kind into an integer: a floating-point number is
cut off at the point, a text is read in the lenient syntax, an array without
axes is its one element. The elements of arrays are not known; that one is taken
for zero. Array sizes are stricter: only whole numbers that are not truth values
count, none may be negative, there may be at most sixty-four, and the array's
bytes must be countable in a signed sixty-four bit word. Sizes of zero are left
out of that count, as if the array had one element there.
-/
import GraphShapes.Datum
import GraphShapes.Misuse

namespace GraphShapes

namespace Datum

/-- Bytes as characters, a byte beyond the seven bit range as one that belongs
to no number. -/
def byteChars (bs : List UInt8) : List Char :=
  bs.map fun b => if b < 0x80 then Char.ofNat b.toNat else '\x00'

/-- A read integer, or a bad value. -/
def readOr (n : Option Int) : Except Misuse Int :=
  match n with
  | some n => .ok n
  | none => .error .badValue

/-- A floating-point number cut off at the point. -/
def truncated (x : Binary) : Except Misuse Int :=
  match x, x.truncate? with
  | .nan _, _ => .error .badValue
  | _, some n => .ok n
  | _, none => .error .overflow

/-- A value as an integer. -/
def toInt : Datum → Except Misuse Int
  | .bool b => .ok b.toInt
  | .int n => .ok n
  | .float x => truncated x
  | .text s => readOr (Decimal.read? s)
  | .ragged _ => .error .badValue
  | .bytes bs => readOr (Decimal.readInt (byteChars bs))
  | .elementInt n => .ok n
  | .elementBool b => .ok b.toInt
  | .elementFloat x => truncated x
  | .elementSpan s =>
    match s.whole? with
    | some n => .ok n
    | none => .error .wrongKind
  | .array [] _ => .ok 0
  | _ => .error .wrongKind

/-- Is a size below zero? Only numbers can be. Of an array the one element is
compared, which is zero. -/
def isBelowZero : Datum → Except Misuse Bool
  | .bool _ => .ok false
  | .int n => .ok (n < 0)
  | .float x => .ok x.isNegative
  | .elementInt n => .ok (n < 0)
  | .elementBool _ => .ok false
  | .elementFloat x => .ok x.isNegative
  | .elementSpan s => .ok (s.steps.any (· < 0))
  | .array sizes _ => if Text.Grid.count sizes = 1 then .ok false else .error .badValue
  | _ => .error .wrongKind

/-- The greatest signed sixty-four bit integer. -/
def maxSize : Nat := 2 ^ 63 - 1

/-- The most axes of an array. -/
def maxRank : Nat := 64

/-- One array size. -/
def toSize : Datum → Except Misuse Nat
  | .int n => if n.toNat ≤ maxSize then .ok n.toNat else .error .badValue
  | .elementInt n => .ok n.toNat
  | _ => .error .wrongKind

/-- Refuses sizes below zero. -/
def checkSigns : List Datum → Except Misuse Unit
  | [] => .ok ()
  | d :: rest => do
    if ← isBelowZero d then .error .badValue
    checkSigns rest

/-- The sizes of an array whose elements take `bytes` bytes each. -/
def toSizes (bytes : Nat) (sizes : List Datum) : Except Misuse (List Nat) := do
  checkSigns sizes
  if maxRank < sizes.length then .error .badValue
  let ns ← sizes.mapM toSize
  if maxSize < (ns.filter (· ≠ 0)).foldl (· * ·) bytes then .error .badValue
  return ns

end Datum

end GraphShapes
