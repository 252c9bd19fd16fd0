/-
GraphShapes.Onnx.Wire — the fields of a message in bytes.

A message is a row of fields. A field begins with a key, which holds its
number and how its payload is written: as an integer in groups of seven bits,
as four or eight bytes, or as bytes behind their count. A field may also open
or close a group; groups nest, and what is in them is passed over.
-/
import GraphShapes.Number.Power

namespace GraphShapes.Onnx.Wire

/-- What a field holds. -/
inductive Payload where
  | integer (n : Nat)
  | word (bytes : List UInt8)
  | bytes (bs : List UInt8)
  deriving Repr, Inhabited

/-- A numbered field. -/
structure Field where
  number : Nat
  payload : Payload
  deriving Repr, Inhabited

/-- An integer of at most `groups` groups of seven bits, lowest group first, and
what follows it. Every group but the last has the high bit. -/
def integer? : (groups : Nat) → List UInt8 → Option (Nat × List UInt8)
  | 0, _ => none
  | _ + 1, [] => none
  | groups + 1, b :: rest =>
    if b < 0x80 then some (b.toNat, rest)
    else (integer? groups rest).map fun (n, rest) => (b.toNat - 0x80 + 0x80 * n, rest)

/-- The first `n` bytes and what follows them. -/
def take? (n : Nat) (bs : List UInt8) : Option (List UInt8 × List UInt8) :=
  if bs.length < n then none else some (bs.take n, bs.drop n)

/-- The payload that is written in one of the four plain ways, and what follows. -/
def payload? (way : Nat) (bs : List UInt8) : Option (Payload × List UInt8) := do
  match way with
  | 0 =>
    let (n, rest) ← integer? 10 bs
    return (.integer (n % 2 ^ 64), rest)
  | 1 =>
    let (w, rest) ← take? 8 bs
    return (.word w, rest)
  | 2 =>
    let (n, rest) ← integer? 5 bs
    let (inner, rest) ← take? n rest
    return (.bytes inner, rest)
  | 5 =>
    let (w, rest) ← take? 4 bs
    return (.word w, rest)
  | _ => none

/-- A field's number, the way its payload is written, and what follows the key. -/
def key? (bs : List UInt8) : Option (Nat × Nat × List UInt8) := do
  let (key, rest) ← integer? 5 bs
  if key < 8 || 2 ^ 32 ≤ key then none else some (key / 8, key % 8, rest)

/-- The fields of a message that stand in no group; `groups` are the numbers of
the open groups, innermost first, and at most `levels` are open at a time. A
turn takes a byte at least. -/
def scan (levels : Nat) : (turns : Nat) → (groups : List Nat) → List UInt8 → Option (List Field)
  | _, groups, [] => if groups.isEmpty then some [] else none
  | 0, _, _ :: _ => none
  | turns + 1, groups, b :: bs => do
    let (number, way, rest) ← key? (b :: bs)
    if way = 3 then
      if groups.length < levels then scan levels turns (number :: groups) rest else none
    else if way = 4 then
      if groups.head? = some number then scan levels turns groups.tail rest else none
    else
      let (payload, rest) ← payload? way rest
      let fields ← scan levels turns groups rest
      return if groups.isEmpty then ⟨number, payload⟩ :: fields else fields

/-- The fields of a message, if the bytes are one with groups in at most
`levels` levels. -/
def fields? (levels : Nat) (bs : List UInt8) : Option (List Field) :=
  scan levels bs.length [] bs

/-! ## Looking up fields -/

/-- The payloads under a number, in order. -/
def payloads (fs : List Field) (number : Nat) : List Payload :=
  fs.filterMap fun f => if f.number = number then some f.payload else none

/-- The bytes under a number, one list per field. -/
def bytesAt (fs : List Field) (number : Nat) : List (List UInt8) :=
  (payloads fs number).filterMap fun
    | .bytes bs => some bs
    | _ => none

/-- The last bytes under a number. -/
def lastBytes? (fs : List Field) (number : Nat) : Option (List UInt8) :=
  (bytesAt fs number).getLast?

/-- A message under a number; when it is given in several parts it is their
union, which is what the parts in a row are. -/
def message? (fs : List Field) (number : Nat) : Option (List UInt8) :=
  match bytesAt fs number with
  | [] => none
  | parts => some parts.flatten

/-- The single integers under a number. -/
def integersAt (fs : List Field) (number : Nat) : List Nat :=
  (payloads fs number).filterMap fun
    | .integer n => some n
    | _ => none

/-- The last integer under a number, or zero. -/
def lastInteger (fs : List Field) (number : Nat) : Nat :=
  ((integersAt fs number).getLast?).getD 0

/-- Integers in a row; a turn takes a byte at least. -/
def integers? : (turns : Nat) → List UInt8 → Option (List Nat)
  | _, [] => some []
  | 0, _ :: _ => none
  | turns + 1, b :: bs => do
    let (n, rest) ← integer? 10 (b :: bs)
    return n % 2 ^ 64 :: (← integers? turns rest)

/-- The number that bytes write, lowest byte first. -/
def littleEndian (bs : List UInt8) : Nat := bs.foldr (fun b n => b.toNat + 0x100 * n) 0

/-- Words of a width in a row; a turn takes a word. -/
def words? (width : Nat) : (turns : Nat) → List UInt8 → Option (List Nat)
  | _, [] => some []
  | 0, _ :: _ => none
  | turns + 1, b :: bs => do
    let (w, rest) ← take? width (b :: bs)
    return littleEndian w :: (← words? width turns rest)

/-- The last word of a width under a number, or zero. -/
def lastWord (width : Nat) (fs : List Field) (number : Nat) : Nat :=
  (((payloads fs number).filterMap fun
    | .word w => if w.length = width then some (littleEndian w) else none
    | _ => none).getLast?).getD 0

/-- All integers under a number, one per field or in a row. -/
def allIntegers? (fs : List Field) (number : Nat) : Option (List Nat) := do
  let parts ← (payloads fs number).mapM fun
    | .integer n => some [n]
    | .bytes bs => integers? bs.length bs
    | .word _ => some []
  return parts.flatten

/-- All words of a width under a number, one per field or in a row. -/
def allWords? (width : Nat) (fs : List Field) (number : Nat) : Option (List Nat) := do
  let parts ← (payloads fs number).mapM fun
    | .word w => some (if w.length = width then [littleEndian w] else [])
    | .bytes bs => words? width bs.length bs
    | .integer _ => some []
  return parts.flatten

/-- A pattern of bits as a signed integer. -/
def signed (bits n : Nat) : Int :=
  let n := n % 2 ^ bits
  if n < 2 ^ (bits - 1) then n else (n : Int) - 2 ^ bits

end GraphShapes.Onnx.Wire
