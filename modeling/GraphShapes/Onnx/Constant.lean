/-
GraphShapes.Onnx.Constant — constant tensors as models store them.

A tensor has sizes, the number of an element type, and elements in raw bytes
or in the field for its type. Reading one gives a constant: an array whose
elements are known. A tensor may be stored so that it cannot be read; that
only matters where it is read, so a model keeps its tensors as they are.

One size below zero stands for whatever size the others leave. Elements of
less than a byte are packed, lowest bits first; the last byte may hold more
elements than there are, and elements that are not stored are zero.
-/
import GraphShapes.Datum.Cast
import GraphShapes.Number.Narrow
import GraphShapes.Onnx.Wire
import GraphShapes.Text.Utf8

namespace GraphShapes.Onnx

/-! ## Element types -/

/-- How a pattern of bits stands for an element. -/
inductive Coding where
  | signed
  | unsigned
  | truth
  | float (f : Binary.Format)
  | narrow (f : Binary.Narrow)
  /-- A power of two. -/
  | power
  /-- A complex number, its real part in the lower half. -/
  | complex (f : Binary.Format)
  deriving DecidableEq, Repr, Inhabited

/-- The field that holds the elements of a type. -/
inductive Place where
  | floats
  | shorts
  | longs
  | doubles
  | naturals
  deriving DecidableEq, Repr, Inhabited

/-- An element type of models, texts aside. -/
structure ElementType where
  element : Element
  /-- Bits of a stored element. -/
  bits : Nat
  coding : Coding
  place : Place
  deriving DecidableEq, Repr, Inhabited

namespace ElementType

/-- The number of the type of texts. -/
def texts : Int := 8

/-- A type of a byte or less, by its name. -/
def small (name : String) (bits : Nat) (coding : Coding) : ElementType :=
  ⟨⟨name, 1⟩, bits, coding, .shorts⟩

/-- The type of a number. -/
def ofNumber? : Int → Option ElementType
  | 1 => some ⟨Element.float32, 32, .float Binary.single, .floats⟩
  | 2 => some ⟨Element.uint8, 8, .unsigned, .shorts⟩
  | 3 => some ⟨Element.int8, 8, .signed, .shorts⟩
  | 4 => some ⟨Element.uint16, 16, .unsigned, .shorts⟩
  | 5 => some ⟨Element.int16, 16, .signed, .shorts⟩
  | 6 => some ⟨Element.int32, 32, .signed, .shorts⟩
  | 7 => some ⟨Element.int64, 64, .signed, .longs⟩
  | 9 => some ⟨Element.bool, 8, .truth, .shorts⟩
  | 10 => some ⟨Element.float16, 16, .float Binary.half, .shorts⟩
  | 11 => some ⟨Element.float64, 64, .float Binary.double, .doubles⟩
  | 12 => some ⟨Element.uint32, 32, .unsigned, .naturals⟩
  | 13 => some ⟨Element.uint64, 64, .unsigned, .naturals⟩
  | 14 => some ⟨Element.complex64, 64, .complex Binary.single, .floats⟩
  | 15 => some ⟨Element.complex128, 128, .complex Binary.double, .doubles⟩
  | 16 => some ⟨⟨"bfloat16", 2⟩, 16, .float Binary.brain, .shorts⟩
  | 17 => some (small "float8_e4m3fn" 8 (.narrow .four))
  | 18 => some (small "float8_e4m3fnuz" 8 (.narrow .fourUnsignedZero))
  | 19 => some (small "float8_e5m2" 8 (.float Binary.quarter))
  | 20 => some (small "float8_e5m2fnuz" 8 (.narrow .fiveUnsignedZero))
  | 21 => some (small "uint4" 4 .unsigned)
  | 22 => some (small "int4" 4 .signed)
  | 23 => some (small "float4_e2m1fn" 4 (.narrow .two))
  | 24 => some (small "float8_e8m0fnu" 8 .power)
  | 25 => some (small "uint2" 2 .unsigned)
  | 26 => some (small "int2" 2 .signed)
  | _ => none

/-- Do several elements share a byte? -/
def isPacked (t : ElementType) : Bool := t.bits < 8

end ElementType

/-! ## Elements -/

/-- An element of a constant. -/
inductive Item where
  | int (n : Int)
  | float (x : Binary)
  | complex (re im : Binary)
  | text (s : String)
  deriving DecidableEq, Repr, Inhabited

namespace Item

/-- The element that a pattern of bits stands for. -/
def ofBits (t : ElementType) (bits : Nat) : Item :=
  let bits := bits % 2 ^ t.bits
  match t.coding with
  | .signed => .int (Wire.signed t.bits bits)
  | .unsigned => .int bits
  | .truth => .int (if bits = 0 then 0 else 1)
  | .float f => .float (Binary.ofBits f bits)
  | .narrow f => .float (f.ofBits bits)
  | .power => .float (Binary.powerOfBits bits)
  | .complex f =>
    let half := 2 ^ (t.bits / 2)
    .complex (Binary.ofBits f (bits % half)) (Binary.ofBits f (bits / half))

/-- The element as an integer. A complex number counts by its real part. -/
def toInt : Item → Except Misuse Int
  | int n => .ok n
  | float x => Datum.truncated x
  | complex re _ => Datum.truncated re
  | text s => Datum.readOr (Decimal.read? s)

/-- Is the element neither zero nor empty? -/
def isTrue : Item → Bool
  | int n => n != 0
  | float x => !x.isZero
  | complex re im => !(re.isZero && im.isZero)
  | text s => !s.isEmpty

end Item

/-- A constant with its elements in row-major order. -/
structure Constant where
  sizes : List Nat
  element : Element
  items : List Item
  deriving DecidableEq, Repr, Inhabited

namespace Constant

/-- The elements as integers. -/
def integers (c : Constant) : Except Misuse (List Int) := c.items.mapM Item.toInt

/-- The constant as a value: its elements are of no further use. -/
def toDatum (c : Constant) : Datum := .array c.sizes c.element

/-- Is the one element of the constant true? -/
def isTrue (c : Constant) : Except Misuse Bool :=
  match c.items with
  | [item] => .ok item.isTrue
  | _ => .error .badValue

end Constant

/-! ## Tensors -/

/-- A constant tensor as a model stores it. Elements in fields are patterns of
bits. -/
structure Tensor where
  sizes : List Int := []
  /-- The number of the element type. -/
  type : Int := 0
  /-- Is the tensor a part of a larger one? -/
  isSegment : Bool := false
  /-- Are the elements in another file? -/
  isElsewhere : Bool := false
  /-- The elements in bytes. -/
  raw : Option (List UInt8) := none
  floats : List Nat := []
  shorts : List Nat := []
  longs : List Nat := []
  doubles : List Nat := []
  naturals : List Nat := []
  texts : List (List UInt8) := []
  deriving DecidableEq, Repr, Inhabited

namespace Tensor

/-- The sizes over which a number of elements is laid out; one size may be open. -/
def layOut (count : Nat) (sizes : List Int) : Except Misuse (List Nat) :=
  let known := ((sizes.filter (0 ≤ ·)).map Int.toNat).foldl (· * ·) 1
  let opened := (sizes.filter (· < 0)).length
  if Datum.maxRank < sizes.length then .error .badValue
  else if opened = 0 && known = count then .ok (sizes.map Int.toNat)
  else if opened = 1 && known ≠ 0 && count % known = 0 then
    .ok (sizes.map fun d => if d < 0 then count / known else d.toNat)
  else .error .badValue

/-- The patterns in a byte, lowest bits first. -/
def unpack (bits : Nat) (byte : Nat) : List Nat :=
  (List.range (8 / bits)).map fun i => byte / 2 ^ (bits * i) % 2 ^ bits

/-- Two patterns in one, for as many as there are pairs. -/
def pair (bits : Nat) : List Nat → Except Misuse (List Nat)
  | [] => .ok []
  | [_] => .error .badValue
  | a :: b :: rest => do return (a + 2 ^ bits * b) :: (← pair bits rest)

/-- The patterns of the elements in the field for their type. -/
def fieldPatterns (t : Tensor) (type : ElementType) : Except Misuse (List Nat) :=
  match type.place, type.coding with
  | .floats, .complex _ => pair 32 t.floats
  | .floats, _ => .ok t.floats
  | .doubles, .complex _ => pair 64 t.doubles
  | .doubles, _ => .ok t.doubles
  | .longs, _ => .ok t.longs
  | .naturals, _ => if t.naturals.all (· < 2 ^ type.bits) then .ok t.naturals else .error .overflow
  | .shorts, .truth => .ok (t.shorts.map fun n => if n % 2 ^ 32 = 0 then 0 else 1)
  | .shorts, _ => .ok t.shorts

/-- The patterns of the elements, packed ones still in their bytes. -/
def patterns (t : Tensor) (type : ElementType) : Except Misuse (List Nat) :=
  match t.raw with
  | none => t.fieldPatterns type
  | some bytes =>
    match Wire.words? (max 1 (type.bits / 8)) bytes.length bytes with
    | some ws => .ok ws
    | none => .error .badValue

/-- The greatest number of packed elements. -/
def maxPacked : Nat := 2 ^ 31

/-- A constant of packed elements. -/
def readPacked (sizes : List Int) (type : ElementType) (bytes : List Nat) :
    Except Misuse Constant :=
  let ns := sizes.map Int.toNat
  let count := ns.foldl (· * ·) 1
  if sizes.any (· < 0) || Datum.maxRank < sizes.length || maxPacked < count then .error .badValue
  else
    let stored := (bytes.flatMap (unpack type.bits)).take count
    let padded := stored ++ List.replicate (count - stored.length) 0
    .ok ⟨ns, type.element, padded.map (Item.ofBits type)⟩

/-- A constant of numbers. Other files are out of reach. -/
def readNumbers (t : Tensor) (type : ElementType) : Except Misuse Constant := do
  if t.isElsewhere then .error .elsewhere
  let patterns ← t.patterns type
  if type.isPacked then readPacked t.sizes type patterns
  else
    return ⟨← layOut patterns.length t.sizes, type.element, patterns.map (Item.ofBits type)⟩

/-- Bytes as an element that is a text. -/
def readText (bytes : List UInt8) : Except Misuse Item :=
  match Text.Utf8.decode? bytes with
  | some s => .ok (.text s)
  | none => .error .undecodable

/-- The constant that a tensor stores. -/
def read (t : Tensor) : Except Misuse Constant :=
  if t.isSegment then .error .badValue
  else if t.type = 0 then .error .wrongKind
  else if t.type = ElementType.texts then do
    let items ← t.texts.mapM readText
    return ⟨← layOut items.length t.sizes, Element.object, items⟩
  else
    match ElementType.ofNumber? t.type with
    | none => .error .missingEntry
    | some type => t.readNumbers type

end Tensor

end GraphShapes.Onnx
