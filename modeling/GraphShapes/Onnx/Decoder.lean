/-
GraphShapes.Onnx.Decoder — ONNX models in bytes.

A model is a message with a graph in it, a graph holds messages for nodes,
tensors and value descriptions, and so on down. The bytes are checked as a
whole first. Fields that have no say in shapes are passed over, and a field
that is not given has an empty or zero value. Of a choice between fields the
one given last holds.
-/
import GraphShapes.Files
import GraphShapes.Onnx.Conversion
import GraphShapes.Onnx.Schema

namespace GraphShapes.Onnx

namespace Decoder

open Wire

/-- A part of a message that is there, or a malformed model. -/
def present {α : Type} : Option α → Except Misuse α
  | some a => .ok a
  | none => .error .malformedModel

/-- The fields of a message. -/
def fields (bs : List UInt8) : Except Misuse (List Field) :=
  present (fields? Message.maxDepth bs)

/-- The bytes under a number. -/
def bytes (fs : List Field) (number : Nat) : List UInt8 := (lastBytes? fs number).getD []

/-- The name under a number. -/
def nameAt (fs : List Field) (number : Nat) : Name := nameOfBytes (bytes fs number)

/-- The names under a number. -/
def namesAt (fs : List Field) (number : Nat) : List Name := (bytesAt fs number).map nameOfBytes

/-! ## Tensors -/

/-- A tensor. -/
def tensor (fs : List Field) : Except Misuse Tensor := do
  return {
    sizes := (← present (allIntegers? fs 1)).map (Wire.signed 64)
    type := Wire.signed 32 (lastInteger fs 2)
    isSegment := !(bytesAt fs 3).isEmpty
    isElsewhere := Message.isElsewhere fs
    raw := lastBytes? fs 9
    floats := ← present (allWords? 4 fs 4)
    shorts := ← present (allIntegers? fs 5)
    longs := ← present (allIntegers? fs 7)
    doubles := ← present (allWords? 8 fs 10)
    naturals := ← present (allIntegers? fs 11)
    texts := bytesAt fs 6 }

/-- A tensor under its name. -/
def initializer (bs : List UInt8) : Except Misuse (Name × Tensor) := do
  let fs ← fields bs
  return (nameAt fs 8, ← tensor fs)

/-! ## Nodes -/

/-- The number of kinds of attributes. -/
def kindCount : Nat := 15

/-- The kind of an attribute: the last number given for it that stands for a kind. -/
def kindOf (fs : List Field) : Nat :=
  (((integersAt fs 20).map (· % 2 ^ 32)).filter (· < kindCount)).getLast?.getD 0

/-- An attribute of a kind. -/
def attributeOf (fs : List Field) : Nat → Except Misuse Attribute
  | 1 => .ok (.float (Binary.ofBits Binary.single (lastWord 4 fs 2)))
  | 2 => .ok (.int (Wire.signed 64 (lastInteger fs 3)))
  | 3 => .ok (.text (bytes fs 4))
  | 4 => do return .tensor (← tensor (← fields ((message? fs 5).getD [])))
  | 6 => do return .floats ((← present (allWords? 4 fs 7)).map (Binary.ofBits Binary.single))
  | 7 => do return .ints ((← present (allIntegers? fs 8)).map (Wire.signed 64))
  | _ => .ok .other

/-- A named attribute. -/
def namedAttribute (bs : List UInt8) : Except Misuse (Name × Attribute) := do
  let fs ← fields bs
  return (nameAt fs 1, ← attributeOf fs (kindOf fs))

/-- A node. -/
def node (bs : List UInt8) : Except Misuse Node := do
  let fs ← fields bs
  return {
    inputs := namesAt fs 1, outputs := namesAt fs 2, name := nameAt fs 3,
    op := nameAt fs 4, attributes := ← (bytesAt fs 5).mapM namedAttribute }

/-! ## Values -/

/-- The fields of a choice that are given in bytes, or as an integer under `plain`. -/
def choices (fs : List Field) (plain : Option Nat) (numbers : List Nat) : List Field :=
  fs.filter fun f => match f.payload with
    | .bytes _ => numbers.contains f.number
    | .integer _ => plain = some f.number
    | .word _ => false

/-- The fields of a choice that hold: the last ones under one number. -/
def chosen (fs : List Field) : List Field :=
  match fs.reverse with
  | [] => []
  | f :: rest => (f :: rest.takeWhile (·.number = f.number)).reverse

/-- A size: an integer, or a name that stands for one. -/
def dimension (bs : List UInt8) : Except Misuse (Option Int) := do
  let fs := chosen (choices (← fields bs) (some 1) [2])
  return (integersAt fs 1).getLast?.map (Wire.signed 64)

/-- The sizes of a tensor type, if it has any. -/
def tensorSizes (bs : List UInt8) : Except Misuse (Option (List (Option Int))) := do
  match message? (← fields bs) 2 with
  | none => return none
  | some shape => return some (← (bytesAt (← fields shape) 1).mapM dimension)

/-- The sizes of a type, if it is a tensor type and has any. -/
def typeSizes (bs : List UInt8) : Except Misuse (Option (List (Option Int))) := do
  match message? (chosen (choices (← fields bs) none [1, 4, 5, 7, 8, 9])) 1 with
  | none => return none
  | some type => tensorSizes type

/-- What is declared of a value. -/
def valueInfo (bs : List UInt8) : Except Misuse ValueInfo := do
  let fs ← fields bs
  match message? fs 2 with
  | none => return { name := nameAt fs 1, sizes := none }
  | some type => return { name := nameAt fs 1, sizes := ← typeSizes type }

/-- The graph of a model. -/
def graph (producer : Name) (bs : List UInt8) : Except Misuse Model := do
  let fs ← fields bs
  return {
    producer
    nodes := ← (bytesAt fs 1).mapM node
    initializers := ← (bytesAt fs 5).mapM initializer
    inputs := ← (bytesAt fs 11).mapM valueInfo
    outputs := ← (bytesAt fs 12).mapM valueInfo
    values := ← (bytesAt fs 13).mapM valueInfo }

end Decoder

/-- The model that bytes hold. -/
def Model.decode (bs : List UInt8) : Except Misuse Model := do
  if !Message.model.accepts Message.maxDepth bs then .error .malformedModel
  let fs ← Decoder.fields bs
  Decoder.graph (Decoder.nameAt fs 2) ((Wire.message? fs 7).getD [])

/-- The model that a file holds. A file is read together with those that its
tensors lead to. -/
def Model.decodeFile (bs : List UInt8) : Except Misuse Model := do
  let m ← Model.decode bs
  if Message.model.leadsElsewhere Message.maxDepth bs then .error .elsewhere else return m

/-- What a model is given as. -/
inductive Source where
  | model (m : Model)
  /-- A value of any kind: the bytes of a model, or a path in text. -/
  | value (d : Datum)
  | path (p : Path)
  deriving Repr, Inhabited

/-- The model that a source gives. -/
def load (files : Files) : Source → Except Fault Model
  | .model m => .ok m
  | .value (.bytes bs) => Fault.ofMisuse (Model.decode bs)
  | .value (.text s) => Fault.ofMisuse do Model.decodeFile (← files.readBytes s)
  | .path p => Fault.ofMisuse do Model.decodeFile (← files.readBytes p.toString)
  | .value _ => .error .unsupportedModel

/-- The graph of a model that a source gives. -/
def graph (files : Files) (validate : Bool) (s : Source) : Except Fault Graph := do
  (← load files s).toGraph validate

end GraphShapes.Onnx
