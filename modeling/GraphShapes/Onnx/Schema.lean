/-
GraphShapes.Onnx.Schema — which fields of a model's messages hold what.

The bytes of a model are checked as a whole before any of it is read: every
field that holds messages must hold well-formed ones, and every field that
holds numbers in a row must hold whole ones. Fields that are not listed, or are
written in another way than the listed one, are passed over. Messages nest only
so deep. Other files that a model's tensors lead to are not looked for.
-/
import GraphShapes.Onnx.Wire

namespace GraphShapes.Onnx

/-- A kind of message in a model. -/
inductive Message where
  | model
  | graph
  | node
  | setting
  | tensor
  | sparseTensor
  | value
  | type
  | tensorType
  | elementType
  | mapType
  | shape
  | scaling
  | training
  | function
  | placement
  | sharding
  | shardedAxis
  | indexList
  /-- A message without messages or rows of numbers in it. -/
  | flat
  deriving DecidableEq, Repr, Inhabited

/-- What a field holds that has to be checked. -/
inductive Content where
  /-- Integers, one or many in a row. -/
  | integers
  /-- Words of a width, one or many in a row. -/
  | words (width : Nat)
  | message (m : Message)
  deriving DecidableEq, Repr, Inhabited

namespace Message

/-- The fields of a message to be checked, by number. -/
def contents : Message → List (Nat × Content)
  | model =>
    [(7, .message .graph), (8, .message .flat), (14, .message .flat), (20, .message .training),
      (25, .message .function), (26, .message .flat)]
  | graph =>
    [(1, .message .node), (5, .message .tensor), (11, .message .value), (12, .message .value),
      (13, .message .value), (14, .message .scaling), (15, .message .sparseTensor),
      (16, .message .flat)]
  | node => [(5, .message .setting), (9, .message .flat), (10, .message .placement)]
  | setting =>
    [(5, .message .tensor), (6, .message .graph), (7, .words 4), (8, .integers),
      (10, .message .tensor), (11, .message .graph), (14, .message .type),
      (15, .message .type), (22, .message .sparseTensor), (23, .message .sparseTensor)]
  | tensor =>
    [(1, .integers), (3, .message .flat), (4, .words 4), (5, .integers), (7, .integers),
      (10, .words 8), (11, .integers), (13, .message .flat), (16, .message .flat)]
  | sparseTensor => [(1, .message .tensor), (2, .message .tensor), (3, .integers)]
  | value => [(2, .message .type), (4, .message .flat)]
  | type =>
    [(1, .message .tensorType), (4, .message .elementType), (5, .message .mapType),
      (7, .message .flat), (8, .message .tensorType), (9, .message .elementType)]
  | tensorType => [(2, .message .shape)]
  | elementType => [(1, .message .type)]
  | mapType => [(2, .message .type)]
  | shape => [(1, .message .flat)]
  | scaling => [(2, .message .flat)]
  | training =>
    [(1, .message .graph), (2, .message .graph), (3, .message .flat), (4, .message .flat)]
  | function =>
    [(7, .message .node), (9, .message .flat), (11, .message .setting), (12, .message .value),
      (14, .message .flat)]
  | placement => [(2, .message .sharding)]
  | sharding => [(2, .integers), (3, .message .indexList), (4, .message .shardedAxis)]
  | shardedAxis => [(2, .message .flat)]
  | indexList => [(2, .integers)]
  | flat => []

/-- The fields of a message that lead to tensors or hold them, but for those of
sparse tensors and training. -/
def tensorFields : Message → List Nat
  | model => [7, 25]
  | graph => [1, 5]
  | function => [7]
  | node => [5]
  | setting => [5, 6, 10, 11]
  | _ => []

/-- How deep messages and groups nest below the outermost message. -/
def maxDepth : Nat := 100

/-- Are the bytes a message of a kind, with at most `levels` levels below it? -/
def accepts : (levels : Nat) → Message → List UInt8 → Bool
  | levels, m, bs =>
    match Wire.fields? levels bs with
    | none => false
    | some fs => fs.all fun f =>
      match f.payload, m.contents.lookup f.number with
      | .bytes inner, some .integers => (Wire.integers? inner.length inner).isSome
      | .bytes inner, some (.words width) => (Wire.words? width inner.length inner).isSome
      | .bytes inner, some (.message m) =>
        match levels with
        | 0 => false
        | levels + 1 => accepts levels m inner
      | _, _ => true

/-- Does a tensor say that its elements are in another file? Other places than
the message and a file are none. -/
def isElsewhere (tensor : List Wire.Field) : Bool :=
  let places := ((Wire.integersAt tensor 14).map (· % 2 ^ 32)).filter (· < 2)
  places.getLast? == some 1

/-- Does a message lead to a tensor whose elements are in another file? -/
def leadsElsewhere : (levels : Nat) → Message → List UInt8 → Bool
  | levels, m, bs =>
    match Wire.fields? levels bs with
    | none => false
    | some fs =>
      (m == tensor && isElsewhere fs) ||
        (fs.filter fun f => m.tensorFields.contains f.number).any fun f =>
          match f.payload, m.contents.lookup f.number, levels with
          | .bytes inner, some (.message m), levels + 1 => leadsElsewhere levels m inner
          | _, _, _ => false

end Message

end GraphShapes.Onnx
