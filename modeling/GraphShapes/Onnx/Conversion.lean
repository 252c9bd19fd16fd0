/-
GraphShapes.Onnx.Conversion — ONNX models as graphs.

Initializers become constants, the supported nodes become nodes of the
operator they stand for, and all other nodes keep their own type, which names
no operator. A constant that is the target of a reshape becomes a list of
integers; so does the permutation of a transposition, and a target with zeros
in it, which copy the declared sizes of the operand.
-/
import GraphShapes.Graph.Validity
import GraphShapes.Onnx.Model
import GraphShapes.Operator

namespace GraphShapes.Onnx

/-- A conversion under way: the graph so far and the integers of the constants
that are targets of a reshape. -/
structure Conversion where
  graph : Graph
  targets : List (Name × List Int) := []
  deriving Repr, Inhabited

namespace Conversion

/-- The declared shape of a constant. -/
def constantShape : Datum → Datum
  | .array sizes _ => .list (sizes.map fun n : Nat => .int n)
  | _ => .null

/-- Adds a constant. -/
def addConstant (c : Conversion) (name : Name) (type : String) (value : Datum) : Conversion :=
  let g := c.graph.addValue name { type := .text type, shape := constantShape value }
  let n : GraphShapes.Node :=
    { op := .text Operator.constant.tag, outputs := [name],
      attributes := [(.text "value", value)] }
  { c with graph := g.addNode n }

/-- Adds a constant list of integers. -/
def addIntegers (c : Conversion) (name : Name) (ns : List Int) : Conversion :=
  c.addConstant name "int[]" (.list (ns.map .int))

/-- Adds a constant list of integers that is the target of a reshape. -/
def addTarget (c : Conversion) (name : Name) (ns : List Int) : Conversion :=
  let c := c.addIntegers name ns
  { c with targets := putEntry c.targets name ns }

/-- Adds a node and declares its outputs. -/
def emit (c : Conversion) (op : Datum) (inputs outputs : List Name)
    (attributes : List (Name × Datum)) : Conversion :=
  let g := c.graph.declareAll outputs
  { c with graph := g.addNode { op, inputs, outputs, attributes } }

/-- Adds a node of an operator. -/
def emitOperator (c : Conversion) (op : Operator) (inputs outputs : List Name)
    (attributes : List (Name × Datum) := []) : Conversion :=
  c.emit (.text op.tag) inputs outputs attributes

/-- Adds a node as it is. -/
def emitAsIs (c : Conversion) (n : Node) (settings : Settings) : Conversion :=
  c.emit n.op.toDatum n.givenInputs n.outputs
    (settings.map fun (name, s) => (name, s.toDatum))

/-- The first of a list of names. -/
def firstOf : List Name → Except Fault Name
  | name :: _ => .ok name
  | [] => .error (.misuse .outOfRange)

/-- A name made of another name and an ending. -/
def derivedName (name : Name) (ending : String) : Name := .ofPoints (name.display ++ ending)

/-- Is a setting given and true? -/
def isSet (settings : Settings) (name : String) : Except Fault Bool :=
  match lookup? settings (.text name) with
  | some s => Fault.ofMisuse s.isTrue
  | none => .ok false

/-- An axis, the first one unless a setting says otherwise. -/
def axisOf (settings : Settings) : Datum :=
  ((lookup? settings (.text "axis")).map Setting.toDatum).getD (.int 0)

/-! ## Nodes by type -/

/-- The operator of a node type whose operands are taken over as they are. -/
def direct? : Name → Option Operator
  | .text "Relu" => some .relu
  | .text "Tanh" => some .tanh
  | .text "Sigmoid" => some .sigmoid
  | .text "Add" => some .add
  | .text "Sub" => some .sub
  | .text "Mul" => some .mul
  | .text "Pow" => some .pow
  | .text "MatMul" => some .mm
  | _ => none

/-- A general matrix product without transposed operands. -/
def addProduct (c : Conversion) (n : Node) : Except Fault Conversion :=
  match n.givenInputs with
  | [a, b] => .ok (c.emitOperator .mm [a, b] n.outputs)
  | x :: y :: z :: _ => .ok (c.emitOperator .addmm [z, x, y] n.outputs)
  | _ => .error (.misuse .badValue)

/-- A general matrix product. -/
def addGeneralProduct (c : Conversion) (n : Node) (settings : Settings) :
    Except Fault Conversion := do
  if ← isSet settings "transA" then return c.emitAsIs n settings
  if ← isSet settings "transB" then return c.emitAsIs n settings
  c.addProduct n

/-- A transposition along a permutation. -/
def addTransposition (c : Conversion) (n : Node) (axes : Datum) : Except Fault Conversion := do
  let name := derivedName (← firstOf n.outputs) "__perm"
  let c := c.addConstant name "int[]" axes
  return c.emitOperator .permute [← firstOf n.givenInputs, name] n.outputs

/-- The declared sizes of a value. -/
def declaredSizes? (c : Conversion) (name : Name) : Option (List Int) :=
  (c.graph.value? name).bind fun v => v.shape.asInts?

/-- A target with its zeros replaced by the sizes in their places, if there is
a size in every such place. -/
def copyZeros? : List Int → List Int → Option (List Int)
  | [], _ => some []
  | 0 :: _, [] => none
  | 0 :: target, size :: sizes => (copyZeros? target sizes).map (size :: ·)
  | d :: target, sizes => (copyZeros? target (sizes.drop 1)).map (d :: ·)

/-- The name of a node in messages. -/
def labelOf (n : Node) : Except Fault Name :=
  if isLeftOut n.name then firstOf n.outputs else .ok n.name

/-- A target with its zeros replaced by the declared sizes of the operand. -/
def resolveZeros (c : Conversion) (n : Node) (index : Nat) (data : Name) (target : List Int) :
    Except Fault (List Int) :=
  match (c.declaredSizes? data).bind (copyZeros? target) with
  | some ns => .ok ns
  | none => do
    .error (Fault.validation (.uncopiedZeros index (← labelOf n) target data)).settled

/-- A reshape with a constant target. -/
def addReshape (c : Conversion) (n : Node) (settings : Settings) (index : Nat)
    (data shape : Name) (target : List Int) : Except Fault Conversion := do
  let asIs := c.emitOperator .reshape [data, shape] n.outputs
  if !target.contains 0 then return asIs
  if ← isSet settings "allowzero" then return asIs
  let resolved ← c.resolveZeros n index data target
  let name := derivedName (← firstOf n.outputs) "__shape"
  return (c.addIntegers name resolved).emitOperator .reshape [data, name] n.outputs

/-- A reshape. -/
def addAnyReshape (c : Conversion) (n : Node) (settings : Settings) (index : Nat) :
    Except Fault Conversion :=
  match n.givenInputs with
  | [data, shape] =>
    match lookup? c.targets shape with
    | some target => c.addReshape n settings index data shape target
    | none => .ok (c.emitAsIs n settings)
  | _ => .ok (c.emitAsIs n settings)

/-- A split into pieces of equal size. -/
def addSplit (c : Conversion) (n : Node) (settings : Settings) : Conversion :=
  match n.givenInputs, lookup? settings (.text "split") with
  | [data], none =>
    c.emitOperator .constantChunk [data] n.outputs
      [(.text "chunks", .int n.outputs.length), (.text "dim", axisOf settings)]
  | _, _ => c.emitAsIs n settings

/-- A constant; `targets` are the names in the place of a target shape. -/
def addLiteral (c : Conversion) (targets : List Name) (n : Node) (value : Setting) :
    Except Fault Conversion := do
  let name ← firstOf n.outputs
  if targets.contains name then
    match value with
    | .constant k => return c.addTarget name (← Fault.ofMisuse k.integers)
    | .plain _ => .error (.misuse .missingMember)
  else return c.addConstant name "Tensor" value.toDatum

/-- The node at an index of the model. -/
def addNode (c : Conversion) (targets : List Name) (index : Nat) (n : Node) :
    Except Fault Conversion := do
  let settings ← Fault.ofMisuse n.settings
  match direct? n.op with
  | some op => return c.emitOperator op n.givenInputs n.outputs
  | none =>
    match n.op with
    | .text "Gemm" => c.addGeneralProduct n settings
    | .text "Concat" =>
      return c.emitOperator .fusedConcat n.givenInputs n.outputs
        [(.text "dim", axisOf settings)]
    | .text "Transpose" =>
      match lookup? settings (.text "perm") with
      | some axes => c.addTransposition n axes.toDatum
      | none => return c.emitAsIs n settings
    | .text "Reshape" => c.addAnyReshape n settings index
    | .text "Split" => return c.addSplit n settings
    | .text "Constant" =>
      match lookup? settings (.text "value") with
      | some value => c.addLiteral targets n value
      | none => return c.emitAsIs n settings
    | _ => return c.emitAsIs n settings

/-- The nodes from an index on. -/
def addNodes (targets : List Name) : Conversion → Nat → List Node → Except Fault Conversion
  | c, _, [] => .ok c
  | c, index, n :: rest => do addNodes targets (← c.addNode targets index n) (index + 1) rest

/-- An initializer. -/
def addInitializer (c : Conversion) (targets : List Name) (name : Name) (k : Constant) :
    Except Fault Conversion := do
  if targets.contains name then return c.addTarget name (← Fault.ofMisuse k.integers)
  else return c.addConstant name "Tensor" k.toDatum

/-- Initializers in order. -/
def addInitializers (targets : List Name) :
    Conversion → List (Name × Constant) → Except Fault Conversion
  | c, [] => .ok c
  | c, (name, k) :: rest => do addInitializers targets (← c.addInitializer targets name k) rest

end Conversion

/-! ## Models -/

/-- Declares an input. -/
def declareInput (g : Graph) (v : ValueInfo) : Graph :=
  let g := g.addValue v.name { shape := v.shape }
  { g with inputs := g.inputs ++ [v.name] }

/-- Declares a value that is not declared yet. -/
def declareValue (g : Graph) (v : ValueInfo) : Graph :=
  if g.declares v.name then g else g.addValue v.name { shape := v.shape }

/-- Declares the inputs, values and outputs of a model. An initializer among
the inputs is none. -/
def declareAll (m : Model) (initializers : List Name) (g : Graph) : Graph :=
  let inputs := m.inputs.filter fun v => !initializers.contains v.name
  let g := inputs.foldl declareInput g
  let g := (m.values ++ m.outputs).foldl declareValue g
  { g with outputs := m.outputs.map (·.name) }

/-- The graph of a model. -/
def Model.convert (m : Model) : Except Fault Graph := do
  let start : Conversion :=
    { graph := { metadata := [(.text "producer", m.producer.toDatum)] } }
  let constants ← Fault.ofMisuse m.constants
  let c ← Conversion.addInitializers m.targets start constants
  let c := { c with graph := declareAll m (constants.map (·.1)) c.graph }
  return (← Conversion.addNodes m.targets c 0 m.nodes).graph

/-- The graph of a model, validated if that is asked for. -/
def Model.toGraph (validate : Bool) (m : Model) : Except Fault Graph := do
  let g ← m.convert
  if validate then Fault.ofValidation g.validate
  return g

end GraphShapes.Onnx
