/-
GraphShapes.Document — graphs as documents.

A document is a keyed container with the graph's metadata, its declared
values, its nodes, its inputs and its outputs, all of which may be left out.
Names that are used and not declared are declared as tensors of unknown shape.
An attribute may describe a tensor by its sizes and element type; it becomes
an array of these sizes.

Whatever stands in the place of a container is gone through if it can be:
`ofDatum` takes values of any kind and says in which way they do not fit.
-/
import GraphShapes.Datum.Items
import GraphShapes.Datum.Truth
import GraphShapes.Document.Tensor
import GraphShapes.Graph.Validity

namespace GraphShapes.Document

/-- The entries of a keyed container. -/
def entries : Datum → Except Fault (List (Datum × Datum))
  | .dict es => .ok es
  | _ => .error (.misuse .missingMember)

/-- The field of a container, or a value in its stead. -/
def fieldOr (es : List (Datum × Datum)) (key : String) (other : Datum) : Datum :=
  (Datum.lookup es key).getD other

/-- The items of a value. -/
def items (d : Datum) : Except Fault (List Datum) := Fault.ofMisuse d.yields

/-- A value as a name. -/
def toName (d : Datum) : Except Fault Name :=
  match Name.ofDatum? d with
  | some name => .ok name
  | none => .error (.misuse .wrongKind)

/-! ## Metadata -/

/-- An entry given as a pair. -/
def toPair (d : Datum) : Except Fault (Name × Datum) := do
  match ← items d with
  | [k, v] => return (← toName k, v)
  | _ => .error (.misuse .badValue)

/-- Metadata given as a keyed container or as pairs. -/
def toMetadata : Datum → Except Fault (List (Datum × Datum))
  | .dict es => .ok es
  | d => do
    let pairs ← (← items d).mapM toPair
    let es := pairs.foldl (fun acc (k, v) => putEntry acc k v) []
    return es.map fun (k, v) => (k.toDatum, v)

/-! ## Values -/

/-- A declaration. One that is empty or null says nothing. -/
def toValue (spec : Datum) : Except Fault Value := do
  if ← Fault.ofMisuse spec.isTruthy then
    let es ← entries spec
    return { type := fieldOr es "type" (.text "Tensor"), shape := fieldOr es "shape" .null }
  else return {}

/-- Adds declarations to a graph. -/
def addValues (g : Graph) : List (Datum × Datum) → Except Fault Graph
  | [] => .ok g
  | (k, spec) :: rest => do
    let v ← toValue spec
    addValues (g.addValue (← toName k) v) rest

/-! ## Nodes -/

/-- The array that a tensor description stands for. -/
def toTensor (spec : Datum) : Except Fault Datum :=
  match spec with
  | .dict es =>
    match Datum.lookup es "shape" with
    | some (.list sizes) =>
      Fault.ofMisuse (toArray (fieldOr es "dtype" (.text Element.float32.name)) sizes)
    | _ => .error (.validation .tensorWithoutSizes)
  | _ => .error (.validation .tensorWithoutSizes)

/-- An attribute. -/
def toAttribute : Datum → Except Fault Datum
  | .dict es =>
    match Datum.lookup es "tensor" with
    | some spec => toTensor spec
    | none => .ok (.dict es)
  | d => .ok d

/-- The attributes of a node. -/
def toAttributes (es : List (Datum × Datum)) : Except Fault (List (Name × Datum)) :=
  es.mapM fun (k, v) => do return (← toName k, ← toAttribute v)

/-- Do code points hold the word `op`? -/
def holdsOp : List Nat → Bool
  | 0x6f :: 0x70 :: _ => true
  | _ :: rest => holdsOp rest
  | [] => false

/-- Is a value the word `op`? An array is asked element by element. -/
def isOp : Datum → Except Misuse Bool
  | .text s => .ok (s == "op")
  | .array sizes _ => if Text.Grid.count sizes = 1 then .ok false else .error .badValue
  | _ => .ok false

/-- Is the word `op` among values? -/
def isOpAmong : List Datum → Except Misuse Bool
  | [] => .ok false
  | d :: rest => do if ← isOp d then return true else isOpAmong rest

/-- Does a node name an operator? -/
def namesOperator : Datum → Except Misuse Bool
  | .dict es => .ok (Datum.lookup es "op").isSome
  | .list ds => isOpAmong ds
  | .tuple ds => isOpAmong ds
  | .text s => .ok (holdsOp (Points.ofString s).codes)
  | .ragged p => .ok (holdsOp p.codes)
  | .array _ _ => .ok false
  | _ => .error .wrongKind

/-- The parts of a node that names an operator. -/
def toParts : Datum → Except Fault Node
  | .dict es => do
    let inputs ← items (fieldOr es "inputs" (.list []))
    let outputs ← items (fieldOr es "outputs" (.list []))
    let attributes ← toAttributes (← entries (fieldOr es "attributes" (.dict [])))
    return {
      op := fieldOr es "op" .null, attributes
      inputs := ← inputs.mapM toName, outputs := ← outputs.mapM toName }
  | _ => .error (.misuse .wrongKind)

/-- The node at an index. -/
def toNode (i : Nat) (raw : Datum) : Except Fault Node := do
  if ← Fault.ofMisuse (namesOperator raw) then toParts raw
  else .error (.validation (.missingOperator i))

/-- Adds the nodes from an index on, and declares the names that they use. -/
def addNodes (g : Graph) : Nat → List Datum → Except Fault Graph
  | _, [] => .ok g
  | i, raw :: rest => do
    let n ← toNode i raw
    addNodes ((g.addNode n).declareAll (n.inputs ++ n.outputs)) (i + 1) rest

/-! ## Graphs -/

/-- The graph that the fields of a document describe. -/
def ofFields (es : List (Datum × Datum)) : Except Fault Graph := do
  let g : Graph := { metadata := ← toMetadata (fieldOr es "metadata" (.dict [])) }
  let g ← addValues g (← entries (fieldOr es "values" (.dict [])))
  let g ← addNodes g 0 (← items (fieldOr es "nodes" (.list [])))
  let inputs ← items (fieldOr es "inputs" (.list []))
  let outputs ← items (fieldOr es "outputs" (.list []))
  let inputs ← inputs.mapM toName
  let outputs ← outputs.mapM toName
  return { g with inputs, outputs }.declareAll (inputs ++ outputs)

/-- The graph that a document describes, validated if that is asked for. -/
def ofDatum (validate : Bool) : Datum → Except Fault Graph
  | .dict es => do
    let g ← ofFields es
    if validate then Fault.ofValidation g.validate
    return g
  | _ => .error (.validation .notObject)

end GraphShapes.Document
