/-
GraphShapes.Inference.Walk — one pass over the nodes.

Inputs are bound first; then every node, in the listed order, reads what is
known of its operands, applies its rule and writes its tracked outputs. The
nodes are never reordered.
-/
import GraphShapes.Inference.Store
import GraphShapes.Input
import GraphShapes.Rule

namespace GraphShapes

/-- Options of a run. -/
structure Config where
  /-- Offsets of embedding bags end with a sentinel. -/
  endOffset : Bool := true
  /-- Validate the graph before binding its inputs. -/
  validateGraph : Bool := false
  deriving DecidableEq, Repr, Inhabited

namespace Graph

/-- Binds named inputs in order. -/
def bindEach : Store → List (Name × Datum) → Progress
  | s, [] => { store := s }
  | s, (name, d) :: rest =>
    match Input.toMeta d with
    | .error f => Progress.stopped s f
    | .ok m => (Store.write "bind " s name m).andThen fun s => bindEach s rest

/-- Binds concrete inputs to the inputs of the graph. -/
def bindInputs (g : Graph) (inputs : List Datum) (s : Store) : Progress :=
  if inputs.length = g.inputs.length then bindEach s (g.inputs.zip inputs)
  else Progress.stopped s (.inference (.inputCount g.inputs.length inputs.length))

/-- What is known of a node's operands. -/
def operands (s : Store) (tag : String) (names : List Name) :
    Except ConsistencyError (List Meta) :=
  names.mapM fun name =>
    match lookup? s name with
    | some m => .ok m
    | none => .error (.notYetProduced tag name)

/-- The context of a node's rule. -/
def context (g : Graph) (config : Config) (node : Node) : Context :=
  { endOffset := config.endOffset, outputTypes := node.outputs.map g.valueType }

/-- What a node makes of a store: its operator and what is known of its outputs. -/
def evaluate (g : Graph) (config : Config) (s : Store) (node : Node) :
    Except Fault (Operator × List Meta) :=
  match Operator.ofTag? node.op with
  | none => .error (.inference (.node node.op .unsupported))
  | some op =>
    match operands s op.tag node.inputs with
    | .error e => .error (.consistency e)
    | .ok metas =>
      match Rule.apply op metas node (g.context config node) with
      | .error r => .error (r.toFault node.op)
      | .ok results => .ok (op, results)

/-- Writes what a rule answered under the names of the tracked outputs. -/
def writeResults (op : Operator) (node : Node) (s : Store) (results : List Meta) : Progress :=
  let outputs := op.tracked node.outputs
  if results.length = outputs.length then
    Store.writeAll (op.tag ++ " -> ") s (outputs.zip results)
  else
    Progress.stopped s
      (.inference (.node node.op (.outputCount results.length outputs.length)))

/-- One node. -/
def inferNode (g : Graph) (config : Config) (s : Store) (node : Node) : Progress :=
  match g.evaluate config s node with
  | .error f => Progress.stopped s f
  | .ok (op, results) =>
    let p := writeResults op node s results
    { p with log := Rule.notes op (g.context config node) ++ p.log }

/-- Nodes in order. -/
def inferNodes (g : Graph) (config : Config) : Store → List Node → Progress
  | s, [] => { store := s }
  | s, node :: rest => (g.inferNode config s node).andThen fun s => g.inferNodes config s rest

/-- One pass over the graph. -/
def walk (g : Graph) (config : Config) (inputs : List Datum) : Progress :=
  (g.bindInputs inputs []).andThen fun s => g.inferNodes config s g.nodes

/-- The shapes that a store holds for the graph's outputs. -/
def outputShapes (g : Graph) (s : Store) : Except Fault (List Shape) :=
  g.outputs.mapM fun name =>
    match lookup? s name with
    | some m => .ok m.shape
    | none => .error (Fault.settled (.consistency (.outputWithoutShape name)))

end Graph

end GraphShapes
