/-
GraphShapes.Graph.Validity — when a graph is well formed.

No value has two producers, every name in use is declared, no graph input is
also produced, and the nodes can be ordered. The checks run in that order and
the first defect is the answer.
-/
import GraphShapes.Graph.Order

namespace GraphShapes.Graph

/-- The first undeclared name among the inputs, then the outputs, of node `i`. -/
def undeclaredAt? (g : Graph) (i : Nat) (node : Node) : Option ValidationError :=
  match node.inputs.find? (!g.declares ·) with
  | some name => some (.undeclaredNodeInput i name)
  | none => (node.outputs.find? (!g.declares ·)).map (.undeclaredNodeOutput i)

/-- Are the names that the nodes use declared? -/
def checkNodes (g : Graph) : Except ValidationError Unit :=
  match g.nodes.zipIdx.findSome? fun (node, i) => g.undeclaredAt? i node with
  | some e => .error e
  | none => .ok ()

/-- Are the graph's inputs and outputs declared? -/
def checkEnds (g : Graph) : Except ValidationError Unit :=
  match g.inputs.find? (!g.declares ·), g.outputs.find? (!g.declares ·) with
  | some name, _ => .error (.undeclaredGraphInput name)
  | none, some name => .error (.undeclaredGraphOutput name)
  | none, none => .ok ()

/-- Is no graph input produced by a node? -/
def checkInputs (g : Graph) (producers : Producers) : Except ValidationError Unit :=
  match g.inputs.findSome? fun name => (lookup? producers name).map (name, ·) with
  | some (name, i) => .error (.producedInput name i)
  | none => .ok ()

/-- Is the graph well formed? -/
def validate (g : Graph) : Except ValidationError Unit := do
  let producers ← g.producers
  g.checkNodes
  g.checkEnds
  g.checkInputs producers
  let _ ← g.orderFrom producers

end GraphShapes.Graph
