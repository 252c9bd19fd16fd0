/-
GraphShapes.Graph.Order — an order in which the nodes may run.

A node supplies another if the other consumes a value that it produces. Nodes
are emitted one at a time from a queue: first those without suppliers, in node
order, then, as each node is emitted, those whose last supplier it was, in
node order. A node on or behind a cycle is never emitted.
-/
import GraphShapes.Fault
import GraphShapes.Graph.Basic

namespace GraphShapes.Graph

/-- Which node produces which value. -/
abbrev Producers := List (Name × Nat)

/-- Enters the outputs of node `i`. -/
def enterOutputs (i : Nat) : Producers → List Name → Except ValidationError Producers
  | producers, [] => .ok producers
  | producers, name :: rest =>
    match lookup? producers name with
    | some earlier => .error (.manyProducers name i earlier)
    | none => enterOutputs i (producers ++ [(name, i)]) rest

/-- Enters the outputs of the nodes from index `i` on. -/
def enterNodes : Nat → Producers → List Node → Except ValidationError Producers
  | _, producers, [] => .ok producers
  | i, producers, node :: rest => do
    enterNodes (i + 1) (← enterOutputs i producers node.outputs) rest

/-- The producer of every value that a node produces. -/
def producers (g : Graph) : Except ValidationError Producers := enterNodes 0 [] g.nodes

/-- The nodes that supply a node. -/
def suppliers (producers : Producers) (node : Node) : List Nat :=
  node.inputs.filterMap (lookup? producers)

/-- The nodes whose last supplier is the last of the emitted ones, `u`. -/
def released (supply : List (List Nat)) (emitted : List Nat) (u : Nat) : List Nat :=
  (supply.zipIdx.filter fun (us, _) => us.contains u && us.all emitted.contains).map (·.2)

/-- Emits the nodes of a queue and those that they release. Every turn emits
one node, so a turn per node is enough. -/
def emit (supply : List (List Nat)) : Nat → List Nat → List Nat → List Nat
  | 0, _, emitted => emitted
  | _ + 1, [], emitted => emitted
  | turns + 1, u :: queue, emitted =>
    let emitted := emitted ++ [u]
    emit supply turns (queue ++ released supply emitted u) emitted

/-- The nodes without suppliers. -/
def sources (supply : List (List Nat)) : List Nat :=
  (supply.zipIdx.filter fun (us, _) => us.isEmpty).map (·.2)

/-- An order of the nodes in which suppliers come first. -/
def orderFrom (g : Graph) (producers : Producers) : Except ValidationError (List Nat) :=
  let supply := g.nodes.map (suppliers producers)
  let order := emit supply g.nodes.length (sources supply) []
  if order.length = g.nodes.length then .ok order else .error .cycle

/-- An order of the nodes in which suppliers come first. -/
def order (g : Graph) : Except ValidationError (List Nat) := do
  g.orderFrom (← g.producers)

/-- The nodes in such an order. -/
def toposort (g : Graph) : Except ValidationError (List Node) := do
  return (← g.order).filterMap (g.nodes[·]?)

end GraphShapes.Graph
