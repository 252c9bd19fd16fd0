/-
GraphShapes.Graph.Basic — operator graphs.

A graph is a list of nodes, declarations of values, and the names of its
inputs and outputs. Nodes consume and produce values by name; a name that is
not declared counts as a tensor of unknown shape. Nothing here checks that a
graph makes sense; see `GraphShapes.Graph.Validity`.
-/
import GraphShapes.Name

namespace GraphShapes

/-- What is declared of a value. -/
structure Value where
  type : Datum := .text "Tensor"
  /-- The declared sizes, or null. -/
  shape : Datum := .null
  deriving Repr, Inhabited

/-- Is the value declared to be a tensor? -/
def Value.isTensor (v : Value) : Bool :=
  match v.type with
  | .text s => s == "Tensor"
  | _ => false

/-- What comes out when a declared type is compared with the one of tensors. An
array is compared element by element. -/
def Value.tensorMark (v : Value) : Datum :=
  match v.type with
  | .array sizes _ => .array sizes Element.bool
  | .elementInt _ => .elementBool false
  | .elementBool _ => .elementBool false
  | .elementFloat _ => .elementBool false
  | .elementSpan _ => .elementBool false
  | _ => .bool v.isTensor

/-- A step of a graph: an operator applied to values. -/
structure Node where
  op : Datum
  inputs : List Name := []
  outputs : List Name := []
  attributes : List (Name × Datum) := []
  deriving Repr, Inhabited

/-- An operator graph. -/
structure Graph where
  nodes : List Node := []
  values : List (Name × Value) := []
  metadata : List (Datum × Datum) := []
  inputs : List Name := []
  outputs : List Name := []
  deriving Repr, Inhabited

namespace Graph

/-- Adds a node at the end. -/
def addNode (g : Graph) (node : Node) : Graph := { g with nodes := g.nodes ++ [node] }

/-- Declares a value, in place of an earlier declaration if there is one. The
name is spelled as in the latest declaration. -/
def addValue (g : Graph) (name : Name) (v : Value) : Graph :=
  { g with values := respellEntry g.values name v }

/-- The declaration of a value. -/
def value? (g : Graph) (name : Name) : Option Value := lookup? g.values name

/-- Is the value declared? -/
def declares (g : Graph) (name : Name) : Bool := (g.value? name).isSome

/-- The declared type of a value. -/
def valueType (g : Graph) (name : Name) : Datum :=
  match g.value? name with
  | some v => v.type
  | none => .text "Tensor"

/-- Declares the names that are not declared yet, as tensors of unknown shape. -/
def declareAll (g : Graph) (names : List Name) : Graph :=
  names.foldl (fun g name => if g.declares name then g else g.addValue name {}) g

/-- The position that an index names in a list of `n`; a negative index counts
from the end. -/
def position? (n : Nat) (i : Int) : Option Nat :=
  let j := if i < 0 then i + n else i
  if 0 ≤ j && j < n then some j.toNat else none

/-- The node at an index. -/
def nodeAt? (g : Graph) (i : Int) : Option Node :=
  (position? g.nodes.length i).bind (g.nodes[·]?)

/-- Removes the node at an index. -/
def removeNode? (g : Graph) (i : Int) : Option Graph :=
  (position? g.nodes.length i).map fun j => { g with nodes := g.nodes.eraseIdx j }

/-- Puts a node in front of the one at an index; an index beyond an end means
that end. -/
def insertNode (g : Graph) (i : Int) (node : Node) : Graph :=
  let n : Int := g.nodes.length
  let j := (max 0 (min n (if i < 0 then i + n else i))).toNat
  { g with nodes := g.nodes.take j ++ node :: g.nodes.drop j }

end Graph

end GraphShapes
