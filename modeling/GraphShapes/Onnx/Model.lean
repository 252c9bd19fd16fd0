/-
GraphShapes.Onnx.Model — ONNX models, as far as shapes go.

A model is a list of nodes over named values, with constant tensors called
initializers, the model's inputs and outputs, and what is declared of further
values. An initializer may be listed among the inputs too; then it is no input
of the graph. A node may leave out an input or output by giving it the empty
name. A name is a text, or bytes that are not one.
-/
import GraphShapes.Datum.Truth
import GraphShapes.Name
import GraphShapes.Onnx.Constant

namespace GraphShapes.Onnx

/-! ## Attributes -/

/-- An attribute of a node. -/
inductive Attribute where
  | int (n : Int)
  | float (x : Binary)
  | text (bytes : List UInt8)
  | ints (ns : List Int)
  | floats (xs : List Binary)
  | tensor (t : Tensor)
  /-- An attribute of a kind that has no say in shapes. -/
  | other
  deriving Repr, Inhabited

/-- An attribute as it was read. -/
inductive Setting where
  | plain (d : Datum)
  | constant (c : Constant)
  deriving Repr, Inhabited

/-- Settings by name. -/
abbrev Settings := List (Name × Setting)

namespace Setting

/-- The setting as a value. -/
def toDatum : Setting → Datum
  | plain d => d
  | constant c => c.toDatum

/-- Is the setting true? -/
def isTrue : Setting → Except Misuse Bool
  | plain d => d.isTruthy
  | constant c => c.isTrue

end Setting

namespace Attribute

/-- The setting that an attribute makes, if it has a say in shapes. -/
def read : Attribute → Except Misuse (Option Setting)
  | int n => .ok (some (.plain (.int n)))
  | float x => .ok (some (.plain (.float x)))
  | text bytes => .ok (some (.plain (.text (Text.Utf8.decodeLossy bytes))))
  | ints ns => .ok (some (.plain (.list (ns.map .int))))
  | floats xs => .ok (some (.plain (.list (xs.map .float))))
  | tensor t => do return some (.constant (← t.read))
  | other => .ok none

end Attribute

/-! ## Models -/

/-- What is declared of a value. -/
structure ValueInfo where
  name : Name
  /-- The declared sizes, if any; a size may be symbolic or left out. -/
  sizes : Option (List (Option Int))
  deriving Repr, Inhabited

/-- A node of a model. -/
structure Node where
  op : Name
  name : Name
  inputs : List Name
  outputs : List Name
  attributes : List (Name × Attribute)
  deriving Repr, Inhabited

/-- A model. -/
structure Model where
  producer : Name := .text ""
  initializers : List (Name × Tensor) := []
  inputs : List ValueInfo := []
  outputs : List ValueInfo := []
  values : List ValueInfo := []
  nodes : List Node := []
  deriving Repr, Inhabited

/-- Stands the name for none? -/
def isLeftOut (name : Name) : Bool := name == .text ""

/-- The name in bytes. -/
def nameOfBytes (bytes : List UInt8) : Name :=
  match Text.Utf8.decode? bytes with
  | some s => .text s
  | none => .bytes bytes

namespace ValueInfo

/-- The size that stands for one that is not known. -/
def placeholder : Int := 1

/-- The declared shape as a value. -/
def shape (v : ValueInfo) : Datum :=
  match v.sizes with
  | some sizes => .list (sizes.map fun d => .int (d.getD placeholder))
  | none => .null

end ValueInfo

namespace Node

/-- The attributes with a say in shapes, each name once with its last setting. -/
def settings (n : Node) : Except Misuse Settings :=
  n.attributes.foldlM (fun acc (name, a) => do
    match ← a.read with
    | some s => return putEntry acc name s
    | none => return acc) []

/-- The inputs that are not left out. -/
def givenInputs (n : Node) : List Name := n.inputs.filter (!isLeftOut ·)

end Node

namespace Model

/-- The initializers, each name once with its last tensor. -/
def constants (m : Model) : Except Misuse (List (Name × Constant)) :=
  m.initializers.foldlM (fun acc (name, t) => do return putEntry acc name (← t.read)) []

/-- The names that stand in the place of a target shape. -/
def targets (m : Model) : List Name :=
  m.nodes.filterMap fun n => if n.op == .text "Reshape" then n.inputs[1]? else none

end Model

end GraphShapes.Onnx
