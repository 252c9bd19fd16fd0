/-
GraphShapes.Graph.Attribute — typed views of a node's attributes.

An attribute is asked for as an integer, as a list of integers or as a tensor,
of which only the sizes count. A truth value is an integer; one taken out of
an array is one too, but not inside a list.
-/
import GraphShapes.Datum.Cast
import GraphShapes.Fault
import GraphShapes.Graph.Basic

namespace GraphShapes

/-- The integer of a whole number or of a document's truth value. -/
def Datum.asWhole? : Datum → Option Int
  | .bool b => some b.toInt
  | .int n => some n
  | .elementInt n => some n
  | .elementSpan s => s.whole?
  | _ => none

/-- The items of a list or tuple. -/
def Datum.items? : Datum → Option (List Datum)
  | .list items => some items
  | .tuple items => some items
  | _ => none

/-- The sizes that a value exposes. -/
def Datum.exposedSizes? : Datum → Option (List Datum)
  | .elementInt _ => some []
  | .elementBool _ => some []
  | .elementFloat _ => some []
  | .elementSpan _ => some []
  | .placeholder sizes => some sizes
  | .shaped _ sizes => some sizes
  | _ => none

namespace Node

/-- An attribute of any kind. -/
def attr (node : Node) (name : String) : Except Refusal Datum :=
  match lookup? node.attributes (.text name) with
  | some d => .ok d
  | none => .error (.defect (.missingAttribute name))

/-- An attribute as an integer. What passes for one may still be no integer. -/
def intAttribute (node : Node) (name : String) : Except Refusal Int := do
  let d ← node.attr name
  match d.asInt? with
  | some n => return n
  | none =>
    if d.isIntegral then .error (.misuse .wrongKind)
    else .error (.defect (.attributeNotInt name d.kind))

/-- An attribute as a list of integers. -/
def intsAttribute (node : Node) (name : String) : Except Refusal (List Int) := do
  let d ← node.attr name
  match d.items?.bind (·.mapM Datum.asWhole?) with
  | some ns => return ns
  | none =>
    if d.items?.any (·.all Datum.isWhole) then .error (.misuse .wrongKind)
    else .error (.defect (.attributeNotInts name))

/-- The sizes of an attribute that is a tensor. -/
def tensorAttribute (node : Node) (name : String) : Except Refusal Shape := do
  match ← node.attr name with
  | .array sizes _ => return sizes.map Int.ofNat
  | d =>
    match d.exposedSizes? with
    | none => .error (.defect (.attributeNotTensor name))
    | some sizes =>
      match Datum.toSizes 1 sizes with
      | .ok ns => return ns.map Int.ofNat
      | .error m => .error (.misuse m)

end Node

end GraphShapes
