/-
GraphShapes.Input — concrete inputs of a run.

A concrete input is a value of any kind. A tensor, or anything that exposes
its sizes as a tuple, is known by its sizes; an integer or truth value is
itself; a list of integers is itself. Everything else is refused.
-/
import GraphShapes.Datum.Cast
import GraphShapes.Datum.Items
import GraphShapes.Datum.Truth
import GraphShapes.Graph.Basic
import GraphShapes.Input.Description

namespace GraphShapes.Input

/-- The sizes of an input. -/
def sizes (ds : List Datum) : Except Fault Meta :=
  match ds.mapM Datum.toInt with
  | .ok ns => .ok (.tensor ns)
  | .error m => .error (.misuse m)

/-- What is known of a value that is neither a tensor nor an integer. -/
def ofList (d : Datum) : Except Fault Meta :=
  match d.asInts? with
  | some ns => .ok (.ints ns)
  | none =>
    if d.areIntegral then .error (.misuse .wrongKind)
    else .error (.inference (.inputKind d.kind))

/-- What is known of a concrete input. -/
def toMeta (d : Datum) : Except Fault Meta :=
  match d with
  | .placeholder ds => sizes ds
  | .array ns _ => .ok (.tensor (ns.map Int.ofNat))
  | .shaped false ds => sizes ds
  | d =>
    match d.asInt? with
    | some n => .ok (.scalar n)
    | none => if d.isIntegral then .error (.misuse .wrongKind) else ofList d

/-- The placeholder of a graph input, from its declared sizes. -/
def declaredInput (g : Graph) (name : Name) : Except Fault Datum :=
  let undeclared : Fault := .inference (.undeclaredInput name)
  match g.value? name with
  | none => .error undeclared.settled
  | some v =>
    match v.tensorMark.isTruthy, v.shape with
    | .error m, _ => .error (.misuse m)
    | .ok false, _ => .error undeclared.settled
    | .ok true, .null => .error undeclared.settled
    | .ok true, shape =>
      match shape.yields with
      | .ok ds => .ok (.placeholder ds)
      | .error m => .error (.misuse m)

/-- Placeholders for all inputs of a graph. -/
def declaredInputs (g : Graph) : Except Fault (List Datum) := g.inputs.mapM (declaredInput g)

end GraphShapes.Input
