/-
GraphShapes.Datum.Truth — values as truth values.

A number is true unless it is zero, a text or container unless it is empty. An
array is as true as its one element, which is zero for all arrays whose
elements are not known; an array of any other number of elements is neither
true nor false. The arrays of a model, whose elements are known, are left to
`GraphShapes.Onnx.Constant`.
-/
import GraphShapes.Datum
import GraphShapes.Misuse

namespace GraphShapes.Datum

/-- Is the value neither empty nor zero nor null? -/
def isTruthy : Datum → Except Misuse Bool
  | .null => .ok false
  | .bool b => .ok b
  | .int n => .ok (n != 0)
  | .float x => .ok !x.isZero
  | .text s => .ok !s.isEmpty
  | .ragged _ => .ok true
  | .bytes bs => .ok !bs.isEmpty
  | .list items => .ok !items.isEmpty
  | .tuple items => .ok !items.isEmpty
  | .dict entries => .ok !entries.isEmpty
  | .elementInt n => .ok (n != 0)
  | .elementBool b => .ok b
  | .elementFloat x => .ok !x.isZero
  | .elementSpan s => .ok (s.steps != some 0)
  | .array sizes _ => if Text.Grid.count sizes = 1 then .ok false else .error .badValue
  | .placeholder _ => .ok true
  | .shaped _ _ => .ok true

end GraphShapes.Datum
