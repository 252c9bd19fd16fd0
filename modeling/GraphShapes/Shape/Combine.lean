/-
GraphShapes.Shape.Combine — shapes that meet.

Broadcasting lines two shapes up on the right and stretches sizes of one; the
two matrix products contract one axis.
-/
import GraphShapes.Shape.Defect

namespace GraphShapes.Shape

/-- Broadcasts two shapes given from the last axis on; `i` axes lie behind. -/
def broadcastFromEnd : Nat → Shape → Shape → Except Defect Shape
  | _, [], bs => .ok bs
  | _, a :: as, [] => .ok (a :: as)
  | i, a :: as, b :: bs => do
    let size ←
      if a = 1 then .ok b
      else if b = 1 then .ok a
      else if a = b then .ok a
      else .error (.broadcast a b (-1 - (i : Int)))
    return size :: (← broadcastFromEnd (i + 1) as bs)

/-- The shape that two shapes stretch to. -/
def broadcast (a b : Shape) : Except Defect Shape :=
  (broadcastFromEnd 0 a.reverse b.reverse).map List.reverse

/-- The shape of a matrix product. -/
def matmul : Shape → Shape → Except Defect Shape
  | [n, k], [l, m] => if k = l then .ok [n, m] else .error (.matmulSizes k l)
  | a, b => .error (.matmulRanks a.length b.length)

/-- The shape of a batch of matrix products. -/
def batchMatmul : Shape → Shape → Except Defect Shape
  | [s, n, k], [t, l, m] =>
    if s ≠ t then .error (.batchSizes s t)
    else if k ≠ l then .error (.batchMatmulSizes k l)
    else .ok [s, n, m]
  | a, b => .error (.batchMatmulRanks a.length b.length)

end GraphShapes.Shape
