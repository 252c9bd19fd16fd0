/-
GraphShapes.Shape.Rearrange — the same elements under other axes.

A reshape target may leave one size open as `-1`; it is the quotient of the
input's size by the product of the others, and must be determined by it. A
permutation lists the input axis of every output axis.
-/
import GraphShapes.Shape.Defect

namespace GraphShapes.Shape

/-- The number of elements of a shape. -/
def size (shape : Shape) : Int := shape.foldr (· * ·) 1

/-- The sizes of a target that are not left open. -/
def explicitSizes (target : Shape) : Shape := target.filter (· ≠ -1)

/-- Fits a target that leaves `openSizes` sizes open, the others having the
product `explicit`, the number of elements `total`? -/
def fits (openSizes : Nat) (explicit total : Int) : Bool :=
  if openSizes = 0 then
    if explicit = 0 then total = 0 else total % explicit = 0
  else explicit ≠ 0 && total % explicit = 0

/-- The shape that a reshape target stands for. -/
def reshape (shape target : Shape) : Except Defect Shape :=
  let openSizes := target.countP (· = -1)
  let total := size shape
  let explicit := size (explicitSizes target)
  if openSizes > 1 then .error (.manyPlaceholders target)
  else if !fits openSizes explicit total || target.any (· < -1) then
    .error (.reshapeSize target total)
  else .ok (target.map fun d => if d = -1 then total / explicit else d)

/-- The size of the input axis that a permutation names. -/
def axisSize (shape : Shape) (axis : Int) : Except Defect Int :=
  if axis < 0 then .error (.permuteNegative axis)
  else if axis ≥ shape.length then .error (.permuteAxis axis shape.length)
  else .ok (shape.getD axis.toNat 0)

/-- The shape with its axes in the order of a permutation. -/
def permute (shape : Shape) (axes : List Int) : Except Defect Shape :=
  if axes.length ≠ shape.length then .error (.permuteRank axes shape.length)
  else axes.mapM (axisSize shape)

end GraphShapes.Shape
