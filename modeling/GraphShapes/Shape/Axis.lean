/-
GraphShapes.Shape.Axis — operations along one axis.

Chunking cuts an axis into pieces of equal size with the remainder in the last
one, concatenation adds the sizes along an axis, stacking makes a new axis,
slicing keeps every `step`-th position of a range. An axis may be counted from
the end; bounds of a slice may be negative or lie outside the axis.
-/
import GraphShapes.Shape.Defect

namespace GraphShapes.Shape

/-- The pieces of an axis: all of size `c` but the last, which has size `r`. -/
def pieces (shape : Shape) (axis : Nat) (c r : Int) : Nat → List Shape
  | 0 => []
  | 1 => [shape.set axis r]
  | n + 2 => shape.set axis c :: pieces shape axis c r (n + 1)

/-- Cuts an axis into pieces. -/
def chunk (shape : Shape) (chunks axis : Int) : Except Defect (List Shape) := do
  if chunks < 1 then .error (.chunkCount chunks)
  let i ← normalizeAxis "ECHUNK_DIM" axis shape.length
  let size := shape.getD i 0
  let c := (size + chunks - 1) / chunks
  let r := size - c * (chunks - 1)
  if r < 0 then .error (.chunkSize size chunks)
  return pieces shape i c r chunks.toNat

/-- Adds the sizes along an axis, the other sizes being equal; `j` axes lie in
front. -/
def join (along : Nat) : Nat → Shape → Shape → Except Defect Shape
  | j, a :: as, b :: bs => do
    let size ←
      if j = along then .ok (a + b)
      else if a = b then .ok a
      else .error (.concatSizes along a b j)
    return size :: (← join along (j + 1) as bs)
  | _, _, _ => .ok []

/-- Joins further shapes of one rank to a shape along an axis. -/
def joinAll (along : Nat) : Shape → List Shape → Except Defect Shape
  | shape, [] => .ok shape
  | shape, s :: rest => do
    if s.length ≠ shape.length then .error (.concatRanks shape.length s.length)
    joinAll along (← join along 0 shape s) rest

/-- The concatenation of a shape with further ones; a shape alone is itself. -/
def concat (first : Shape) (rest : List Shape) (axis : Int) : Except Defect Shape :=
  if rest.isEmpty then .ok first
  else do
    let i ← normalizeAxis "ECONCAT_DIM" axis first.length
    joinAll i first rest

/-- The stack of a shape with further ones; a shape alone is itself. -/
def stack (first : Shape) (rest : List Shape) (axis : Int) : Except Defect Shape :=
  if rest.isEmpty then .ok first
  else do
    let i ← normalizeAxis "ESTACK_DIM" axis (first.length + 1)
    match rest.find? (· ≠ first) with
    | some other => .error (.stackShapes first other)
    | none => return first.take i ++ ((rest.length : Int) + 1) :: first.drop i

/-- The concatenation of a list of shapes, if there is a first one. -/
def concatAll? : List Shape → Int → Option (Except Defect Shape)
  | [], _ => none
  | first :: rest, axis => some (concat first rest axis)

/-- The stack of a list of shapes, if there is a first one. -/
def stackAll? : List Shape → Int → Option (Except Defect Shape)
  | [], _ => none
  | first :: rest, axis => some (stack first rest axis)

/-- The range of an axis that a slice runs through, if it is not empty. -/
def sliceRange? (length start stop : Int) : Option (Int × Int) :=
  if start ≥ length || stop ≤ -length then none
  else
    let lo := if start ≤ -length then 0 else if start < 0 then start + length else start
    let hi := if stop > length then length else if stop < 0 then stop + length else stop
    if lo ≥ hi then none else some (lo, hi)

/-- How many steps it takes to pass a distance. -/
def stepsAcross (distance step : Int) : Int :=
  Int.fdiv distance step + (if Int.fmod distance step = 0 then 0 else 1)

/-- The number of positions that a slice keeps. -/
def sliceLength (length start stop step : Int) : Int :=
  match sliceRange? length start stop with
  | none => 0
  | some (lo, hi) => stepsAcross (hi - lo) step

/-- The number of positions that a slice keeps, for any step; a range is not
crossed in steps of zero. -/
def sliceLength? (length start stop step : Int) : Option Int :=
  if step = 0 && (sliceRange? length start stop).isSome then none
  else some (sliceLength length start stop step)

/-- The shape of a slice along an axis. -/
def slice (shape : Shape) (axis start stop step : Int) : Except Defect Shape := do
  if step < 1 then .error (.sliceStep step)
  let i ← normalizeAxis "ESLICE_DIM" axis shape.length
  return shape.set i (sliceLength (shape.getD i 0) start stop step)

end GraphShapes.Shape
