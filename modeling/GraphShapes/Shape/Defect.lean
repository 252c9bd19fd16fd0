/-
GraphShapes.Shape.Defect — why shapes do not fit an operation.

Each cause has a code and a text. The text begins with the tag of the operator
on whose behalf the shapes were combined, so it is a function of that tag.
-/
import GraphShapes.Meta

namespace GraphShapes.Shape

/-- Why shapes do not fit an operation. -/
inductive Defect where
  /-- An axis outside the rank; the caller's use of the axis gives the code. -/
  | axisOutOfRange (code : String) (axis rank : Int)
  | broadcast (a b axis : Int)
  | matmulRanks (a b : Nat)
  | matmulSizes (a b : Int)
  | batchMatmulRanks (a b : Nat)
  | batchSizes (a b : Int)
  | batchMatmulSizes (a b : Int)
  | chunkCount (chunks : Int)
  | chunkSize (size chunks : Int)
  | concatRanks (first other : Nat)
  | concatSizes (along : Nat) (a b : Int) (axis : Nat)
  | stackShapes (first other : Shape)
  | sliceStep (step : Int)
  | manyPlaceholders (target : Shape)
  | reshapeSize (target : Shape) (size : Int)
  | permuteRank (axes : List Int) (rank : Nat)
  | permuteNegative (axis : Int)
  | permuteAxis (axis : Int) (rank : Nat)
  deriving DecidableEq, Repr, Inhabited

namespace Defect

open Decimal (render renderList)

/-- The code of a defect. -/
def code : Defect → String
  | .axisOutOfRange code _ _ => code
  | .broadcast _ _ _ => "EBROADCAST"
  | .matmulRanks _ _ => "EMM_RANK"
  | .matmulSizes _ _ => "EMM_DIMS"
  | .batchMatmulRanks _ _ => "EBMM_RANK"
  | .batchSizes _ _ => "EBMM_BATCH"
  | .batchMatmulSizes _ _ => "EBMM_DIMS"
  | .chunkCount _ => "ECHUNK_COUNT"
  | .chunkSize _ _ => "ECHUNK_SIZE"
  | .concatRanks _ _ => "ECONCAT_RANK"
  | .concatSizes _ _ _ _ => "ECONCAT_DIMS"
  | .stackShapes _ _ => "ESTACK_SHAPE"
  | .sliceStep _ => "ESLICE_STEP"
  | .manyPlaceholders _ => "ERESHAPE_NEG1"
  | .reshapeSize _ _ => "ERESHAPE_SIZE"
  | .permuteRank _ _ => "EPERMUTE_RANK"
  | .permuteNegative _ => "EPERMUTE_NEG"
  | .permuteAxis _ _ => "EPERMUTE_AXIS"

/-- Two ranks in a text. -/
def ranks (a b : Nat) : String := render a ++ " and " ++ render b

/-- Two sizes that had to agree at given axes. -/
def sizesAt (a b : Int) (i j : Nat) : String :=
  "the size of tensor a (" ++ render a ++ ") at dimension " ++ render i
    ++ " must match the size of tensor b (" ++ render b ++ ") at dimension " ++ render j

/-- The text of a defect without the operator's tag. -/
def body : Defect → String
  | .axisOutOfRange _ axis rank =>
    "dim " ++ render axis ++ " is out of range for rank " ++ render rank
  | .broadcast a b axis =>
    "the size of tensor a (" ++ render a ++ ") must match the size of tensor b ("
      ++ render b ++ ") at non-singleton dimension " ++ render axis
  | .matmulRanks a b => "expected 2-dimensional tensors, got ranks " ++ ranks a b
  | .matmulSizes a b => sizesAt a b 1 0
  | .batchMatmulRanks a b => "expected 3-dimensional tensors, got ranks " ++ ranks a b
  | .batchSizes a b =>
    "batch sizes differ at dimension 0 (" ++ render a ++ " vs " ++ render b ++ ")"
  | .batchMatmulSizes a b => sizesAt a b 2 1
  | .chunkCount chunks => "chunks must be positive, got " ++ render chunks
  | .chunkSize size chunks =>
    "cannot split size " ++ render size ++ " into " ++ render chunks ++ " chunks"
  | .concatRanks first other =>
    "all inputs must have the same number of dimensions (" ++ render first ++ " vs "
      ++ render other ++ ")"
  | .concatSizes along a b axis =>
    "sizes of tensors must match except in dimension " ++ render along ++ " (got "
      ++ render a ++ " and " ++ render b ++ " at dimension " ++ render axis ++ ")"
  | .stackShapes first other =>
    "all inputs must have the same shape (" ++ renderList first ++ " vs "
      ++ renderList other ++ ")"
  | .sliceStep step => "step must be positive, got " ++ render step
  | .manyPlaceholders target =>
    "unable to infer undetermined dimension in " ++ renderList target
  | .reshapeSize target size =>
    "shape " ++ renderList target ++ " is invalid for input of size " ++ render size
  | .permuteRank axes rank =>
    "permutation " ++ renderList axes
      ++ " must have the same number of dimensions as the input tensor (" ++ render rank ++ ")"
  | .permuteNegative axis => "negative permute axis " ++ render axis ++ " is not supported"
  | .permuteAxis axis rank =>
    "permute axis " ++ render axis ++ " must be less than the input rank " ++ render rank

/-- The text of a defect on behalf of an operator. -/
def message (tag : String) (d : Defect) : String := tag ++ ": " ++ d.body

/-- The integers that the text of a defect shows. -/
def integers : Defect → List Int
  | .axisOutOfRange _ axis rank => [axis, rank]
  | .broadcast a b axis => [a, b, axis]
  | .matmulRanks a b => [a, b]
  | .matmulSizes a b => [a, b]
  | .batchMatmulRanks a b => [a, b]
  | .batchSizes a b => [a, b]
  | .batchMatmulSizes a b => [a, b]
  | .chunkCount chunks => [chunks]
  | .chunkSize size chunks => [size, chunks]
  | .concatRanks first other => [first, other]
  | .concatSizes along a b axis => [along, a, b, axis]
  | .stackShapes first other => first ++ other
  | .sliceStep step => [step]
  | .manyPlaceholders target => target
  | .reshapeSize target size => target ++ [size]
  | .permuteRank axes rank => axes ++ [(rank : Int)]
  | .permuteNegative axis => [axis]
  | .permuteAxis axis rank => [axis, rank]

/-- Has every integer of the defect's text a text? -/
def isWritable (d : Defect) : Bool := d.integers.all Decimal.isWritable

end Defect

/-- The position of an axis: a negative axis counts from the end. -/
def normalizeAxis (code : String) (axis rank : Int) : Except Defect Nat :=
  let i := if axis < 0 then axis + rank else axis
  if i < 0 || i ≥ rank then .error (.axisOutOfRange code i rank) else .ok i.toNat

end GraphShapes.Shape
