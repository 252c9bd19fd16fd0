/-
GraphShapes.Rule.Layout — cutting, joining and rearranging.

A concatenation or stack of one operand is that operand, whatever it is and
whatever the axis.
-/
import GraphShapes.Rule.Operand
import GraphShapes.Shape.Axis
import GraphShapes.Shape.Rearrange

namespace GraphShapes.Rule

/-- A tensor cut into pieces. -/
def constantChunk (node : Node) : List Meta → Answer
  | [m] => do
    let shape ← tensor "self" "ECHUNK_ARG" m
    let chunks ← node.intAttribute "chunks"
    let axis ← node.intAttribute "dim"
    return (← shaped (Shape.chunk shape chunks axis)).map .tensor
  | metas => arity 1 (some 1) metas

/-- Tensors joined by an operation on a first shape, further shapes and an axis. -/
def joined (code : String) (operation : Shape → List Shape → Int → Except Shape.Defect Shape)
    (node : Node) : List Meta → Answer
  | [] => arity 1 none []
  | [m] => .ok [m]
  | m :: rest => do
    let first ← tensor "input 0" code m
    let others ← tensors code 1 rest
    let axis ← node.intAttribute "dim"
    return [.tensor (← shaped (operation first others axis))]

/-- Tensors joined along an axis. -/
def fusedConcat (node : Node) (metas : List Meta) : Answer :=
  joined "ECONCAT_ARG" Shape.concat node metas

/-- Tensors joined along a new axis. -/
def fusedStack (node : Node) (metas : List Meta) : Answer :=
  joined "ESTACK_ARG" Shape.stack node metas

/-- A list made of integers. -/
def listConstruct : List Meta → Answer
  | [] => arity 1 none []
  | metas => do return [.ints (← elements "ELIST_ARG" 0 metas)]

/-- A slice along an axis. -/
def sliced : List Meta → Answer
  | [self, axis, start, stop, step] => do
    let shape ← tensor "self" "ESLICE_ARG" self
    let axis ← scalar "dim" "ESLICE_ARG" axis
    let start ← scalar "start" "ESLICE_ARG" start
    let stop ← scalar "end" "ESLICE_ARG" stop
    let step ← scalar "step" "ESLICE_ARG" step
    return [.tensor (← shaped (Shape.slice shape axis start stop step))]
  | metas => arity 5 (some 5) metas

/-- A tensor under another shape. -/
def reshaped : List Meta → Answer
  | [self, target] => do
    let shape ← tensor "self" "ERESHAPE_ARG" self
    let target ← integers "shape" "ERESHAPE_ARG" target
    return [.tensor (← shaped (Shape.reshape shape target))]
  | metas => arity 2 (some 2) metas

/-- A tensor with its axes reordered. -/
def permuted : List Meta → Answer
  | [self, axes] => do
    let shape ← tensor "self" "EPERMUTE_ARG" self
    let axes ← integers "dims" "EPERMUTE_ARG" axes
    return [.tensor (← shaped (Shape.permute shape axes))]
  | metas => arity 2 (some 2) metas

end GraphShapes.Rule
