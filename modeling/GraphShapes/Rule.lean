/-
GraphShapes.Rule — the shape rule of every operator.

`Rule.apply` answers what is known of a node's outputs from what is known of
its operands; `Rule.notes` is what the rule writes to the log.
-/
import GraphShapes.Rule.Arithmetic
import GraphShapes.Rule.Embedding
import GraphShapes.Rule.Layout

namespace GraphShapes.Rule

/-- What an operator makes of its operands. -/
def apply (op : Operator) (metas : List Meta) (node : Node) (ctx : Context) : Answer :=
  match op with
  | .constant => constant node ctx
  | .listConstruct => listConstruct metas
  | .constantChunk => constantChunk node metas
  | .fusedConcat => fusedConcat node metas
  | .fusedStack => fusedStack node metas
  | .tanh => elementwise metas
  | .relu => elementwise metas
  | .sigmoid => elementwise metas
  | .add => binary .add metas
  | .sub => binary .sub metas
  | .mul => binary .mul metas
  | .pow => binary .pow metas
  | .mm => matrixProduct metas
  | .bmm => batchProduct metas
  | .addmm => multiplyAdd metas
  | .slice => sliced metas
  | .reshape => reshaped metas
  | .permute => permuted metas
  | .embeddingBag => embeddingBag ctx metas
  | .embeddingBagRowwise => embeddingBagRowwise ctx metas

/-- The logger of the rules. -/
def logger : String := Log.fullName "infer.rules"

/-- A constant of an untracked type is noted. -/
def notes (op : Operator) (ctx : Context) : List Log.Record :=
  match op, constantKind ctx with
  | .constant, .untracked type =>
    [⟨.debug, logger, "constant of type " ++ type.display ++ " carries no shape"⟩]
  | _, _ => []

/-- The operator of a registered set that a node's tag names. -/
def find (registered : List Operator) (tag : Datum) : Except Fault Operator :=
  match Operator.find? registered tag with
  | some op => .ok op
  | none => .error (.inference (.node tag .unsupported))

/-- The answer of the rule that a tag names, as it can be told, with its notes. -/
def answer (registered : List Operator) (tag : Datum) (metas : List Meta) (node : Node)
    (ctx : Context) : Except Fault (Operator × List Meta × List Log.Record) :=
  match find registered tag with
  | .error f => .error f.settled
  | .ok op =>
    match apply op metas node ctx with
    | .error r => .error (r.toFault tag).settled
    | .ok results => .ok (op, results, notes op ctx)

end GraphShapes.Rule
