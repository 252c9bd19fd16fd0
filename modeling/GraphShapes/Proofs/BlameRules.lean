/-
GraphShapes.Proofs.BlameRules — the rules with every defect raised under a tag.

A rule of `GraphShapes.Rule` refuses with a defect, and who is to blame for it is
said once, by the step that applies the rule. Here the same rules raise their
defects where they find them, as errors that name an operator, and the name is
handed from one computation to the next: a rule takes it from the node, and hands
it to the check of a count, of an operand's kind or of an attribute. A computation
on shapes serves several operators, and takes a tag that is in general not the
node's unless it is told otherwise. Where two integers are folded, the operator is
looked up anew, by the tag that was handed down.

That every error names the node, wherever it is raised, is the matter of
`GraphShapes.Proofs.BlameTheorems`.

  §1 Shapes     — the operations on shapes, each with the tag that it assumes.
  §2 Attributes — typed views of a node's attributes.
  §3 Operands   — how many there are, and of which kinds.
  §4 Rules      — rule by rule.
  §5 Steps      — one node.
-/
import GraphShapes.Inference.Walk

namespace GraphShapes.Blame

/-- Raises a defect as the error of an operator. -/
def raise {α : Type} (tag : Datum) (d : NodeDefect) : Except Fault α :=
  .error (.inference (.node tag d))

/-! ## §1 Shapes -/

def normalizeAxis (code : String) (axis rank : Int) (tag : Datum) : Except Fault Nat :=
  let i := if axis < 0 then axis + rank else axis
  if i < 0 || i ≥ rank then raise tag (.shape (.axisOutOfRange code i rank)) else .ok i.toNat

def broadcastFromEnd (tag : Datum) : Nat → Shape → Shape → Except Fault Shape
  | _, [], bs => .ok bs
  | _, a :: as, [] => .ok (a :: as)
  | i, a :: as, b :: bs => do
    let size ←
      if a = 1 then .ok b
      else if b = 1 then .ok a
      else if a = b then .ok a
      else raise tag (.shape (.broadcast a b (-1 - (i : Int))))
    return size :: (← broadcastFromEnd tag (i + 1) as bs)

def broadcast (a b : Shape) (tag : Datum := .text "broadcast") : Except Fault Shape := do
  let fromEnd ← broadcastFromEnd tag 0 a.reverse b.reverse
  return fromEnd.reverse

def matmul (a b : Shape) (tag : Datum := .text "aten::mm") : Except Fault Shape :=
  match a, b with
  | [n, k], [l, m] => if k = l then .ok [n, m] else raise tag (.shape (.matmulSizes k l))
  | a, b => raise tag (.shape (.matmulRanks a.length b.length))

def batchMatmul (a b : Shape) (tag : Datum := .text "aten::bmm") : Except Fault Shape :=
  match a, b with
  | [s, n, k], [t, l, m] =>
    if s ≠ t then raise tag (.shape (.batchSizes s t))
    else if k ≠ l then raise tag (.shape (.batchMatmulSizes k l))
    else .ok [s, n, m]
  | a, b => raise tag (.shape (.batchMatmulRanks a.length b.length))

def chunk (shape : Shape) (chunks axis : Int) (tag : Datum := .text "prim::ConstantChunk") :
    Except Fault (List Shape) := do
  if chunks < 1 then raise tag (.shape (.chunkCount chunks))
  let i ← normalizeAxis "ECHUNK_DIM" axis shape.length tag
  let size := shape.getD i 0
  let c := (size + chunks - 1) / chunks
  let r := size - c * (chunks - 1)
  if r < 0 then raise tag (.shape (.chunkSize size chunks))
  return Shape.pieces shape i c r chunks.toNat

def join (tag : Datum) (along : Nat) : Nat → Shape → Shape → Except Fault Shape
  | j, a :: as, b :: bs => do
    let size ←
      if j = along then .ok (a + b)
      else if a = b then .ok a
      else raise tag (.shape (.concatSizes along a b j))
    return size :: (← join tag along (j + 1) as bs)
  | _, _, _ => .ok []

def joinAll (tag : Datum) (along : Nat) : Shape → List Shape → Except Fault Shape
  | shape, [] => .ok shape
  | shape, s :: rest => do
    if s.length ≠ shape.length then
      raise tag (.shape (.concatRanks shape.length s.length))
    joinAll tag along (← join tag along 0 shape s) rest

def concat (first : Shape) (rest : List Shape) (axis : Int)
    (tag : Datum := .text "prim::FusedConcat") : Except Fault Shape :=
  if rest.isEmpty then .ok first
  else do
    let i ← normalizeAxis "ECONCAT_DIM" axis first.length tag
    joinAll tag i first rest

def stack (first : Shape) (rest : List Shape) (axis : Int)
    (tag : Datum := .text "glow::fused_stack") : Except Fault Shape :=
  if rest.isEmpty then .ok first
  else do
    let i ← normalizeAxis "ESTACK_DIM" axis (first.length + 1) tag
    match rest.find? (· ≠ first) with
    | some other => raise tag (.shape (.stackShapes first other))
    | none => return first.take i ++ ((rest.length : Int) + 1) :: first.drop i

def slice (shape : Shape) (axis start stop step : Int) (tag : Datum := .text "aten::slice") :
    Except Fault Shape := do
  if step < 1 then raise tag (.shape (.sliceStep step))
  let i ← normalizeAxis "ESLICE_DIM" axis shape.length tag
  return shape.set i (Shape.sliceLength (shape.getD i 0) start stop step)

def reshape (shape target : Shape) (tag : Datum := .text "aten::reshape") : Except Fault Shape :=
  let openSizes := target.countP (· = -1)
  let total := Shape.size shape
  let explicit := Shape.size (Shape.explicitSizes target)
  if openSizes > 1 then raise tag (.shape (.manyPlaceholders target))
  else if !Shape.fits openSizes explicit total || target.any (· < -1) then
    raise tag (.shape (.reshapeSize target total))
  else .ok (target.map fun d => if d = -1 then total / explicit else d)

def axisSize (tag : Datum) (shape : Shape) (axis : Int) : Except Fault Int :=
  if axis < 0 then raise tag (.shape (.permuteNegative axis))
  else if axis ≥ shape.length then raise tag (.shape (.permuteAxis axis shape.length))
  else .ok (shape.getD axis.toNat 0)

def permute (shape : Shape) (axes : List Int) (tag : Datum := .text "aten::permute") :
    Except Fault Shape :=
  if axes.length ≠ shape.length then raise tag (.shape (.permuteRank axes shape.length))
  else axes.mapM (axisSize tag shape)

/-! ## §2 Attributes -/

def attr (node : Node) (name : String) : Except Fault Datum :=
  match lookup? node.attributes (.text name) with
  | some d => .ok d
  | none => raise node.op (.missingAttribute name)

def intAttribute (node : Node) (name : String) : Except Fault Int := do
  let d ← attr node name
  match d.asInt? with
  | some n => return n
  | none =>
    if d.isIntegral then .error (.misuse .wrongKind)
    else raise node.op (.attributeNotInt name d.kind)

def intsAttribute (node : Node) (name : String) : Except Fault (List Int) := do
  let d ← attr node name
  match d.items?.bind (·.mapM Datum.asWhole?) with
  | some ns => return ns
  | none =>
    if d.items?.any (·.all Datum.isWhole) then .error (.misuse .wrongKind)
    else raise node.op (.attributeNotInts name)

/-- The sizes of an attribute that is a tensor. What a value exposes as its sizes need
not be sizes; that is a misuse, which names nobody. -/
def tensorAttribute (node : Node) (name : String) : Except Fault Shape := do
  match ← attr node name with
  | .array sizes _ => return sizes.map Int.ofNat
  | d =>
    match d.exposedSizes? with
    | none => raise node.op (.attributeNotTensor name)
    | some sizes =>
      match Datum.toSizes 1 sizes with
      | .ok ns => return ns.map Int.ofNat
      | .error m => .error (.misuse m)

/-! ## §3 Operands -/

def arity {α : Type} (tag : Datum) (least : Nat) (greatest : Option Nat) (metas : List Meta) :
    Except Fault α :=
  raise tag (.arity least greatest metas.length)

def tensor (tag : Datum) (operand code : String) : Meta → Except Fault Shape
  | .tensor sizes => .ok sizes
  | found => raise tag (.notTensor operand code found)

def scalar (tag : Datum) (operand code : String) : Meta → Except Fault Int
  | .scalar n => .ok n
  | found => raise tag (.notInteger operand code found)

def integers (tag : Datum) (operand code : String) : Meta → Except Fault (List Int)
  | .ints ns => .ok ns
  | found => raise tag (.notIntegers operand code found)

def tensors (tag : Datum) (code : String) : Nat → List Meta → Except Fault (List Shape)
  | _, [] => .ok []
  | i, m :: rest => do
    let sizes ← tensor tag ("input " ++ Decimal.render i) code m
    return sizes :: (← tensors tag code (i + 1) rest)

def elements (tag : Datum) (code : String) : Nat → List Meta → Except Fault (List Int)
  | _, [] => .ok []
  | i, m :: rest => do
    let n ← scalar tag ("element " ++ Decimal.render i) code m
    return n :: (← elements tag code (i + 1) rest)

/-! ## §4 Rules -/

abbrev Answer := Except Fault (List Meta)

def constant (node : Node) (ctx : Context) : Answer := do
  match Rule.constantKind ctx with
  | .float => return [.scalar 1]
  | .integer => return [.scalar (← intAttribute node "value")]
  | .nothing => return [.nothing]
  | .tensor => return [.tensor (← tensorAttribute node "value")]
  | .integers => return [.ints (← intsAttribute node "value")]
  | .incomparable => .error (.misuse .badValue)
  | .untracked _ => return [.nothing]

def elementwise (node : Node) : List Meta → Answer
  | [m] => .ok [m]
  | metas => arity node.op 1 (some 1) metas

/-- The exact integer of two scalars, by the operator that a tag names. -/
def fold (tag : Datum) (x y : Int) : Except Fault Meta :=
  match Operator.ofTag? tag with
  | some .add => .ok (.scalar (x + y))
  | some .sub => .ok (.scalar (x - y))
  | some .mul => .ok (.scalar (x * y))
  | some .pow =>
    if y < 0 then raise tag (.negativeExponent y) else .ok (.scalar (Rule.power x y.toNat))
  | _ => raise tag .twoScalars

def combine (tag : Datum) : Meta → Meta → Except Fault Meta
  | .tensor a, .tensor b => return .tensor (← broadcast a b tag)
  | .tensor a, .scalar _ => .ok (.tensor a)
  | .scalar _, .tensor b => .ok (.tensor b)
  | .scalar x, .scalar y => fold tag x y
  | a, b => raise tag (.operandKind (if Rule.isArithmetic a then b else a))

def binary (node : Node) : List Meta → Answer
  | [a, b] => return [← combine node.op a b]
  | [a, b, _] => return [← combine node.op a b]
  | metas => arity node.op 2 (some 3) metas

def matrixProduct (node : Node) : List Meta → Answer
  | [a, b] => do
    let a ← tensor node.op "self" "EMM_RANK" a
    let b ← tensor node.op "mat2" "EMM_RANK" b
    return [.tensor (← matmul a b node.op)]
  | metas => arity node.op 2 (some 2) metas

def batchProduct (node : Node) : List Meta → Answer
  | [a, b] => do
    let a ← tensor node.op "self" "EBMM_RANK" a
    let b ← tensor node.op "mat2" "EBMM_RANK" b
    return [.tensor (← batchMatmul a b node.op)]
  | metas => arity node.op 2 (some 2) metas

def innerProduct (tag : Datum) (a : Meta) : Meta → Except Fault Meta
  | .scalar _ => .ok a
  | b => do
    let a ← tensor tag "mat1" "EMM_RANK" a
    let b ← tensor tag "mat2" "EMM_RANK" b
    return .tensor (← matmul a b tag)

def multiplyAdd (node : Node) : List Meta → Answer
  | c :: a :: b :: _ => do return [← combine node.op c (← innerProduct node.op a b)]
  | metas => arity node.op 3 none metas

def constantChunk (node : Node) : List Meta → Answer
  | [m] => do
    let shape ← tensor node.op "self" "ECHUNK_ARG" m
    let chunks ← intAttribute node "chunks"
    let axis ← intAttribute node "dim"
    return (← chunk shape chunks axis node.op).map .tensor
  | metas => arity node.op 1 (some 1) metas

def joined (code : String) (operation : Shape → List Shape → Int → Except Fault Shape)
    (node : Node) : List Meta → Answer
  | [] => arity node.op 1 none []
  | [m] => .ok [m]
  | m :: rest => do
    let first ← tensor node.op "input 0" code m
    let others ← tensors node.op code 1 rest
    let axis ← intAttribute node "dim"
    return [.tensor (← operation first others axis)]

def fusedConcat (node : Node) (metas : List Meta) : Answer :=
  joined "ECONCAT_ARG" (fun first rest axis => concat first rest axis node.op) node metas

def fusedStack (node : Node) (metas : List Meta) : Answer :=
  joined "ESTACK_ARG" (fun first rest axis => stack first rest axis node.op) node metas

def listConstruct (node : Node) : List Meta → Answer
  | [] => arity node.op 1 none []
  | metas => do return [.ints (← elements node.op "ELIST_ARG" 0 metas)]

def sliced (node : Node) : List Meta → Answer
  | [self, axis, start, stop, step] => do
    let shape ← tensor node.op "self" "ESLICE_ARG" self
    let axis ← scalar node.op "dim" "ESLICE_ARG" axis
    let start ← scalar node.op "start" "ESLICE_ARG" start
    let stop ← scalar node.op "end" "ESLICE_ARG" stop
    let step ← scalar node.op "step" "ESLICE_ARG" step
    return [.tensor (← slice shape axis start stop step node.op)]
  | metas => arity node.op 5 (some 5) metas

def reshaped (node : Node) : List Meta → Answer
  | [self, target] => do
    let shape ← tensor node.op "self" "ERESHAPE_ARG" self
    let target ← integers node.op "shape" "ERESHAPE_ARG" target
    return [.tensor (← reshape shape target node.op)]
  | metas => arity node.op 2 (some 2) metas

def permuted (node : Node) : List Meta → Answer
  | [self, axes] => do
    let shape ← tensor node.op "self" "EPERMUTE_ARG" self
    let axes ← integers node.op "dims" "EPERMUTE_ARG" axes
    return [.tensor (← permute shape axes node.op)]
  | metas => arity node.op 2 (some 2) metas

def tableWidth (tag : Datum) (weight : Meta) : Except Fault Int := do
  match ← tensor tag "weight" "EEMBED_ARG" weight with
  | [_, width] => return width
  | sizes => raise tag (.operandRank "2D" "weight" sizes.length)

def offsetCount (tag : Datum) (offsets : Meta) : Except Fault Int := do
  match ← tensor tag "offsets" "EEMBED_ARG" offsets with
  | [n] => return n
  | sizes => raise tag (.operandRank "1D" "offsets" sizes.length)

def bagCount (tag : Datum) (ctx : Context) (offsets : Meta) : Except Fault Int := do
  return (← offsetCount tag offsets) - Rule.sentinels ctx

def embeddingBag (node : Node) (ctx : Context) : List Meta → Answer
  | [weight, indices, offsets, _, _, _, _, _] => do
    let width ← tableWidth node.op weight
    let bags ←
      match ← tensor node.op "indices" "EEMBED_ARG" indices with
      | [_] => bagCount node.op ctx offsets
      | [rows, _] => pure rows
      | sizes => raise node.op (.indicesRank sizes.length)
    return [.tensor [bags, width]]
  | metas => arity node.op Rule.embeddingArity (some Rule.embeddingArity) metas

def embeddingBagRowwise (node : Node) (ctx : Context) : List Meta → Answer
  | [weight, _, offsets, _, _, _, _, _] => do
    let width ← tableWidth node.op weight
    let bags ← bagCount node.op ctx offsets
    return [.tensor [bags, width - Rule.rowTrailer]]
  | metas => arity node.op Rule.embeddingArity (some Rule.embeddingArity) metas

/-- The rule of an operator. Rules that serve several operators are not told which. -/
def apply (op : Operator) (metas : List Meta) (node : Node) (ctx : Context) : Answer :=
  match op with
  | .constant => constant node ctx
  | .listConstruct => listConstruct node metas
  | .constantChunk => constantChunk node metas
  | .fusedConcat => fusedConcat node metas
  | .fusedStack => fusedStack node metas
  | .tanh | .relu | .sigmoid => elementwise node metas
  | .add | .sub | .mul | .pow => binary node metas
  | .mm => matrixProduct node metas
  | .bmm => batchProduct node metas
  | .addmm => multiplyAdd node metas
  | .slice => sliced node metas
  | .reshape => reshaped node metas
  | .permute => permuted node metas
  | .embeddingBag => embeddingBag node ctx metas
  | .embeddingBagRowwise => embeddingBagRowwise node ctx metas

/-! ## §5 Steps -/

/-- The operator that a tag names. -/
def find (tag : Datum) : Except Fault Operator :=
  match Operator.ofTag? tag with
  | some op => .ok op
  | none => raise tag .unsupported

/-- The tracked outputs of a node with what the rule says of them. -/
def paired (op : Operator) (node : Node) (results : List Meta) :
    Except Fault (List (Name × Meta)) :=
  let outputs := op.tracked node.outputs
  if results.length ≠ outputs.length then
    raise node.op (.outputCount results.length outputs.length)
  else .ok (outputs.zip results)

/-- What a node makes of a store: its operator and what is known of its outputs. -/
def evaluate (g : Graph) (config : Config) (s : Store) (node : Node) :
    Except Fault (Operator × List Meta) := do
  let op ← find node.op
  let metas ← (Graph.operands s op.tag node.inputs).mapError .consistency
  return (op, ← apply op metas node (g.context config node))

/-- One node. -/
def inferNode (g : Graph) (config : Config) (s : Store) (node : Node) : Progress :=
  match evaluate g config s node with
  | .error f => Progress.stopped s f
  | .ok (op, results) =>
    let p :=
      match paired op node results with
      | .error f => Progress.stopped s f
      | .ok entries => Store.writeAll (op.tag ++ " -> ") s entries
    { p with log := Rule.notes op (g.context config node) ++ p.log }

end GraphShapes.Blame
