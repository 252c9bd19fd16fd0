/-
GraphShapes.Proofs.CheckedRules — the rules with every partial step checked.

The rules of `GraphShapes.Rule` match on their operands, so what they read is
there by the form of the match, and their divisions are total. Here the same
rules are spelled in steps each of which can fail for want of something: an
item at an index, a member that only one kind of value has, an entry of a
table, a divisor other than zero. Loops go over positions and read and replace
items one at a time. A step that fails does so with a misuse and never with a
defect of the node, and nothing but the guards in front of it keeps it from
failing.

That no guard is missing is the matter of
`GraphShapes.Proofs.CheckedTheorems`: both spellings answer the same.

  §1 Steps      — items, numbers, members, attributes.
  §2 Shapes     — the operations on shapes.
  §3 Operands   — how many there are, and of which kinds.
  §4 Rules      — rule by rule.
-/
import GraphShapes.Datum.Items
import GraphShapes.Rule

namespace GraphShapes.Checked

open Rule (Answer refuse shaped)

/-! ## §1 Steps -/

/-- What an index names in a list; an index from the end is negative. -/
def item {α : Type} (xs : List α) (i : Int) : Except Refusal α :=
  match (Graph.position? xs.length i).bind (xs[·]?) with
  | some x => .ok x
  | none => .error (.misuse .outOfRange)

/-- The list with another item at an index. -/
def replaced {α : Type} (xs : List α) (i : Int) (x : α) : Except Refusal (List α) :=
  match Graph.position? xs.length i with
  | some j => .ok (xs.set j x)
  | none => .error (.misuse .outOfRange)

/-- The quotient of two integers, rounded down. -/
def quotient (a b : Int) : Except Refusal Int :=
  if b = 0 then .error (.misuse .divisionByZero) else .ok (Int.fdiv a b)

def remainder (a b : Int) : Except Refusal Int :=
  if b = 0 then .error (.misuse .divisionByZero) else .ok (Int.fmod a b)

/-- An integer to the power of another; below zero that is a fraction, if anything. -/
def power (x y : Int) : Except Refusal Int :=
  if 0 ≤ y then .ok (Rule.power x y.toNat)
  else if x = 0 then .error (.misuse .divisionByZero)
  else .error (.misuse .wrongKind)

/-! Members that values of one kind have and the others do not. -/

def sizesOf : Meta → Except Refusal Shape
  | .tensor sizes => .ok sizes
  | _ => .error (.misuse .missingMember)

def valueOf : Meta → Except Refusal Int
  | .scalar n => .ok n
  | _ => .error (.misuse .missingMember)

def valuesOf : Meta → Except Refusal (List Int)
  | .ints ns => .ok ns
  | _ => .error (.misuse .missingMember)

/-- A conversion of a value that may turn out not to have the kind for it. -/
def converted {α : Type} : Except Misuse α → Except Refusal α
  | .ok a => .ok a
  | .error m => .error (.misuse m)

def entry (fields : List (Name × Datum)) (key : Name) : Except Refusal Datum :=
  match lookup? fields key with
  | some d => .ok d
  | none => .error (.misuse .missingEntry)

def attr (node : Node) (name : String) : Except Refusal Datum :=
  if (lookup? node.attributes (.text name)).isNone then refuse (.missingAttribute name)
  else entry node.attributes (.text name)

/-- Is the value a truth value, perhaps one taken out of an array? -/
def isTruth : Datum → Bool
  | .bool _ => true
  | .elementBool _ => true
  | _ => false

def isSequence : Datum → Bool
  | .list _ => true
  | .tuple _ => true
  | _ => false

def isArray : Datum → Bool
  | .array _ _ => true
  | _ => false

def sizesOfArray : Datum → Except Refusal (List Nat)
  | .array sizes _ => .ok sizes
  | _ => .error (.misuse .missingMember)

/-- The sizes that a value exposes. -/
def exposedSizes (d : Datum) : Except Refusal (List Datum) :=
  match d.exposedSizes? with
  | some sizes => .ok sizes
  | none => .error (.misuse .missingMember)

def intAttribute (node : Node) (name : String) : Except Refusal Int := do
  let d ← attr node name
  if isTruth d then converted d.toInt
  else if d.isWhole then converted d.toInt
  else refuse (.attributeNotInt name d.kind)

/-- An attribute as a list of integers; what is no list or tuple is not gone through. -/
def intsAttribute (node : Node) (name : String) : Except Refusal (List Int) := do
  let d ← attr node name
  if !isSequence d then refuse (.attributeNotInts name)
  else do
    let items ← converted d.yields
    if items.all Datum.isWhole then items.mapM fun item => converted item.toInt
    else refuse (.attributeNotInts name)

def tensorAttribute (node : Node) (name : String) : Except Refusal Shape := do
  let d ← attr node name
  if isArray d then return (← sizesOfArray d).map Int.ofNat
  else if d.exposedSizes?.isSome then do
    return (← converted (Datum.toSizes 1 (← exposedSizes d))).map Int.ofNat
  else refuse (.attributeNotTensor name)

/-! ## §2 Shapes -/

/-- One size that two shapes, given from the last axis on, stretch to. -/
def broadcastSize (a b : Shape) (i : Nat) : Except Refusal Int :=
  if b.length ≤ i then item a i
  else if a.length ≤ i then item b i
  else do
    let x ← item a i
    let y ← item b i
    if x = 1 then return y
    else if y = 1 then return x
    else if x ≠ y then refuse (.shape (.broadcast x y (-1 - (i : Int))))
    else return x

def broadcast (a b : Shape) : Except Refusal Shape := do
  let sizes ← (List.range (max a.length b.length)).mapM (broadcastSize a.reverse b.reverse)
  return sizes.reverse

def matmul (a b : Shape) : Except Refusal Shape :=
  if a.length ≠ 2 ∨ b.length ≠ 2 then refuse (.shape (.matmulRanks a.length b.length))
  else do
    let k ← item a 1
    let l ← item b 0
    if k ≠ l then refuse (.shape (.matmulSizes k l))
    else return [← item a 0, ← item b 1]

def batchMatmul (a b : Shape) : Except Refusal Shape :=
  if a.length ≠ 3 ∨ b.length ≠ 3 then refuse (.shape (.batchMatmulRanks a.length b.length))
  else do
    let s ← item a 0
    let t ← item b 0
    if s ≠ t then refuse (.shape (.batchSizes s t))
    else do
      let k ← item a 2
      let l ← item b 1
      if k ≠ l then refuse (.shape (.batchMatmulSizes k l))
      else return [s, ← item a 1, ← item b 2]

/-- Cuts an axis into pieces, the last of which takes what the others leave. -/
def chunk (shape : Shape) (chunks axis : Int) : Except Refusal (List Shape) :=
  if chunks < 1 then refuse (.shape (.chunkCount chunks))
  else do
    let i ← shaped (Shape.normalizeAxis "ECHUNK_DIM" axis shape.length)
    let size ← item shape i
    let c ← quotient (size + chunks - 1) chunks
    -- What is left for the last piece has no bound until here.
    let r := size - c * (chunks - 1)
    if r < 0 then refuse (.shape (.chunkSize size chunks))
    else (List.range chunks.toNat).mapM fun (k : Nat) =>
      replaced shape i (if (k : Int) = chunks - 1 then r else c)

/-- Adds or compares the sizes of one axis. -/
def joinSize (along : Nat) (s out : Shape) (j : Nat) : Except Refusal Shape :=
  if j = along then do replaced out along ((← item out along) + (← item s along))
  else do
    -- The item is one of what has been joined so far, not of the first shape.
    let x ← item out j
    let y ← item s j
    if x ≠ y then refuse (.shape (.concatSizes along x y j)) else return out

def join (along rank : Nat) (out s : Shape) : Except Refusal Shape :=
  if s.length ≠ rank then refuse (.shape (.concatRanks rank s.length))
  else (List.range rank).foldlM (joinSize along s) out

def concat (shapes : List Shape) (axis : Int) : Except Refusal Shape := do
  let first ← item shapes 0
  if shapes.length = 1 then return first
  else do
    let i ← shaped (Shape.normalizeAxis "ECONCAT_DIM" axis first.length)
    (shapes.drop 1).foldlM (join i first.length) first

def stack (shapes : List Shape) (axis : Int) : Except Refusal Shape := do
  let first ← item shapes 0
  if shapes.length = 1 then return first
  else do
    let i ← shaped (Shape.normalizeAxis "ESTACK_DIM" axis (first.length + 1))
    match (shapes.drop 1).find? (· ≠ first) with
    | some other => refuse (.shape (.stackShapes first other))
    | none => return first.take i ++ (shapes.length : Int) :: first.drop i

/-- The number of positions that a slice keeps. -/
def sliceLength (length start stop step : Int) : Except Refusal Int :=
  match Shape.sliceRange? length start stop with
  | none => .ok 0
  | some (lo, hi) => do
    let n ← quotient (hi - lo) step
    let rest ← remainder (hi - lo) step
    if rest = 0 then return n else return n + 1

def slice (shape : Shape) (axis start stop step : Int) : Except Refusal Shape :=
  if step < 1 then refuse (.shape (.sliceStep step))
  else do
    let i ← shaped (Shape.normalizeAxis "ESLICE_DIM" axis shape.length)
    replaced shape i (← sliceLength (← item shape i) start stop step)

/-- Fits a target the number of elements? -/
def fits (target : Shape) (explicit total : Int) : Except Refusal Bool :=
  if (Shape.explicitSizes target).length = target.length then
    if explicit = 0 then return total = 0
    else do return (← remainder total explicit) = 0
  else if explicit ≠ 0 then do return (← remainder total explicit) = 0
  else return false

def reshape (shape target : Shape) : Except Refusal Shape :=
  if 1 < target.countP (· = -1) then refuse (.shape (.manyPlaceholders target))
  else do
    let total := Shape.size shape
    let explicit := Shape.size (Shape.explicitSizes target)
    let valid ← fits target explicit total
    if !valid || target.any (· < -1) then refuse (.shape (.reshapeSize target total))
    else target.mapM fun d => if d = -1 then quotient total explicit else .ok d

/-- The size of the input axis that a permutation names. -/
def axisSize (shape : Shape) (axis : Int) : Except Refusal Int :=
  if axis < 0 then refuse (.shape (.permuteNegative axis))
  else if axis ≥ shape.length then refuse (.shape (.permuteAxis axis shape.length))
  else item shape axis

def permute (shape : Shape) (axes : List Int) : Except Refusal Shape :=
  if axes.length ≠ shape.length then refuse (.shape (.permuteRank axes shape.length))
  else axes.mapM (axisSize shape)

/-! ## §3 Operands -/

/-- Refuses a count of operands outside the bounds. -/
def expectArity (least : Nat) (greatest : Option Nat) (metas : List Meta) :
    Except Refusal Unit :=
  if metas.length < least ∨ greatest.any (· < metas.length) then
    Rule.arity least greatest metas
  else .ok ()

/-! Operands are asked for their kind, and then for what values of that kind have. -/

def isTensor : Meta → Bool
  | .tensor _ => true
  | _ => false

def isScalar : Meta → Bool
  | .scalar _ => true
  | _ => false

def isIntegers : Meta → Bool
  | .ints _ => true
  | _ => false

def tensor (operand code : String) (m : Meta) : Except Refusal Shape :=
  if isTensor m then sizesOf m else refuse (.notTensor operand code m)

def scalar (operand code : String) (m : Meta) : Except Refusal Int :=
  if isScalar m then valueOf m else refuse (.notInteger operand code m)

def integers (operand code : String) (m : Meta) : Except Refusal (List Int) :=
  if isIntegers m then valuesOf m else refuse (.notIntegers operand code m)

/-- What is asked of every operand under its number, from `i` on. -/
def numbered {α : Type} (noun : String) (ask : String → Meta → Except Refusal α) (i : Nat)
    (metas : List Meta) : Except Refusal (List α) :=
  (metas.zipIdx i).mapM fun (m, i) => ask (noun ++ Decimal.render i) m

/-! ## §4 Rules -/

/-- Does a declared type compare equal to a word? An array is compared element by
element, which has no outcome unless there is one element. -/
def isWord (type : Datum) (word : String) : Except Refusal Bool :=
  match type with
  | .text s => .ok (s == word)
  | .array sizes _ =>
    if Text.Grid.count sizes = 1 then .ok false else .error (.misuse .badValue)
  | _ => .ok false

/-- The declared type of the first output, if there is one. -/
def declaredType (ctx : Context) : Except Refusal Datum :=
  if ctx.outputTypes.isEmpty then .ok (.text "Tensor") else item ctx.outputTypes 0

def constant (node : Node) (ctx : Context) : Answer := do
  let type ← declaredType ctx
  if ← isWord type "float" then return [.scalar 1]
  else if ← isWord type "int" then return [.scalar (← intAttribute node "value")]
  else if ← isWord type "bool" then return [.scalar (← intAttribute node "value")]
  else if ← isWord type "None" then return [.nothing]
  else if ← isWord type "Tensor" then return [.tensor (← tensorAttribute node "value")]
  else if ← isWord type "int[]" then return [.ints (← intsAttribute node "value")]
  else return [.nothing]

def elementwise (metas : List Meta) : Answer := do
  expectArity 1 (some 1) metas
  return [← item metas 0]

/-- The operators that fold two integers, with what they make of them. -/
def foldable : List (Operator × (Int → Int → Except Refusal Int)) :=
  [(.add, fun x y => .ok (x + y)), (.sub, fun x y => .ok (x - y)),
   (.mul, fun x y => .ok (x * y)), (.pow, power)]

def folding (op : Operator) : Except Refusal (Int → Int → Except Refusal Int) :=
  match foldable.lookup op with
  | some f => .ok f
  | none => .error (.misuse .missingEntry)

/-- The exact integer of two scalars. -/
def fold (op : Operator) (x y : Int) : Except Refusal Meta :=
  if (foldable.lookup op).isNone then refuse .twoScalars
  else if op = .pow ∧ y < 0 then refuse (.negativeExponent y)
  else do
    let f ← folding op
    return .scalar (← f x y)

def combine (op : Operator) (a b : Meta) : Except Refusal Meta :=
  if !Rule.isArithmetic a then refuse (.operandKind a)
  else if !Rule.isArithmetic b then refuse (.operandKind b)
  else if isScalar b then
    if isScalar a then do fold op (← valueOf a) (← valueOf b) else return a
  else if isScalar a then return b
  else do return .tensor (← broadcast (← sizesOf a) (← sizesOf b))

def binary (op : Operator) (metas : List Meta) : Answer := do
  expectArity 2 (some 3) metas
  return [← combine op (← item metas 0) (← item metas 1)]

def matrixProduct (metas : List Meta) : Answer := do
  expectArity 2 (some 2) metas
  let a ← tensor "self" "EMM_RANK" (← item metas 0)
  let b ← tensor "mat2" "EMM_RANK" (← item metas 1)
  return [.tensor (← matmul a b)]

def batchProduct (metas : List Meta) : Answer := do
  expectArity 2 (some 2) metas
  let a ← tensor "self" "EBMM_RANK" (← item metas 0)
  let b ← tensor "mat2" "EBMM_RANK" (← item metas 1)
  return [.tensor (← batchMatmul a b)]

def innerProduct (metas : List Meta) : Except Refusal Meta := do
  if isScalar (← item metas 2) then item metas 1
  else do
    let a ← tensor "mat1" "EMM_RANK" (← item metas 1)
    let b ← tensor "mat2" "EMM_RANK" (← item metas 2)
    return .tensor (← matmul a b)

def multiplyAdd (metas : List Meta) : Answer := do
  expectArity 3 none metas
  let product ← innerProduct metas
  return [← combine .addmm (← item metas 0) product]

def constantChunk (node : Node) (metas : List Meta) : Answer := do
  expectArity 1 (some 1) metas
  let shape ← tensor "self" "ECHUNK_ARG" (← item metas 0)
  let chunks ← intAttribute node "chunks"
  let axis ← intAttribute node "dim"
  return (← chunk shape chunks axis).map .tensor

/-- Tensors joined by an operation on shapes and an axis. -/
def joined (code : String) (operation : List Shape → Int → Except Refusal Shape) (node : Node)
    (metas : List Meta) : Answer := do
  expectArity 1 none metas
  if metas.length = 1 then return [← item metas 0]
  else do
    let shapes ← numbered "input " (tensor · code) 0 metas
    let axis ← intAttribute node "dim"
    return [.tensor (← operation shapes axis)]

def fusedConcat (node : Node) (metas : List Meta) : Answer :=
  joined "ECONCAT_ARG" concat node metas

def fusedStack (node : Node) (metas : List Meta) : Answer :=
  joined "ESTACK_ARG" stack node metas

def listConstruct (metas : List Meta) : Answer := do
  expectArity 1 none metas
  return [.ints (← numbered "element " (scalar · "ELIST_ARG") 0 metas)]

/-- The operands of a slice behind the tensor. -/
def sliceOperands : List String := ["dim", "start", "end", "step"]

/-- A slice along an axis; as many integers are taken as there are names for them. -/
def sliced (metas : List Meta) : Answer := do
  expectArity 5 (some 5) metas
  let shape ← tensor "self" "ESLICE_ARG" (← item metas 0)
  let bounds ← ((metas.drop 1).zip sliceOperands).mapM fun (m, name) =>
    scalar name "ESLICE_ARG" m
  match bounds with
  | [axis, start, stop, step] => return [.tensor (← slice shape axis start stop step)]
  | _ => .error (.misuse .badValue)

def reshaped (metas : List Meta) : Answer := do
  expectArity 2 (some 2) metas
  let shape ← tensor "self" "ERESHAPE_ARG" (← item metas 0)
  let target ← integers "shape" "ERESHAPE_ARG" (← item metas 1)
  return [.tensor (← reshape shape target)]

def permuted (metas : List Meta) : Answer := do
  expectArity 2 (some 2) metas
  let shape ← tensor "self" "EPERMUTE_ARG" (← item metas 0)
  let axes ← integers "dims" "EPERMUTE_ARG" (← item metas 1)
  return [.tensor (← permute shape axes)]

/-- The sizes of the table of an embedding bag. -/
def table (metas : List Meta) : Except Refusal Shape := do
  expectArity Rule.embeddingArity (some Rule.embeddingArity) metas
  let weight ← tensor "weight" "EEMBED_ARG" (← item metas 0)
  if weight.length ≠ 2 then refuse (.operandRank "2D" "weight" weight.length) else return weight

/-- The number of offsets. -/
def offsetCount (m : Meta) : Except Refusal Int := do
  let offsets ← tensor "offsets" "EEMBED_ARG" m
  if offsets.length ≠ 1 then refuse (.operandRank "1D" "offsets" offsets.length)
  else item offsets 0

/-- The number of bags of an embedding bag. -/
def bags (ctx : Context) (metas : List Meta) : Except Refusal Int := do
  let indices ← tensor "indices" "EEMBED_ARG" (← item metas 1)
  if indices.length = 1 then
    return (← offsetCount (← item metas 2)) - Rule.sentinels ctx
  else if indices.length = 2 then item indices 0
  else refuse (.indicesRank indices.length)

def embeddingBag (ctx : Context) (metas : List Meta) : Answer := do
  let weight ← table metas
  let rows ← bags ctx metas
  return [.tensor [rows, ← item weight 1]]

def embeddingBagRowwise (ctx : Context) (metas : List Meta) : Answer := do
  let weight ← table metas
  let rows ← offsetCount (← item metas 2)
  return [.tensor [rows - Rule.sentinels ctx, (← item weight 1) - Rule.rowTrailer]]

def apply (op : Operator) (metas : List Meta) (node : Node) (ctx : Context) : Answer :=
  match op with
  | .constant => constant node ctx
  | .listConstruct => listConstruct metas
  | .constantChunk => constantChunk node metas
  | .fusedConcat => fusedConcat node metas
  | .fusedStack => fusedStack node metas
  | .tanh => elementwise metas
  | .relu => elementwise metas
  | .sigmoid => elementwise metas
  | .add => binary .add metas
  | .sub => binary .sub metas
  | .mul => binary .mul metas
  | .pow => binary .pow metas
  | .mm => matrixProduct metas
  | .bmm => batchProduct metas
  | .addmm => multiplyAdd metas
  | .slice => sliced metas
  | .reshape => reshaped metas
  | .permute => permuted metas
  | .embeddingBag => embeddingBag ctx metas
  | .embeddingBagRowwise => embeddingBagRowwise ctx metas

end GraphShapes.Checked
