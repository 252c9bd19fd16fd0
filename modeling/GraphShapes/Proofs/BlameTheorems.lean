/-
GraphShapes.Proofs.BlameTheorems — every error of a node names the node.

A rule that raises its defects where it finds them (`GraphShapes.Proofs.BlameRules`)
answers what the rule as it runs does, if whatever that one refuses is said of the
node afterwards (`apply_eq`). So no tag is lost on the way down, neither to the tag
that a computation on shapes assumes when it is told none, nor to another operator
that a tag might be looked up as, and every error that a node's step can raise names
the node and shows its tag (`inferNode_blames`).

Saying the same in other words commutes with doing one thing after another
(`mapError_bind`), so each rule is compared step by step, for each number of
operands that it takes; any other number is refused at once.

  §1 Shapes     — the operations on shapes, on behalf of any tag.
  §2 Attributes — on behalf of the node that has them.
  §3 Operands   — on behalf of any tag.
  §4 Rules      — rule by rule, on behalf of the node.
  §5 Steps      — one node, and nodes in order.
-/
import GraphShapes.Inference.Engine
import GraphShapes.Proofs.BlameRules
import GraphShapes.Proofs.ResultTheorems
import GraphShapes.Proofs.StoreTheorems

namespace GraphShapes

namespace Blame

variable {tag : Datum} {code operand name : String} {node : Node} {ctx : Context}
  {a b shape target : Shape} {m : Meta} {metas : List Meta} {i : Nat}

/-! ## §1 Shapes -/

/-- A defect of shapes as the error of an operator. -/
def shapeFault (tag : Datum) (d : Shape.Defect) : Fault := .inference (.node tag (.shape d))

theorem raise_shape {α : Type} (d : Shape.Defect) :
    (raise tag (.shape d) : Except Fault α) = .error (shapeFault tag d) := rfl

theorem normalizeAxis_eq (axis rank : Int) :
    normalizeAxis code axis rank tag
      = (Shape.normalizeAxis code axis rank).mapError (shapeFault tag) := by
  simp only [normalizeAxis, Shape.normalizeAxis, raise_shape, apply_ite (Except.mapError _),
    mapError_ok, mapError_error]

theorem broadcastFromEnd_eq :
    broadcastFromEnd tag i a b = (Shape.broadcastFromEnd i a b).mapError (shapeFault tag) := by
  induction a generalizing b i with
  | nil => rfl
  | cons x a ih =>
    cases b with
    | nil => rfl
    | cons y b =>
      simp only [broadcastFromEnd, Shape.broadcastFromEnd, raise_shape, mapError_bind, ih,
        apply_ite (Except.mapError _), mapError_ok, mapError_error, mapError_pure]

theorem broadcast_eq : broadcast a b tag = (Shape.broadcast a b).mapError (shapeFault tag) := by
  rw [broadcast, Shape.broadcast, broadcastFromEnd_eq]
  cases Shape.broadcastFromEnd 0 a.reverse b.reverse <;> rfl

theorem matmul_eq : matmul a b tag = (Shape.matmul a b).mapError (shapeFault tag) := by
  fun_cases Shape.matmul a b with
  | case1 n k m => simp [matmul]
  | case2 n k l m h => simp [matmul, h, raise_shape]
  | case3 => simp [matmul, raise_shape]

theorem batchMatmul_eq :
    batchMatmul a b tag = (Shape.batchMatmul a b).mapError (shapeFault tag) := by
  fun_cases Shape.batchMatmul a b with
  | case1 s n k t l m h => simp [batchMatmul, h, raise_shape]
  | case2 s n k t l m h h' => simp [batchMatmul, h, h', raise_shape]
  | case3 s n k t l m h h' => simp [batchMatmul, h, h']
  | case4 => simp [batchMatmul, raise_shape]

theorem chunk_eq (chunks axis : Int) :
    chunk shape chunks axis tag = (Shape.chunk shape chunks axis).mapError (shapeFault tag) := by
  simp only [chunk, Shape.chunk, raise_shape, normalizeAxis_eq, mapError_bind,
    apply_ite (Except.mapError _), mapError_error, mapError_pure]

theorem join_eq (along : Nat) :
    join tag along i a b = (Shape.join along i a b).mapError (shapeFault tag) := by
  induction a generalizing b i with
  | nil => rfl
  | cons x a ih =>
    cases b with
    | nil => rfl
    | cons y b =>
      simp only [join, Shape.join, raise_shape, mapError_bind, ih, apply_ite (Except.mapError _),
        mapError_ok, mapError_error, mapError_pure]

theorem joinAll_eq (along : Nat) (rest : List Shape) :
    joinAll tag along shape rest = (Shape.joinAll along shape rest).mapError (shapeFault tag) := by
  induction rest generalizing shape with
  | nil => rfl
  | cons s rest ih =>
    simp only [joinAll, Shape.joinAll, raise_shape, join_eq, ih, mapError_bind,
      apply_ite (Except.mapError _), mapError_error]

theorem concat_eq (rest : List Shape) (axis : Int) :
    concat shape rest axis tag = (Shape.concat shape rest axis).mapError (shapeFault tag) := by
  simp only [concat, Shape.concat, normalizeAxis_eq, joinAll_eq, mapError_bind,
    apply_ite (Except.mapError _), mapError_ok]

theorem stack_eq (rest : List Shape) (axis : Int) :
    stack shape rest axis tag = (Shape.stack shape rest axis).mapError (shapeFault tag) := by
  simp only [stack, Shape.stack, normalizeAxis_eq, mapError_bind, apply_ite (Except.mapError _),
    mapError_ok]
  cases rest.find? (· ≠ shape) <;> rfl

theorem slice_eq (axis start stop step : Int) :
    slice shape axis start stop step tag
      = (Shape.slice shape axis start stop step).mapError (shapeFault tag) := by
  simp only [slice, Shape.slice, raise_shape, normalizeAxis_eq, mapError_bind,
    apply_ite (Except.mapError _), mapError_error, mapError_pure]

theorem reshape_eq :
    reshape shape target tag = (Shape.reshape shape target).mapError (shapeFault tag) := by
  simp only [reshape, Shape.reshape, raise_shape, apply_ite (Except.mapError _), mapError_ok,
    mapError_error]

theorem permute_eq (axes : List Int) :
    permute shape axes tag = (Shape.permute shape axes).mapError (shapeFault tag) := by
  have haxis : axisSize tag shape
      = fun axis => (Shape.axisSize shape axis).mapError (shapeFault tag) := by
    funext axis
    simp only [axisSize, Shape.axisSize, raise_shape, apply_ite (Except.mapError _), mapError_ok,
      mapError_error]
  simp only [permute, Shape.permute, raise_shape, haxis, apply_ite (Except.mapError _),
    mapError_error, mapError_mapM]

/-! ## §2 Attributes -/

theorem mapError_refuse {α : Type} (d : NodeDefect) :
    (Rule.refuse d : Except Refusal α).mapError (Refusal.toFault tag) = raise tag d := rfl

theorem mapError_shaped {α : Type} (x : Except Shape.Defect α) :
    (Rule.shaped x).mapError (Refusal.toFault tag) = x.mapError (shapeFault tag) := by
  cases x <;> rfl

theorem attr_eq : attr node name = (node.attr name).mapError (Refusal.toFault node.op) := by
  unfold attr Node.attr
  cases lookup? node.attributes (.text name) <;> rfl

theorem intAttribute_eq :
    intAttribute node name = (node.intAttribute name).mapError (Refusal.toFault node.op) := by
  rw [intAttribute, Node.intAttribute, mapError_bind, attr_eq]
  refine congrArg _ (funext fun d => ?_)
  cases d.asInt? with
  | some n => rfl
  | none => cases d.isIntegral <;> rfl

theorem intsAttribute_eq :
    intsAttribute node name = (node.intsAttribute name).mapError (Refusal.toFault node.op) := by
  rw [intsAttribute, Node.intsAttribute, mapError_bind, attr_eq]
  refine congrArg _ (funext fun d => ?_)
  cases d.items?.bind (·.mapM Datum.asWhole?) with
  | some ns => rfl
  | none => cases d.items?.any (·.all Datum.isWhole) <;> rfl

theorem tensorAttribute_eq :
    tensorAttribute node name = (node.tensorAttribute name).mapError (Refusal.toFault node.op) := by
  rw [tensorAttribute, Node.tensorAttribute, mapError_bind, attr_eq]
  refine congrArg _ (funext fun d => ?_)
  cases d with
  | placeholder sizes | shaped _ sizes =>
    dsimp only [Datum.exposedSizes?]
    cases Datum.toSizes 1 sizes <;> rfl
  | _ => rfl

/-! ## §3 Operands -/

theorem tensor_eq :
    tensor tag operand code m = (Rule.tensor operand code m).mapError (Refusal.toFault tag) := by
  cases m <;> rfl

theorem scalar_eq :
    scalar tag operand code m = (Rule.scalar operand code m).mapError (Refusal.toFault tag) := by
  cases m <;> rfl

theorem integers_eq :
    integers tag operand code m
      = (Rule.integers operand code m).mapError (Refusal.toFault tag) := by
  cases m <;> rfl

theorem tensors_eq :
    tensors tag code i metas = (Rule.tensors code i metas).mapError (Refusal.toFault tag) := by
  induction metas generalizing i with
  | nil => rfl
  | cons m rest ih =>
    simp only [tensors, Rule.tensors, tensor_eq, ih, mapError_bind, mapError_pure]

theorem elements_eq :
    elements tag code i metas = (Rule.elements code i metas).mapError (Refusal.toFault tag) := by
  induction metas generalizing i with
  | nil => rfl
  | cons m rest ih =>
    simp only [elements, Rule.elements, scalar_eq, ih, mapError_bind, mapError_pure]

/-! ## §4 Rules -/

theorem constant_eq :
    constant node ctx = (Rule.constant node ctx).mapError (Refusal.toFault node.op) := by
  rw [constant, Rule.constant]
  cases Rule.constantKind ctx with
  | integer => simp only [intAttribute_eq, mapError_bind, mapError_pure]
  | tensor => simp only [tensorAttribute_eq, mapError_bind, mapError_pure]
  | integers => simp only [intsAttribute_eq, mapError_bind, mapError_pure]
  | _ => rfl

theorem elementwise_eq :
    elementwise node metas = (Rule.elementwise metas).mapError (Refusal.toFault node.op) := by
  match metas with
  | [_] => rfl
  | [] | _ :: _ :: _ => rfl

section Arithmetic

variable {op : Operator}

/-- The operator that is looked up anew is the one whose rule is applied. -/
theorem fold_eq (htag : Operator.ofTag? tag = some op) (x y : Int) :
    fold tag x y = (Rule.fold op x y).mapError (Refusal.toFault tag) := by
  rw [fold, htag]
  cases op with
  | pow =>
    simp only [Rule.fold, apply_ite (Except.mapError _), mapError_refuse, mapError_ok]
  | _ => rfl

theorem combine_eq (htag : Operator.ofTag? tag = some op) (m n : Meta) :
    combine tag m n = (Rule.combine op m n).mapError (Refusal.toFault tag) := by
  cases m with
  | tensor a =>
    cases n with
    | tensor b =>
      simp only [combine, Rule.combine, broadcast_eq, mapError_bind, mapError_shaped, mapError_pure]
    | _ => rfl
  | scalar x =>
    cases n with
    | scalar y => exact fold_eq htag x y
    | _ => rfl
  | _ => cases n <;> rfl

theorem binary_eq (htag : Operator.ofTag? node.op = some op) :
    binary node metas = (Rule.binary op metas).mapError (Refusal.toFault node.op) := by
  match metas with
  | [_, _] | [_, _, _] =>
    simp only [binary, Rule.binary, combine_eq htag, mapError_bind, mapError_pure]
  | [] | [_] | _ :: _ :: _ :: _ :: _ => rfl

theorem matrixProduct_eq :
    matrixProduct node metas = (Rule.matrixProduct metas).mapError (Refusal.toFault node.op) := by
  match metas with
  | [_, _] =>
    simp only [matrixProduct, Rule.matrixProduct, tensor_eq, matmul_eq, mapError_bind,
      mapError_shaped, mapError_pure]
  | [] | [_] | _ :: _ :: _ :: _ => rfl

theorem batchProduct_eq :
    batchProduct node metas = (Rule.batchProduct metas).mapError (Refusal.toFault node.op) := by
  match metas with
  | [_, _] =>
    simp only [batchProduct, Rule.batchProduct, tensor_eq, batchMatmul_eq, mapError_bind,
      mapError_shaped, mapError_pure]
  | [] | [_] | _ :: _ :: _ :: _ => rfl

theorem innerProduct_eq (m n : Meta) :
    innerProduct tag m n = (Rule.innerProduct m n).mapError (Refusal.toFault tag) := by
  cases n with
  | scalar x => rfl
  | _ =>
    simp only [innerProduct, Rule.innerProduct, tensor_eq, matmul_eq, mapError_bind,
      mapError_shaped, mapError_pure]

theorem multiplyAdd_eq (htag : Operator.ofTag? node.op = some .addmm) :
    multiplyAdd node metas = (Rule.multiplyAdd metas).mapError (Refusal.toFault node.op) := by
  match metas with
  | _ :: _ :: _ :: _ =>
    simp only [multiplyAdd, Rule.multiplyAdd, innerProduct_eq, combine_eq htag, mapError_bind,
      mapError_pure]
  | [] | [_] | [_, _] => rfl

end Arithmetic

theorem constantChunk_eq :
    constantChunk node metas
      = (Rule.constantChunk node metas).mapError (Refusal.toFault node.op) := by
  match metas with
  | [_] =>
    simp only [constantChunk, Rule.constantChunk, tensor_eq, intAttribute_eq, chunk_eq,
      mapError_bind, mapError_shaped, mapError_pure]
  | [] | _ :: _ :: _ => rfl

/-- Joining blames the node if the operation on shapes does. -/
theorem joined_eq {raised : Shape → List Shape → Int → Except Fault Shape}
    {operation : Shape → List Shape → Int → Except Shape.Defect Shape}
    (h : ∀ first rest axis,
      raised first rest axis = (operation first rest axis).mapError (shapeFault node.op)) :
    joined code raised node metas
      = (Rule.joined code operation node metas).mapError (Refusal.toFault node.op) := by
  match metas with
  | _ :: _ :: _ =>
    simp only [joined, Rule.joined, tensor_eq, tensors_eq, intAttribute_eq, h, mapError_bind,
      mapError_shaped, mapError_pure]
  | [] | [_] => rfl

theorem listConstruct_eq :
    listConstruct node metas = (Rule.listConstruct metas).mapError (Refusal.toFault node.op) := by
  match metas with
  | _ :: _ =>
    simp only [listConstruct, Rule.listConstruct, elements_eq, mapError_bind, mapError_pure]
  | [] => rfl

theorem sliced_eq :
    sliced node metas = (Rule.sliced metas).mapError (Refusal.toFault node.op) := by
  match metas with
  | [_, _, _, _, _] =>
    simp only [sliced, Rule.sliced, tensor_eq, scalar_eq, slice_eq, mapError_bind,
      mapError_shaped, mapError_pure]
  | [] | [_] | [_, _] | [_, _, _] | [_, _, _, _] | _ :: _ :: _ :: _ :: _ :: _ :: _ => rfl

theorem reshaped_eq :
    reshaped node metas = (Rule.reshaped metas).mapError (Refusal.toFault node.op) := by
  match metas with
  | [_, _] =>
    simp only [reshaped, Rule.reshaped, tensor_eq, integers_eq, reshape_eq, mapError_bind,
      mapError_shaped, mapError_pure]
  | [] | [_] | _ :: _ :: _ :: _ => rfl

theorem permuted_eq :
    permuted node metas = (Rule.permuted metas).mapError (Refusal.toFault node.op) := by
  match metas with
  | [_, _] =>
    simp only [permuted, Rule.permuted, tensor_eq, integers_eq, permute_eq, mapError_bind,
      mapError_shaped, mapError_pure]
  | [] | [_] | _ :: _ :: _ :: _ => rfl

theorem tableWidth_eq :
    tableWidth tag m = (Rule.tableWidth m).mapError (Refusal.toFault tag) := by
  rw [tableWidth, Rule.tableWidth, tensor_eq, mapError_bind]
  refine congrArg _ (funext fun sizes => ?_)
  match sizes with
  | [_, _] => rfl
  | [] | [_] | _ :: _ :: _ :: _ => rfl

theorem bagCount_eq :
    bagCount tag ctx m = (Rule.bagCount ctx m).mapError (Refusal.toFault tag) := by
  have hcount : offsetCount tag m = (Rule.offsetCount m).mapError (Refusal.toFault tag) := by
    rw [offsetCount, Rule.offsetCount, tensor_eq, mapError_bind]
    refine congrArg _ (funext fun sizes => ?_)
    match sizes with
    | [_] => rfl
    | [] | _ :: _ :: _ => rfl
  simp only [bagCount, Rule.bagCount, hcount, mapError_bind, mapError_pure]

theorem embeddingBag_eq :
    embeddingBag node ctx metas
      = (Rule.embeddingBag ctx metas).mapError (Refusal.toFault node.op) := by
  match metas with
  | [weight, indices, offsets, _, _, _, _, _] =>
    simp only [embeddingBag, Rule.embeddingBag, tableWidth_eq, tensor_eq, mapError_bind]
    refine congrArg _ (funext fun width => congrArg _ (funext fun sizes => ?_))
    rcases sizes with _ | ⟨_, _ | ⟨_, _ | _⟩⟩
    · rfl
    · simp only [bagCount_eq, mapError_bind, mapError_pure]
    · rfl
    · rfl
  | [] | [_] | [_, _] | [_, _, _] | [_, _, _, _] | [_, _, _, _, _] | [_, _, _, _, _, _]
  | [_, _, _, _, _, _, _] | _ :: _ :: _ :: _ :: _ :: _ :: _ :: _ :: _ :: _ => rfl

theorem embeddingBagRowwise_eq :
    embeddingBagRowwise node ctx metas
      = (Rule.embeddingBagRowwise ctx metas).mapError (Refusal.toFault node.op) := by
  match metas with
  | [_, _, _, _, _, _, _, _] =>
    simp only [embeddingBagRowwise, Rule.embeddingBagRowwise, tableWidth_eq, bagCount_eq,
      mapError_bind, mapError_pure]
  | [] | [_] | [_, _] | [_, _, _] | [_, _, _, _] | [_, _, _, _, _] | [_, _, _, _, _, _]
  | [_, _, _, _, _, _, _] | _ :: _ :: _ :: _ :: _ :: _ :: _ :: _ :: _ :: _ => rfl

/-- **Every rule blames the node.** With the defects raised where they are found, a rule
answers what it does when whatever it refuses is said of the node afterwards. -/
theorem apply_eq {op : Operator} (htag : Operator.ofTag? node.op = some op) (metas : List Meta)
    (ctx : Context) :
    apply op metas node ctx
      = (Rule.apply op metas node ctx).mapError (Refusal.toFault node.op) := by
  cases op with
  | constant => exact constant_eq
  | listConstruct => exact listConstruct_eq
  | constantChunk => exact constantChunk_eq
  | fusedConcat => exact joined_eq fun _ => concat_eq
  | fusedStack => exact joined_eq fun _ => stack_eq
  | tanh | relu | sigmoid => exact elementwise_eq
  | add | sub | mul | pow => exact binary_eq htag
  | mm => exact matrixProduct_eq
  | bmm => exact batchProduct_eq
  | addmm => exact multiplyAdd_eq htag
  | slice => exact sliced_eq
  | reshape => exact reshaped_eq
  | permute => exact permuted_eq
  | embeddingBag => exact embeddingBag_eq
  | embeddingBagRowwise => exact embeddingBagRowwise_eq

/-! ## §5 Steps -/

variable {g : Graph} {config : Config} {s : Store}

theorem evaluate_eq (g : Graph) (config : Config) (s : Store) (node : Node) :
    evaluate g config s node = g.evaluate config s node := by
  unfold evaluate Graph.evaluate find
  cases htag : Operator.ofTag? node.op with
  | none => rfl
  | some op =>
    simp only [ok_bind]
    cases Graph.operands s op.tag node.inputs with
    | error c => rfl
    | ok metas =>
      simp only [mapError_ok, ok_bind, apply_eq htag]
      cases Rule.apply op metas node (g.context config node) <;> rfl

/-- Both spellings of a step make the same progress. -/
theorem inferNode_eq (g : Graph) (config : Config) (s : Store) (node : Node) :
    inferNode g config s node = g.inferNode config s node := by
  rw [inferNode, Graph.inferNode, evaluate_eq]
  cases g.evaluate config s node with
  | error f => rfl
  | ok answer =>
    obtain ⟨op, results⟩ := answer
    by_cases hcount : results.length = (op.tracked node.outputs).length
    · simp [paired, Graph.writeResults, hcount]
    · simp [paired, Graph.writeResults, hcount, raise]

end Blame

namespace Progress

variable {p : Progress} {next : Store → Progress} {tag : Datum}

/-- If an inference error stops the step, it is one of the operator with the tag. -/
def Blames (p : Progress) (tag : Datum) : Prop :=
  ∀ err, p.fault = some (.inference err) → ∃ d, err = .node tag d

theorem blames_stopped {s : Store} {f : Fault}
    (h : ∀ err, f = .inference err → ∃ d, err = .node tag d) : (stopped s f).Blames tag := by
  intro err herr
  exact h err (Fault.eq_of_settled_eq (Option.some.inj herr) nofun)

theorem Blames.andThen (hp : p.Blames tag) (hnext : ∀ s, (next s).Blames tag) :
    (p.andThen next).Blames tag := by
  cases h : p.fault with
  | none =>
    intro err
    rw [fault_andThen h]
    exact hnext p.store err
  | some f => rwa [andThen_of_fault h]

end Progress

/-- Writing raises no inference error at all. -/
theorem Store.blames_writeAll (lead : String) (s : Store) (entries : List (Name × Meta))
    (tag : Datum) : (Store.writeAll lead s entries).Blames tag := by
  induction entries generalizing s with
  | nil => exact nofun
  | cons entry rest ih =>
    have hwrite : (Store.write lead s entry.1 entry.2).Blames tag := by
      unfold Store.write
      split
      · split
        · exact Progress.blames_stopped (s := s) nofun
        · exact nofun
      · exact Progress.blames_stopped nofun
    exact hwrite.andThen ih

namespace Graph

variable {g : Graph} {config : Config} {s : Store} {node : Node}

/-- What stops the evaluation of a node is said of the node, if it is an inference error. -/
theorem tag_of_evaluate {err : InferenceError}
    (h : g.evaluate config s node = .error (.inference err)) : ∃ d, err = .node node.op d := by
  unfold evaluate at h
  split at h
  · cases h
    exact ⟨_, rfl⟩
  · split at h
    · cases h
    · split at h
      · next r _ =>
        cases r with
        | defect d =>
          cases h
          exact ⟨d, rfl⟩
        | misuse m => cases h
      · cases h

theorem blames_inferNode (g : Graph) (config : Config) (s : Store) (node : Node) :
    (g.inferNode config s node).Blames node.op := by
  unfold inferNode
  cases hevaluate : g.evaluate config s node with
  | error f =>
    refine Progress.blames_stopped fun err herr => ?_
    rw [herr] at hevaluate
    exact tag_of_evaluate hevaluate
  | ok answer =>
    obtain ⟨op, results⟩ := answer
    have hwrite : (writeResults op node s results).Blames node.op := by
      unfold writeResults
      dsimp only
      split
      · exact Store.blames_writeAll _ s _ node.op
      · exact Progress.blames_stopped fun err herr => ⟨_, (Fault.inference.inj herr).symm⟩
    exact hwrite

end Graph

/-- The text of an error of an operator shows its tag. -/
theorem InferenceError.display_infix_message (tag : Datum) (d : NodeDefect) :
    tag.display.codes <:+: (InferenceError.node tag d).message.codes :=
  ⟨(Points.ofString d.lead).codes, (Points.ofString d.body).codes, rfl⟩

/-- **Every error of a node names the node.** Inferring a node by hand does the same
whether what a rule refuses is said of the node afterwards or raised where it is found,
under a tag that is handed down. If it ends in an inference error, from the look-up of
the operator to the count of the outputs, the error is one of the node's operator, and
its text shows the tag. -/
theorem Engine.inferNode_blames (g : Graph) (node : Node) (e : Engine) :
    e.afterStep (Blame.inferNode g e.config e.store node) = e.inferNode g node ∧
      ∀ err, (e.inferNode g node).result = .error (.inference err) →
        err.tag? = some node.op ∧ node.op.display.codes <:+: err.message.codes := by
  refine ⟨by rw [Blame.inferNode_eq, Engine.inferNode], fun err h => ?_⟩
  have hfault : (g.inferNode e.config e.store node).fault = some (.inference err) := by
    unfold Engine.inferNode Engine.afterStep at h
    dsimp only at h
    split at h
    · next f hf => rw [hf, Except.error.inj h]
    · cases h
  obtain ⟨d, rfl⟩ := Graph.blames_inferNode g e.config e.store node err hfault
  exact ⟨rfl, InferenceError.display_infix_message node.op d⟩

/-- A fused multiply-add. -/
def Node.fused : Node where
  op := .text "aten::addmm"
  inputs := ["c", "a", "b"].map .text
  outputs := [.text "y"]

/-- A store in which its factors do not fit. -/
def Engine.misfitting : Engine where
  inputs := []
  store := [(.text "c", .tensor [2, 2]), (.text "a", .tensor [2, 3]), (.text "b", .tensor [4, 2])]

/-- The product inside is that of another operator, and yet the error names the node. -/
theorem Engine.inferNode_misfitting :
    ∃ err, (Engine.misfitting.inferNode {} .fused).result = .error (.inference err) ∧
      err.code = "EMM_DIMS" ∧ err.tag? = some (.text "aten::addmm") ∧
      (Points.ofString "aten::addmm").codes <:+: err.message.codes := by
  have hevaluate : Graph.evaluate {} {} misfitting.store .fused
      = .error (.inference (.node (.text "aten::addmm") (.shape (.matmulSizes 3 4)))) := rfl
  have hfault : (Graph.inferNode {} misfitting.config misfitting.store .fused).fault
      = some (.inference (.node (.text "aten::addmm") (.shape (.matmulSizes 3 4)))) := by
    rw [Graph.inferNode, show misfitting.config = {} from rfl, hevaluate]
    exact congrArg some (if_pos (by decide +kernel))
  have h : (misfitting.inferNode {} .fused).result
      = .error (.inference (.node (.text "aten::addmm") (.shape (.matmulSizes 3 4)))) := by
    simp only [inferNode, afterStep, hfault]
  obtain ⟨htag, htext⟩ := (inferNode_blames {} .fused .misfitting).2 _ h
  exact ⟨_, h, rfl, htag, htext⟩

end GraphShapes
