/-
GraphShapes.Proofs.ConversionTheorems — what a conversion adds to a graph.

A conversion goes through a model and only ever adds: a constant, a node, or a node
behind a list of integers that is made for it. `Piece` says which, `Piece.Of` what of
it can be read off the model's node, and `exists_piece_of_addNode` that a node which
is converted adds one such piece. The piece depends on the conversion so far in two
places only, both of them reshapes: the integers of the target and the declared sizes
of the operand. By induction a model becomes a row of pieces (`exists_pieces_of_addNodes`),
and what they have declared, listed and kept for reshapes is read off the row.

  §1 Pieces — `Piece`, `Conversion.add`, and what a piece leaves.
  §2 Nodes  — the piece of a node, and of an initializer.
  §3 Models — the pieces of a model.
-/
import GraphShapes.Onnx.Conversion
import GraphShapes.Proofs.BakingTheorems
import GraphShapes.Proofs.ContractTheorems
import GraphShapes.Proofs.DeclarationTheorems

namespace GraphShapes

namespace Onnx

/-! ## §1 Pieces -/

/-- What an initializer or a node of a model becomes. -/
inductive Piece where
  | constant (name : Name) (value : Datum)
  /-- A constant that is the target of a reshape. -/
  | target (name : Name) (ns : List Int)
  | node (node : GraphShapes.Node)
  /-- A node behind a constant that is made for it. -/
  | pair (name : Name) (value : Datum) (node : GraphShapes.Node)

namespace Piece

/-- The nodes that a piece adds. -/
def nodes : Piece → List GraphShapes.Node
  | constant name value => [.fixed name value]
  | target name ns => [.fixed name (.list (ns.map .int))]
  | node n => [n]
  | pair name value n => [.fixed name value, n]

/-- What a piece declares anew. -/
def declared : Piece → List (Name × Value)
  | constant name value =>
    [(name, { type := .text "Tensor", shape := Conversion.constantShape value })]
  | target name _ => [(name, { type := .text "int[]" })]
  | node _ => []
  | pair name value _ =>
    [(name, { type := .text "int[]", shape := Conversion.constantShape value })]

/-- What a piece declares if it is not declared yet. -/
def emitted : Piece → List Name
  | node n => n.outputs
  | pair _ _ n => n.outputs
  | _ => []

/-- What a piece keeps for reshapes. -/
def kept : Piece → List (Name × List Int)
  | target name ns => [(name, ns)]
  | _ => []

/-- The names that a piece puts into a graph. -/
def names (p : Piece) : List Name := Graph.allOutputs p.nodes

end Piece

namespace Conversion

/-- Adds a piece. -/
def add (c : Conversion) : Piece → Conversion
  | .constant name value => c.addConstant name "Tensor" value
  | .target name ns => c.addTarget name ns
  | .node n => c.emit n.op n.inputs n.outputs n.attributes
  | .pair name value n =>
    (c.addConstant name "int[]" value).emit n.op n.inputs n.outputs n.attributes

variable {c d : Conversion} {p : Piece}

@[simp] theorem nodes_add : (c.add p).graph.nodes = c.graph.nodes ++ p.nodes := by
  cases p with
  | pair =>
    simp [add, emit, addConstant, Graph.addNode, Graph.addValue, Piece.nodes]
    rfl
  | node => simp [add, emit, Graph.addNode, Piece.nodes]
  | _ => rfl

@[simp] theorem inputs_add : (c.add p).graph.inputs = c.graph.inputs := by
  cases p <;> simp [add, emit, addConstant, addTarget, addIntegers, Graph.addNode, Graph.addValue]

@[simp] theorem outputs_add : (c.add p).graph.outputs = c.graph.outputs := by
  cases p <;> simp [add, emit, addConstant, addTarget, addIntegers, Graph.addNode, Graph.addValue]

/-- What is declared after a piece: what it declares anew, what was declared before, or
an output of its node. -/
theorem value?_add (c : Conversion) (p : Piece) (n : Name) :
    (c.add p).graph.value? n
      = ((lookup? p.declared n).or (c.graph.value? n)).or
          (if n.isAmong p.emitted then some {} else none) := by
  have hentry (name : Name) (v : Value) :
      (lookup? [(name, v)] n).or (c.graph.value? n) = (c.graph.addValue name v).value? n := by
    rw [Graph.value?_addValue, lookup?_cons, lookup?_nil]
    split <;> rfl
  cases p with
  | constant name value => exact (hentry name _).symm.trans (Option.or_none ..).symm
  | target name ns => exact (hentry name _).symm.trans (Option.or_none ..).symm
  | node node => exact Graph.value?_declareAll c.graph node.outputs n
  | pair name value node =>
    refine (Graph.value?_declareAll _ node.outputs n).trans ?_
    exact congrArg (Option.or · _) (hentry name _).symm

/-- The targets that are kept after a piece. -/
theorem lookup?_targets_add (c : Conversion) (p : Piece) (n : Name) :
    lookup? (c.add p).targets n = (lookup? p.kept n).or (lookup? c.targets n) := by
  cases p with
  | target name ns =>
    refine (lookup?_putEntry c.targets name ns n).trans ?_
    rw [Piece.kept, lookup?_cons, lookup?_nil]
    split <;> rfl
  | _ => rfl

/-! ## §2 Nodes -/

/-- The endings of names that are made for constants. -/
def endings : List String := ["__perm", "__shape"]

end Conversion

open Conversion

/-- The constant that a constant node holds, if it can be read. -/
def Node.literal? (n : Node) : Option Constant :=
  match n.settings.toOption.bind (lookup? · (.text "value")) with
  | some (.constant k) => some k
  | _ => none

theorem Node.literal?_eq_some_iff {n : Node} {k : Constant} :
    n.literal? = some k ↔ ∃ settings, n.settings = .ok settings ∧
      lookup? settings (.text "value") = some (.constant k) := by
  unfold literal?
  cases hsettings : n.settings with
  | error m => simp [Except.toOption]
  | ok settings =>
    rw [Except.toOption, Option.bind_some]
    cases hvalue : lookup? settings (.text "value") with
    | none => simp [hvalue]
    | some value => cases value <;> simp [hvalue]

/-- The operator is that of the model's node, or one with a rule. An embedding bag is
never made of a node of another type. -/
def Node.Becomes (n : Node) (op : Datum) : Prop :=
  op = n.op.toDatum ∨ ∃ o : Operator, op = .text o.tag ∧ o ≠ .embeddingBag

/-- What of a piece can be read off the model's node. -/
inductive Piece.Of (n : Node) : Piece → Prop
  | node {op : Datum} {inputs : List Name} {attributes : List (Name × Datum)}
      (becomes : n.Becomes op) (operands : ∀ name ∈ inputs, name ∈ n.givenInputs) :
      Of n (.node { op, inputs, outputs := n.outputs, attributes })
  | pair {ending : String} {output data : Name} {value : Datum} {op : Operator}
      (listed : ending ∈ endings) (first : n.outputs.head? = some output)
      (operand : data ∈ n.givenInputs) (plain : op ≠ .embeddingBag) :
      Of n (.pair (derivedName output ending) value
        { op := .text op.tag, inputs := [data, derivedName output ending],
          outputs := n.outputs })
  | constant {name : Name} {value : Datum} (literal : n.op = .text "Constant")
      (first : n.outputs.head? = some name) : Of n (.constant name value)
  | target {name : Name} {k : Constant} {ns : List Int} (literal : n.op = .text "Constant")
      (first : n.outputs.head? = some name) (held : n.literal? = some k)
      (integers : k.integers = .ok ns) : Of n (.target name ns)

/-- What a reshape of the model becomes: it is taken over as it is, under a type for which
there is no rule, or it is a reshape of its first operand, and its second is a target. -/
inductive Conversion.Reshaped (c : Conversion) (n : Node) (p : Piece) : Prop
  | asIs {node : GraphShapes.Node} (mem : node ∈ p.nodes) (type : node.op = .text "Reshape") :
      Reshaped c n p
  | byTarget {node : GraphShapes.Node} {data shape : Name} {ns : List Int}
      (given : n.givenInputs = [data, shape]) (kept : lookup? c.targets shape = some ns)
      (mem : node ∈ p.nodes) (type : node.op = .text Operator.reshape.tag)
      (first : node.inputs.head? = some data) : Reshaped c n p

namespace Conversion

variable {c c' : Conversion} {n : Node} {settings : Settings} {targets : List Name} {index : Nat}

theorem firstOf_eq_ok_iff {names : List Name} {name : Name} :
    firstOf names = .ok name ↔ names.head? = some name := by
  cases names with
  | nil => simp [firstOf]
  | cons first rest => simp [firstOf]

/-- A node that is taken over as it is. -/
theorem exists_piece_of_emitAsIs (n : Node) (settings : Settings) :
    ∃ p, p.Of n ∧ ∀ d : Conversion, d.emitAsIs n settings = d.add p :=
  ⟨.node _, .node (.inl rfl) (fun _ hname => hname), fun _ => rfl⟩

/-- A node of an operator. -/
theorem exists_piece_of_emitOperator (n : Node) {op : Operator} (hop : op ≠ .embeddingBag)
    {inputs : List Name} (hin : ∀ name ∈ inputs, name ∈ n.givenInputs)
    (attributes : List (Name × Datum)) :
    ∃ p, p.Of n ∧ ∀ d : Conversion, d.emitOperator op inputs n.outputs attributes = d.add p :=
  ⟨.node _, .node (.inr ⟨op, rfl, hop⟩) hin, fun _ => rfl⟩

theorem exists_piece_of_addProduct (h : c.addProduct n = .ok c') :
    ∃ p, p.Of n ∧ ∀ d : Conversion, d.addProduct n = .ok (d.add p) := by
  unfold addProduct at h ⊢
  split at h
  · next a b hgiven =>
    have hop : Operator.mm ≠ .embeddingBag := by decide
    have hin : ∀ name ∈ [a, b], name ∈ n.givenInputs := by simp [hgiven]
    obtain ⟨p, hp, hadd⟩ := exists_piece_of_emitOperator n hop hin []
    exact ⟨p, hp, fun d => congrArg _ (hadd d)⟩
  · next x y z rest hgiven =>
    have hop : Operator.addmm ≠ .embeddingBag := by decide
    have hin : ∀ name ∈ [z, x, y], name ∈ n.givenInputs := by simp [hgiven]
    obtain ⟨p, hp, hadd⟩ := exists_piece_of_emitOperator n hop hin []
    exact ⟨p, hp, fun d => congrArg _ (hadd d)⟩
  · cases h

theorem exists_piece_of_addGeneralProduct (h : c.addGeneralProduct n settings = .ok c') :
    ∃ p, p.Of n ∧ ∀ d : Conversion, d.addGeneralProduct n settings = .ok (d.add p) := by
  obtain ⟨asIs, hasIs, hall⟩ := exists_piece_of_emitAsIs n settings
  unfold addGeneralProduct at h ⊢
  rw [bind_eq_ok_iff] at h
  obtain ⟨first, hfirst, h⟩ := h
  simp only [hfirst, ok_bind]
  cases first with
  | true => exact ⟨asIs, hasIs, fun d => congrArg Except.ok (hall d)⟩
  | false =>
    rw [if_neg Bool.false_ne_true, bind_eq_ok_iff] at h
    obtain ⟨second, hsecond, h⟩ := h
    simp only [hsecond, ok_bind]
    cases second with
    | true => exact ⟨asIs, hasIs, fun d => congrArg Except.ok (hall d)⟩
    | false => exact exists_piece_of_addProduct h

theorem exists_piece_of_addTransposition {axes : Datum} (h : c.addTransposition n axes = .ok c') :
    ∃ p, p.Of n ∧ ∀ d : Conversion, d.addTransposition n axes = .ok (d.add p) := by
  unfold addTransposition at h ⊢
  simp only [bind_eq_ok_iff] at h
  obtain ⟨output, houtput, data, hdata, _⟩ := h
  simp only [houtput, hdata, ok_bind]
  have hgiven : data ∈ n.givenInputs := List.mem_of_mem_head? (firstOf_eq_ok_iff.mp hdata)
  have hlisted : "__perm" ∈ endings := by decide
  have hop : Operator.permute ≠ .embeddingBag := by decide
  exact ⟨_, .pair hlisted (firstOf_eq_ok_iff.mp houtput) hgiven hop, fun _ => rfl⟩

theorem exists_piece_of_addSplit (n : Node) (settings : Settings) :
    ∃ p, p.Of n ∧ ∀ d : Conversion, d.addSplit n settings = d.add p := by
  unfold addSplit
  split
  · next data hgiven _ =>
    have hop : Operator.constantChunk ≠ .embeddingBag := by decide
    exact exists_piece_of_emitOperator n hop (by simp [hgiven]) _
  · exact exists_piece_of_emitAsIs n settings

/-- A constant depends on whether its name is the one of a target. -/
theorem exists_piece_of_addLiteral {value : Setting} (hop : n.op = .text "Constant")
    (hsettings : n.settings = .ok settings)
    (hvalue : lookup? settings (.text "value") = some value)
    (h : c.addLiteral targets n value = .ok c') :
    ∃ p, p.Of n ∧ ∀ (d : Conversion) (others : List Name),
      (∀ name, n.outputs.head? = some name → others.contains name = targets.contains name) →
      d.addLiteral others n value = .ok (d.add p) := by
  unfold addLiteral at h ⊢
  rw [bind_eq_ok_iff] at h
  obtain ⟨name, hname, h⟩ := h
  have hfirst := firstOf_eq_ok_iff.mp hname
  simp only [hname, ok_bind]
  cases hmem : targets.contains name with
  | true =>
    rw [hmem, if_pos rfl] at h
    cases value with
    | constant k =>
      simp only [bind_eq_ok_iff, Fault.ofMisuse, mapError_eq_ok_iff] at h
      obtain ⟨ns, hns, _⟩ := h
      have hheld : n.literal? = some k := Node.literal?_eq_some_iff.mpr ⟨_, hsettings, hvalue⟩
      refine ⟨.target name ns, .target hop hfirst hheld hns, fun d others hothers => ?_⟩
      rw [hothers name hfirst, hmem, if_pos rfl]
      simp only [Fault.ofMisuse, hns]
      rfl
    | plain _ => cases h
  | false =>
    refine ⟨.constant name value.toDatum, .constant hop hfirst, fun d others hothers => ?_⟩
    rw [hothers name hfirst, hmem, if_neg Bool.false_ne_true]
    rfl

/-- A reshape that copies sizes: its target is resolved by the declared sizes of its
operand, and it is behind the resolved target. -/
theorem exists_pair_of_addReshape {data shape : Name} {target : List Int}
    (hzero : target.contains 0 = true) (hset : isSet settings "allowzero" = .ok false)
    (h : c.addReshape n settings index data shape target = .ok c') :
    ∃ output sizes resolved, n.outputs.head? = some output ∧
      c.declaredSizes? data = some sizes ∧ copyZeros? target sizes = some resolved ∧
      ∀ d : Conversion, d.declaredSizes? data = some sizes →
        d.addReshape n settings index data shape target
          = .ok (d.add (.pair (derivedName output "__shape") (.list (resolved.map .int))
              { op := .text Operator.reshape.tag, inputs := [data, derivedName output "__shape"],
                outputs := n.outputs })) := by
  unfold addReshape at h ⊢
  simp only [hzero, Bool.not_true, Bool.false_eq_true, if_false, hset, ok_bind, bind_eq_ok_iff]
    at h ⊢
  obtain ⟨resolved, hresolved, output, houtput, _⟩ := h
  have hcopied : (c.declaredSizes? data).bind (copyZeros? target) = some resolved := by
    unfold resolveZeros at hresolved
    split at hresolved
    · next ns hns => rw [hns, Except.ok.inj hresolved]
    · rw [bind_eq_ok_iff] at hresolved
      obtain ⟨_, _, hfail⟩ := hresolved
      cases hfail
  obtain ⟨sizes, hsizes, hcopy⟩ := Option.bind_eq_some_iff.mp hcopied
  refine ⟨output, sizes, resolved, firstOf_eq_ok_iff.mp houtput, hsizes, hcopy, fun d hd => ?_⟩
  refine ⟨resolved, ?_, output, houtput, rfl⟩
  rw [resolveZeros, hd, Option.bind_some, hcopy]

/-- A reshape with a constant target looks at the declared sizes of its operand. -/
theorem exists_piece_of_addReshape {data shape : Name} {target : List Int}
    (hgiven : n.givenInputs = [data, shape])
    (h : c.addReshape n settings index data shape target = .ok c') :
    ∃ p, p.Of n ∧
      (∃ node ∈ p.nodes, node.op = .text Operator.reshape.tag ∧ node.inputs.head? = some data) ∧
      ∀ d : Conversion, d.declaredSizes? data = c.declaredSizes? data →
        d.addReshape n settings index data shape target = .ok (d.add p) := by
  have hop : Operator.reshape ≠ .embeddingBag := by decide
  have hdata : data ∈ n.givenInputs := by simp [hgiven]
  -- The target is taken over unless it copies sizes.
  have hasIs : Piece.Of n (.node
      { op := .text Operator.reshape.tag, inputs := [data, shape], outputs := n.outputs }) :=
    .node (.inr ⟨.reshape, rfl, hop⟩) (by simp [hgiven])
  cases hzero : target.contains 0 with
  | false =>
    refine ⟨_, hasIs, ⟨_, List.mem_cons_self, rfl, rfl⟩, fun d _ => ?_⟩
    rw [addReshape, hzero]
    rfl
  | true =>
    cases hset : isSet settings "allowzero" with
    | error f =>
      rw [addReshape, hzero, hset] at h
      cases h
    | ok set =>
      cases set with
      | true =>
        refine ⟨_, hasIs, ⟨_, List.mem_cons_self, rfl, rfl⟩, fun d _ => ?_⟩
        rw [addReshape, hzero, hset]
        rfl
      | false =>
        obtain ⟨output, sizes, resolved, hfirst, hsizes, _, hadd⟩ :=
          exists_pair_of_addReshape hzero hset h
        refine ⟨_, .pair (by decide) hfirst hdata hop, ?_, fun d hd => hadd d (hd.trans hsizes)⟩
        exact ⟨_, List.mem_cons_of_mem _ List.mem_cons_self, rfl, rfl⟩

/-- The operands look as they do under another conversion: they are the same targets,
of the same declared sizes. -/
def LooksAs (d c : Conversion) (names : List Name) : Prop :=
  ∀ name ∈ names, lookup? d.targets name = lookup? c.targets name ∧
    d.declaredSizes? name = c.declaredSizes? name

theorem LooksAs.refl (c : Conversion) (names : List Name) : c.LooksAs c names :=
  fun _ _ => ⟨rfl, rfl⟩

/-- A reshape only looks at its operands. -/
theorem exists_piece_of_addAnyReshape (hop : n.op = .text "Reshape")
    (h : c.addAnyReshape n settings index = .ok c') :
    ∃ p, p.Of n ∧ c.Reshaped n p ∧
      ∀ d : Conversion, d.LooksAs c n.givenInputs →
        d.addAnyReshape n settings index = .ok (d.add p) := by
  have hasIs : Piece.Of n (.node
      { op := n.op.toDatum, inputs := n.givenInputs, outputs := n.outputs,
        attributes := settings.map fun entry => (entry.1, entry.2.toDatum) }) :=
    .node (.inl rfl) (fun _ hname => hname)
  have htype : n.op.toDatum = .text "Reshape" := congrArg Name.toDatum hop
  unfold addAnyReshape at h ⊢
  split at h
  · next data shape hgiven =>
    cases htarget : lookup? c.targets shape with
    | some target =>
      rw [htarget] at h
      obtain ⟨p, hp, ⟨node, hnode, htag, hfirst⟩, hadd⟩ := exists_piece_of_addReshape hgiven h
      refine ⟨p, hp, .byTarget hgiven htarget hnode htag hfirst, fun d hd => ?_⟩
      rw [LooksAs, hgiven, List.forall_mem_cons, List.forall_mem_cons] at hd
      rw [hd.2.1.1, htarget]
      exact hadd d hd.1.2
    | none =>
      refine ⟨_, hasIs, .asIs List.mem_cons_self htype, fun d hd => ?_⟩
      rw [LooksAs, hgiven, List.forall_mem_cons, List.forall_mem_cons] at hd
      rw [hd.2.1.1, htarget]
      rfl
  · exact ⟨_, hasIs, .asIs List.mem_cons_self htype, fun d _ => rfl⟩

theorem addNode_of_reshape (c : Conversion) (targets : List Name) (index : Nat)
    (hop : n.op = .text "Reshape") (hsettings : n.settings = .ok settings) :
    c.addNode targets index n = c.addAnyReshape n settings index := by
  have hdirect : direct? (.text "Reshape") = none := rfl
  simp only [addNode, hsettings, Fault.ofMisuse, Except.mapError, ok_bind, hop, hdirect]

/-- Operands are taken over as they are for some operators only. -/
theorem direct?_ne_embeddingBag {name : Name} {op : Operator} (h : direct? name = some op) :
    op ≠ .embeddingBag := by
  unfold direct? at h
  split at h <;> cases h <;> decide

/-- A node that is no reshape does not look at the conversion. -/
theorem exists_piece_of_addNode_of_ne (hop : n.op ≠ .text "Reshape")
    (h : c.addNode targets index n = .ok c') :
    ∃ p, p.Of n ∧ ∀ (d : Conversion) (others : List Name),
      (∀ name, n.outputs.head? = some name → others.contains name = targets.contains name) →
      d.addNode others index n = .ok (d.add p) := by
  obtain ⟨settings, hsettings, h⟩ := bind_eq_ok_iff.mp h
  rw [Fault.ofMisuse, mapError_eq_ok_iff] at hsettings
  obtain ⟨asIs, hasIs, hall⟩ := exists_piece_of_emitAsIs n settings
  simp only [addNode, hsettings, Fault.ofMisuse, Except.mapError, ok_bind] at h ⊢
  split at h
  · next op hdirect =>
    obtain ⟨p, hp, hadd⟩ := exists_piece_of_emitOperator n (direct?_ne_embeddingBag hdirect)
      (fun _ hname => hname) []
    exact ⟨p, hp, fun d _ _ => congrArg _ (hadd d)⟩
  · split at h
    · obtain ⟨p, hp, hadd⟩ := exists_piece_of_addGeneralProduct h
      exact ⟨p, hp, fun d _ _ => hadd d⟩
    · have hbag : Operator.fusedConcat ≠ .embeddingBag := by decide
      obtain ⟨p, hp, hadd⟩ := exists_piece_of_emitOperator n hbag (fun _ hname => hname)
        [(.text "dim", axisOf settings)]
      exact ⟨p, hp, fun d _ _ => congrArg _ (hadd d)⟩
    · cases hperm : lookup? settings (.text "perm") with
      | some axes =>
        rw [hperm] at h
        obtain ⟨p, hp, hadd⟩ := exists_piece_of_addTransposition h
        exact ⟨p, hp, fun d _ _ => hadd d⟩
      | none => exact ⟨asIs, hasIs, fun d _ _ => congrArg _ (hall d)⟩
    · next hreshape => exact absurd hreshape hop
    · obtain ⟨p, hp, hadd⟩ := exists_piece_of_addSplit n settings
      exact ⟨p, hp, fun d _ _ => congrArg _ (hadd d)⟩
    · next hconstant =>
      cases hvalue : lookup? settings (.text "value") with
      | some value =>
        rw [hvalue] at h
        exact exists_piece_of_addLiteral hconstant hsettings hvalue h
      | none => exact ⟨asIs, hasIs, fun d _ _ => congrArg _ (hall d)⟩
    · exact ⟨asIs, hasIs, fun d _ _ => congrArg _ (hall d)⟩

/-- **One node.** A node that is converted adds a piece. It adds the same piece to any
other conversion under which its name is as much a target and, for a reshape, the
operands look the same. -/
theorem exists_piece_of_addNode (h : c.addNode targets index n = .ok c') :
    ∃ p, p.Of n ∧ c' = c.add p ∧
      (n.op = .text "Reshape" → c.Reshaped n p) ∧
      ∀ (d : Conversion) (others : List Name),
        (∀ name, n.outputs.head? = some name → others.contains name = targets.contains name) →
        (n.op = .text "Reshape" → d.LooksAs c n.givenInputs) →
        d.addNode others index n = .ok (d.add p) := by
  by_cases hop : n.op = .text "Reshape"
  · obtain ⟨settings, hsettings, _⟩ := bind_eq_ok_iff.mp h
    rw [Fault.ofMisuse, mapError_eq_ok_iff] at hsettings
    rw [addNode_of_reshape c targets index hop hsettings] at h
    obtain ⟨p, hp, hreshaped, hadd⟩ := exists_piece_of_addAnyReshape hop h
    have hself := hadd c (.refl c _)
    rw [h] at hself
    refine ⟨p, hp, Except.ok.inj hself, fun _ => hreshaped, fun d others _ hd => ?_⟩
    rw [addNode_of_reshape d others index hop hsettings]
    exact hadd d (hd hop)
  · obtain ⟨p, hp, hadd⟩ := exists_piece_of_addNode_of_ne hop h
    have hself := hadd c targets fun _ _ => rfl
    rw [h] at hself
    exact ⟨p, hp, Except.ok.inj hself, fun hreshape => absurd hreshape hop,
      fun d others hothers _ => hadd d others hothers⟩

/-! ## §3 Models -/

/-- Adds pieces in order. -/
def addAll (c : Conversion) (ps : List Piece) : Conversion := ps.foldl add c

@[simp] theorem addAll_nil (c : Conversion) : c.addAll [] = c := rfl

@[simp] theorem addAll_cons (c : Conversion) (p : Piece) (ps : List Piece) :
    c.addAll (p :: ps) = (c.add p).addAll ps := rfl

theorem addAll_append (c : Conversion) (ps ps' : List Piece) :
    c.addAll (ps ++ ps') = (c.addAll ps).addAll ps' :=
  List.foldl_append

section AddAll

variable {ps : List Piece}

@[simp] theorem nodes_addAll :
    (c.addAll ps).graph.nodes = c.graph.nodes ++ ps.flatMap Piece.nodes := by
  induction ps generalizing c with
  | nil => simp
  | cons p ps ih => simp [ih]

@[simp] theorem inputs_addAll : (c.addAll ps).graph.inputs = c.graph.inputs := by
  induction ps generalizing c with
  | nil => rfl
  | cons p ps ih => exact ih.trans inputs_add

@[simp] theorem outputs_addAll : (c.addAll ps).graph.outputs = c.graph.outputs := by
  induction ps generalizing c with
  | nil => rfl
  | cons p ps ih => exact ih.trans outputs_add

end AddAll

theorem addNodes_cons_eq_ok_iff {ns : List Node} :
    addNodes targets c index (n :: ns) = .ok c' ↔
      ∃ d, c.addNode targets index n = .ok d ∧ addNodes targets d (index + 1) ns = .ok c' := by
  rw [addNodes, bind_eq_ok_iff]

/-- Every node adds its piece. -/
theorem exists_pieces_of_addNodes {ns : List Node} (h : addNodes targets c index ns = .ok c') :
    ∃ ps, List.Forall₂ Piece.Of ns ps ∧ c' = c.addAll ps := by
  induction ns generalizing c index with
  | nil =>
    cases h
    exact ⟨[], .nil, rfl⟩
  | cons n ns ih =>
    obtain ⟨d, hd, hrest⟩ := addNodes_cons_eq_ok_iff.mp h
    obtain ⟨p, hp, rfl, _⟩ := exists_piece_of_addNode hd
    obtain ⟨ps, hps, rfl⟩ := ih hrest
    exact ⟨p :: ps, .cons hp hps, rfl⟩

end Conversion

/-- What an initializer becomes. -/
inductive Piece.OfInitializer (targets : List Name) : Name × Constant → Piece → Prop
  | constant {name : Name} {k : Constant} (plain : targets.contains name = false) :
      OfInitializer targets (name, k) (.constant name k.toDatum)
  | target {name : Name} {k : Constant} {ns : List Int} (used : targets.contains name = true)
      (integers : k.integers = .ok ns) : OfInitializer targets (name, k) (.target name ns)

namespace Conversion

variable {c c' : Conversion} {targets : List Name}

theorem addInitializer_eq_ok_iff {name : Name} {k : Constant} :
    c.addInitializer targets name k = .ok c' ↔
      ∃ p, Piece.OfInitializer targets (name, k) p ∧ c' = c.add p := by
  unfold addInitializer
  cases hmem : targets.contains name with
  | true =>
    simp only [if_true, bind_eq_ok_iff, pure_eq_ok_iff, Fault.ofMisuse, mapError_eq_ok_iff]
    constructor
    · rintro ⟨ns, hns, rfl⟩
      exact ⟨_, .target hmem hns, rfl⟩
    · rintro ⟨p, ⟨hplain⟩ | ⟨_, hns⟩, rfl⟩
      · rw [hmem] at hplain
        cases hplain
      · exact ⟨_, hns, rfl⟩
  | false =>
    rw [if_neg Bool.false_ne_true, pure_eq_ok_iff]
    constructor
    · rintro rfl
      exact ⟨_, .constant hmem, rfl⟩
    · rintro ⟨p, _ | ⟨hused, _⟩, rfl⟩
      · rfl
      · rw [hmem] at hused
        cases hused

/-- Every initializer adds its piece. -/
theorem addInitializers_eq_ok_iff {constants : List (Name × Constant)} :
    addInitializers targets c constants = .ok c' ↔
      ∃ ps, List.Forall₂ (Piece.OfInitializer targets) constants ps ∧ c' = c.addAll ps := by
  induction constants generalizing c with
  | nil =>
    simp only [addInitializers, Except.ok.injEq, List.forall₂_nil_left_iff, exists_eq_left,
      addAll_nil, eq_comm]
  | cons entry rest ih =>
    obtain ⟨name, k⟩ := entry
    simp only [addInitializers, bind_eq_ok_iff, addInitializer_eq_ok_iff, ih,
      List.forall₂_cons_left_iff]
    constructor
    · rintro ⟨d, ⟨p, hp, rfl⟩, ps, hps, rfl⟩
      exact ⟨_, ⟨p, ps, hp, hps, rfl⟩, rfl⟩
    · rintro ⟨_, ⟨p, ps, hp, hps, rfl⟩, rfl⟩
      exact ⟨_, ⟨p, hp, rfl⟩, ps, hps, rfl⟩

/-- A conversion at its start. -/
def start (m : Model) : Conversion :=
  { graph := { metadata := [(.text "producer", m.producer.toDatum)] } }

/-- The conversion with the inputs, values and outputs of the model declared. -/
def declareModel (m : Model) (initializers : List Name) (c : Conversion) : Conversion :=
  { c with graph := declareAll m initializers c.graph }

/-- What a model says of a value, as a declaration. -/
def entryOf (v : ValueInfo) : Name × Value := (v.name, { shape := v.shape })

/-- The model's inputs that are no initializers. -/
def inputsOf (m : Model) (initializers : List Name) : List ValueInfo :=
  m.inputs.filter fun v => !initializers.contains v.name

/-- Declaring inputs changes nothing but the inputs and what is declared of them, where
the last declaration of a name counts. -/
theorem declareInputs_spec (g : Graph) (vs : List ValueInfo) :
    (vs.foldl declareInput g).nodes = g.nodes ∧
      (vs.foldl declareInput g).inputs = g.inputs ++ vs.map (·.name) ∧
      ∀ n, (vs.foldl declareInput g).value? n
        = (lookup? (vs.map entryOf).reverse n).or (g.value? n) := by
  induction vs generalizing g with
  | nil => simp
  | cons v vs ih =>
    obtain ⟨hnodes, hinputs, hvalue⟩ := ih (declareInput g v)
    refine ⟨hnodes, hinputs.trans ?_, fun n => (hvalue n).trans ?_⟩
    · simp [declareInput, Graph.addValue]
    · have hstep : (declareInput g v).value? n
          = if v.name.same n then some { shape := v.shape } else g.value? n :=
        Graph.value?_addValue g v.name { shape := v.shape } n
      rw [hstep, List.map_cons, List.reverse_cons, lookup?_append, Option.or_assoc, entryOf,
        lookup?_cons, lookup?_nil]
      split <;> rfl

/-- Declaring values keeps what was declared before. -/
theorem declareValues_spec (g : Graph) (vs : List ValueInfo) :
    (vs.foldl declareValue g).nodes = g.nodes ∧ (vs.foldl declareValue g).inputs = g.inputs ∧
      ∀ n, (vs.foldl declareValue g).value? n
        = (g.value? n).or (lookup? (vs.map entryOf) n) := by
  induction vs generalizing g with
  | nil => simp
  | cons v vs ih =>
    obtain ⟨hnodes, hinputs, hvalue⟩ := ih (declareValue g v)
    refine ⟨hnodes.trans ?_, hinputs.trans ?_, fun n => (hvalue n).trans ?_⟩
    · rw [declareValue]
      split <;> rfl
    · rw [declareValue]
      split <;> rfl
    · rw [List.map_cons, entryOf, lookup?_cons, declareValue, Graph.declares]
      cases hsame : v.name.same n with
      | true =>
        have hname : g.value? v.name = g.value? n :=
          lookup?_congr g.values (Name.same_iff.mp hsame)
        rw [hname]
        cases hn : g.value? n with
        | some old => simp [hn]
        | none => simp [Graph.value?_addValue, hsame]
      | false =>
        split
        · rfl
        · rw [Graph.value?_addValue, hsame]
          rfl

section DeclareModel

variable (c : Conversion) (m : Model) (initializers : List Name)

@[simp] theorem nodes_declareModel :
    (c.declareModel m initializers).graph.nodes = c.graph.nodes := by
  refine (declareValues_spec _ _).1.trans (declareInputs_spec _ _).1

@[simp] theorem inputs_declareModel :
    (c.declareModel m initializers).graph.inputs
      = c.graph.inputs ++ (inputsOf m initializers).map (·.name) :=
  (declareValues_spec _ _).2.1.trans (declareInputs_spec _ _).2.1

@[simp] theorem outputs_declareModel :
    (c.declareModel m initializers).graph.outputs = m.outputs.map (·.name) := rfl

theorem value?_declareModel (n : Name) :
    (c.declareModel m initializers).graph.value? n
      = ((lookup? ((inputsOf m initializers).map entryOf).reverse n).or (c.graph.value? n)).or
          (lookup? ((m.values ++ m.outputs).map entryOf) n) := by
  rw [← (declareInputs_spec c.graph (inputsOf m initializers)).2.2 n]
  exact (declareValues_spec _ _).2.2 n

end DeclareModel

end Conversion

/-- The model is converted, with the names for targets: first the initializers, then the
declarations, and then the nodes. -/
inductive Model.Converts (m : Model) (targets : List Name) (c : Conversion) : Prop
  | intro {constants : List (Name × Constant)} {front : List Piece}
      (read : m.constants = .ok constants)
      (initializers : List.Forall₂ (Piece.OfInitializer targets) constants front)
      (nodes : addNodes targets
        (((start m).addAll front).declareModel m (constants.map (·.1))) 0 m.nodes = .ok c) :
      Converts m targets c

section Models

variable {m : Model} {g : Graph}

/-- The graph of a model is what it is converted to, with its own targets. -/
theorem convert_eq_ok_iff : m.convert = .ok g ↔ ∃ c, m.Converts m.targets c ∧ g = c.graph := by
  simp only [Model.convert, bind_eq_ok_iff, Fault.ofMisuse, mapError_eq_ok_iff,
    addInitializers_eq_ok_iff, pure_eq_ok_iff]
  constructor
  · rintro ⟨constants, hconstants, _, ⟨front, hfront, rfl⟩, c, hnodes, rfl⟩
    exact ⟨c, ⟨hconstants, hfront, hnodes⟩, rfl⟩
  · rintro ⟨c, @⟨constants, front, hconstants, hfront, hnodes⟩, rfl⟩
    exact ⟨constants, hconstants, _, ⟨front, hfront, rfl⟩, c, hnodes, rfl⟩

/-- A model that is to be validated has the same graph, if it is valid. -/
theorem toGraph_eq_ok_iff {validate : Bool} :
    m.toGraph validate = .ok g ↔ m.convert = .ok g ∧ (validate = true → g.validate = .ok ()) := by
  unfold Model.toGraph
  cases validate with
  | false => simp
  | true =>
    simp only [bind_eq_ok_iff, Fault.ofValidation, if_true, mapError_eq_ok_iff, pure_eq_ok_iff,
      true_implies]
    constructor
    · rintro ⟨g, hg, _, hvalid, rfl⟩
      exact ⟨hg, hvalid⟩
    · rintro ⟨hg, hvalid⟩
      exact ⟨g, hg, (), hvalid, rfl⟩

end Models

end Onnx

end GraphShapes
