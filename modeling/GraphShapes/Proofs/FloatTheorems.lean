/-
GraphShapes.Proofs.FloatTheorems — what a floating-point constant stands for.

The magnitude of a floating-point number is not known to a run, and the rule of
constants lets the integer one stand for it. Nothing marks that integer: it is
folded with others and read as a size, an axis or a bound like any integer. Declare
all floating-point values as integers and let their constants be one, and no run can
tell the difference (`run_withOnes`). So a floating-point constant does determine
sizes, and those are not the ones of the number itself (`run_scaling`).

Two graphs whose nodes correspond one to one are compared node by node
(`Graph.Mirrors`): where corresponding nodes use the same names and infer the same,
so do the validation of the graphs, their walks and their runs.

  §1 Corresponding nodes — graphs that no run can tell apart.
  §2 Constants           — the integer one in place of a floating-point number.
  §3 Runs                — where the integer goes.
-/
import GraphShapes.Proofs.EngineTheorems
import GraphShapes.Proofs.RuleTheorems

namespace GraphShapes

/-! ## §1 Corresponding nodes -/

namespace Graph

variable {g g' : Graph} {f : Node → Node} {config : Config} {s : Store}

/-- The nodes of one graph are those of the other in other words: they use the same
names and infer the same. -/
structure Mirrors (g' g : Graph) (f : Node → Node) : Prop where
  nodes : g'.nodes = g.nodes.map f
  inputs : g'.inputs = g.inputs
  outputs : g'.outputs = g.outputs
  declares : g'.declares = g.declares
  consumed : ∀ node, (f node).inputs = node.inputs
  produced : ∀ node, (f node).outputs = node.outputs
  infers : ∀ config s node, g'.inferNode config s (f node) = g.inferNode config s node

theorem enterNodes_map (hproduced : ∀ node, (f node).outputs = node.outputs)
    (nodes : List Node) (i : Nat) (ps : Producers) :
    enterNodes i ps (nodes.map f) = enterNodes i ps nodes := by
  induction nodes generalizing i ps with
  | nil => rfl
  | cons node rest ih => simp only [List.map_cons, enterNodes, hproduced, ih]

/-- Graphs with corresponding nodes have the same defect, or none. -/
theorem Mirrors.validate_eq (h : Mirrors g' g f) : g'.validate = g.validate := by
  have hproducers : g'.producers = g.producers := by
    rw [producers, producers, h.nodes, enterNodes_map h.produced]
  have hat (i : Nat) (node : Node) :
      g'.undeclaredAt? i (f node) = g.undeclaredAt? i node := by
    rw [undeclaredAt?, undeclaredAt?, h.declares, h.consumed, h.produced]
  have hnodes : g'.checkNodes = g.checkNodes := by
    rw [checkNodes, checkNodes, h.nodes, List.zipIdx_map, List.findSome?_map]
    simp only [Function.comp_def, Prod.map, id, hat]
  have hends : g'.checkEnds = g.checkEnds := by
    rw [checkEnds, checkEnds, h.declares, h.inputs, h.outputs]
  have hinputs (ps : Producers) : g'.checkInputs ps = g.checkInputs ps := by
    rw [checkInputs, checkInputs, h.inputs]
  have horder (ps : Producers) : g'.orderFrom ps = g.orderFrom ps := by
    have hsuppliers : suppliers ps ∘ f = suppliers ps :=
      funext fun node => by rw [Function.comp_apply, suppliers, suppliers, h.consumed]
    rw [orderFrom, orderFrom, h.nodes, List.map_map, hsuppliers, List.length_map]
  simp only [validate, hproducers, hnodes, hends, hinputs, horder]

/-- Walks over corresponding nodes are the same. By induction on the nodes. -/
theorem Mirrors.inferNodes_eq (h : Mirrors g' g f) (config : Config) (nodes : List Node)
    (s : Store) : g'.inferNodes config s (nodes.map f) = g.inferNodes config s nodes := by
  induction nodes generalizing s with
  | nil => rfl
  | cons node rest ih => simp only [List.map_cons, inferNodes, h.infers, ih]

theorem Mirrors.walk_eq (h : Mirrors g' g f) (config : Config) (inputs : List Datum) :
    g'.walk config inputs = g.walk config inputs := by
  have hbind (s : Store) : g'.bindInputs inputs s = g.bindInputs inputs s := by
    rw [bindInputs, bindInputs, h.inputs]
  simp only [walk, hbind, h.nodes, h.inferNodes_eq]

end Graph

/-- **Corresponding nodes.** No run can tell graphs with corresponding nodes apart,
neither by its result nor by what it leaves behind or writes to the log. -/
theorem Graph.Mirrors.run_eq {g g' : Graph} {f : Node → Node} (h : Graph.Mirrors g' g f)
    (e : Engine) : Engine.run g' e = Engine.run g e := by
  have hshapes (s : Store) : g'.outputShapes s = g.outputShapes s := by
    rw [Graph.outputShapes, Graph.outputShapes, h.outputs]
  have hsummary (s : Store) : Engine.summary g' s = Engine.summary g s := by
    rw [Engine.summary, Engine.summary, h.nodes, List.length_map]
  have hfinish (p : Progress) : Engine.finish g' e p = Engine.finish g e p := by
    simp only [Engine.finish, hshapes, hsummary]
  simp only [Engine.run, h.validate_eq, h.walk_eq, hfinish]

/-! ## §2 Constants -/

/-- Is it the type of floating-point numbers? -/
def Datum.isFloatType : Datum → Bool
  | .text s => s == "float"
  | _ => false

/-- A constant node with the integer one. -/
def Node.withOne (node : Node) : Node := { node with attributes := [(.text "value", .int 1)] }

/-- A declaration in which integers take the place of floating-point numbers. -/
def Value.asInteger (v : Value) : Value :=
  if v.type.isFloatType then { v with type := .text "int" } else v

namespace Graph

/-- Is the node a constant whose output is declared as a floating-point number? -/
def isFloatConstant (g : Graph) (node : Node) : Bool :=
  Operator.ofTag? node.op == some .constant &&
    node.outputs.head?.any fun name => (g.valueType name).isFloatType

/-- The graph with integers in place of floating-point numbers, all constants of
which are one. -/
def withOnes (g : Graph) : Graph :=
  { g with
    nodes := g.nodes.map fun node => if g.isFloatConstant node then node.withOne else node
    values := g.values.map fun entry => (entry.1, entry.2.asInteger) }

variable {g : Graph} {node : Node}

theorem value?_withOnes (g : Graph) (name : Name) :
    g.withOnes.value? name = (g.value? name).map Value.asInteger :=
  lookup?_map_value (f := fun _ v => Value.asInteger v) fun _ _ => rfl

theorem valueType_withOnes (g : Graph) (name : Name) :
    g.withOnes.valueType name
      = if (g.valueType name).isFloatType then .text "int" else g.valueType name := by
  unfold valueType
  rw [value?_withOnes]
  cases g.value? name with
  | none => rfl
  | some v => exact apply_ite Value.type _ _ _

end Graph

namespace Rule

variable {op : Operator} {node : Node} {ctx ctx' : Context}

theorem ofType_of_isFloatType {type : Datum} (h : type.isFloatType = true) :
    ConstantKind.ofType type = .float := by
  cases type with
  | text s =>
    rw [beq_iff_eq.mp h]
    rfl
  | _ => cases h

theorem notes_of_ne_constant (hop : op ≠ .constant) : notes op ctx = [] := by
  cases op <;> first | rfl | exact absurd rfl hop

/-- Constants look at no more than the kind that the declared type stands for. -/
theorem constant_congr (node : Node) (hkind : constantKind ctx' = constantKind ctx) :
    constant node ctx' = constant node ctx ∧ notes .constant ctx' = notes .constant ctx := by
  simp only [constant, notes, hkind, and_self]

end Rule

namespace Graph

variable {g : Graph} {node : Node} {config : Config}

theorem isFloatConstant_iff :
    g.isFloatConstant node = true ↔
      Operator.ofTag? node.op = some .constant ∧
        ∃ name rest, node.outputs = name :: rest ∧ (g.valueType name).isFloatType = true := by
  unfold isFloatConstant
  cases node.outputs with
  | nil => simp
  | cons name rest => simp

theorem constantKind_context {name : Name} {rest : List Name} (h : node.outputs = name :: rest) :
    Rule.constantKind (g.context config node) = Rule.ConstantKind.ofType (g.valueType name) := by
  rw [Rule.constantKind, context, h, List.map_cons, List.headD_cons]

/-- A constant declared as a floating-point number is one. -/
theorem apply_of_isFloatConstant (h : g.isFloatConstant node = true) (metas : List Meta) :
    Rule.apply .constant metas node (g.context config node) = .ok [.scalar 1] ∧
      Rule.notes .constant (g.context config node) = [] := by
  obtain ⟨_, name, rest, houtputs, hfloat⟩ := isFloatConstant_iff.mp h
  have hkind : Rule.constantKind (g.context config node) = .float := by
    rw [constantKind_context houtputs, Rule.ofType_of_isFloatType hfloat]
  simp only [Rule.apply, Rule.constant, Rule.notes, hkind]
  exact ⟨rfl, trivial⟩

/-- The constant in its place is one as well. -/
theorem apply_withOne (h : g.isFloatConstant node = true) (metas : List Meta) :
    Rule.apply .constant metas node.withOne (g.withOnes.context config node.withOne)
        = .ok [.scalar 1] ∧
      Rule.notes .constant (g.withOnes.context config node.withOne) = [] := by
  obtain ⟨_, name, rest, houtputs, hfloat⟩ := isFloatConstant_iff.mp h
  have hkind : Rule.constantKind (g.withOnes.context config node.withOne) = .integer := by
    have hsame : node.withOne.outputs = name :: rest := houtputs
    rw [constantKind_context hsame, valueType_withOnes, if_pos hfloat]
    rfl
  simp only [Rule.apply, Rule.constant, Rule.notes, hkind]
  exact ⟨rfl, trivial⟩

/-- Any other constant is of the same kind in both graphs. -/
theorem constantKind_withOnes (config : Config) (htag : Operator.ofTag? node.op = some .constant)
    (h : ¬ g.isFloatConstant node = true) :
    Rule.constantKind (g.withOnes.context config node)
      = Rule.constantKind (g.context config node) := by
  cases houtputs : node.outputs with
  | nil => rw [Rule.constantKind, Rule.constantKind, context, context, houtputs]; rfl
  | cons name rest =>
    have hother : ¬ (g.valueType name).isFloatType = true :=
      fun hfloat => h (isFloatConstant_iff.mpr ⟨htag, name, rest, houtputs, hfloat⟩)
    rw [constantKind_context houtputs, constantKind_context houtputs, valueType_withOnes,
      if_neg hother]

/-- Nodes of one operator that use the same names infer the same if their rules
answer and note the same. -/
theorem inferNode_congr {g' : Graph} {node' : Node} (s : Store) (htag : node'.op = node.op)
    (hin : node'.inputs = node.inputs) (hout : node'.outputs = node.outputs)
    (hrule : ∀ op, Operator.ofTag? node.op = some op →
      (∀ metas, Rule.apply op metas node' (g'.context config node')
        = Rule.apply op metas node (g.context config node)) ∧
      Rule.notes op (g'.context config node') = Rule.notes op (g.context config node)) :
    g'.inferNode config s node' = g.inferNode config s node := by
  have heval : g'.evaluate config s node' = g.evaluate config s node := by
    unfold evaluate
    rw [htag, hin]
    cases hop : Operator.ofTag? node.op with
    | none => rfl
    | some op => simp only [(hrule op hop).1]
  have hwrite (op : Operator) (results : List Meta) :
      writeResults op node' s results = writeResults op node s results := by
    unfold writeResults
    rw [htag, hout]
  unfold inferNode
  rw [heval]
  cases hanswer : g.evaluate config s node with
  | error f => rfl
  | ok answer =>
    obtain ⟨op, results⟩ := answer
    obtain ⟨hop, _⟩ := evaluate_eq_ok_iff.mp hanswer
    simp only [hwrite, (hrule op hop).2]

/-- A node infers what the one in its place infers. -/
theorem inferNode_withOnes (g : Graph) (config : Config) (s : Store) (node : Node) :
    g.withOnes.inferNode config s (if g.isFloatConstant node then node.withOne else node)
      = g.inferNode config s node := by
  by_cases hfloat : g.isFloatConstant node = true
  · rw [if_pos hfloat]
    refine inferNode_congr s rfl rfl rfl fun op hop => ?_
    obtain ⟨hconstant, _⟩ := isFloatConstant_iff.mp hfloat
    obtain rfl : op = .constant := Option.some.inj (hop.symm.trans hconstant)
    refine ⟨fun metas => ?_, ?_⟩
    · rw [(apply_withOne hfloat metas).1, (apply_of_isFloatConstant hfloat metas).1]
    · rw [(apply_withOne hfloat []).2, (apply_of_isFloatConstant hfloat []).2]
  · rw [if_neg hfloat]
    refine inferNode_congr s rfl rfl rfl fun op hop => ?_
    by_cases hconstant : op = .constant
    · subst hconstant
      obtain ⟨hrule, hnotes⟩ := Rule.constant_congr node (constantKind_withOnes config hop hfloat)
      exact ⟨fun _ => hrule, hnotes⟩
    · have hoffset : (g.withOnes.context config node).endOffset
          = (g.context config node).endOffset := rfl
      refine ⟨fun metas => Rule.apply_congr hconstant hoffset metas node, ?_⟩
      rw [Rule.notes_of_ne_constant hconstant, Rule.notes_of_ne_constant hconstant]

theorem mirrors_withOnes (g : Graph) :
    g.withOnes.Mirrors g fun node => if g.isFloatConstant node then node.withOne else node where
  nodes := rfl
  inputs := rfl
  outputs := rfl
  declares := funext fun name => by
    rw [declares, declares, value?_withOnes, Option.isSome_map]
  consumed node := by split <;> rfl
  produced node := by split <;> rfl
  infers := g.inferNode_withOnes

end Graph

/-! ## §3 Runs -/

namespace Graph

variable {g : Graph} {s : Store} {node : Node} {config : Config} {name : Name}

/-- The operators that fold two integers. -/
def folding : List Operator := [.add, .sub, .mul, .pow]

/-- What is known of a name goes back to a floating-point constant: the name is the
output of one, or of a node that folds two integers of which one goes back to one. -/
inductive FromFloat (g : Graph) (s : Store) : Name → Prop
  | constant {node : Node} {name : Name} : node ∈ g.nodes → g.isFloatConstant node = true →
      name ∈ node.outputs → FromFloat g s name
  | folded {node : Node} {op : Operator} {operand name : Name} : node ∈ g.nodes →
      Operator.ofTag? node.op = some op → op ∈ folding →
      (∀ n ∈ node.inputs.take 2, ∃ i, lookup? s n = some (.scalar i)) →
      operand ∈ node.inputs.take 2 → FromFloat g s operand → name ∈ node.outputs →
      FromFloat g s name

/-- Some node reads a size, an axis or a bound that goes back to a floating-point
constant: as an element of a list, or in a slice behind the tensor. -/
def ReadsFloat (g : Graph) (s : Store) : Prop :=
  ∃ node ∈ g.nodes, ∃ name, g.FromFloat s name ∧
    (Operator.ofTag? node.op = some .listConstruct ∧ name ∈ node.inputs ∨
      Operator.ofTag? node.op = some .slice ∧ name ∈ node.inputs.drop 1)

/-- Where the only result of a node is an integer, that is what its outputs are. -/
theorem lookup?_of_solves {op : Operator} {n : Int} (hop : op.firstOutputOnly = false)
    (htag : Operator.ofTag? node.op = some op)
    (hmap : node.tracked.map (lookup? s) = [Meta.scalar n].map some)
    (hname : name ∈ node.outputs) : lookup? s name = some (.scalar n) := by
  have htracked : node.tracked = node.outputs := by
    rw [Node.tracked_of_ofTag? htag, Operator.tracked, hop, if_neg Bool.false_ne_true]
  rw [← htracked] at hname
  have hmem := List.mem_map_of_mem (f := lookup? s) hname
  rw [hmap] at hmem
  exact List.mem_singleton.mp hmem

/-- What goes back to a floating-point constant is an integer. -/
theorem FromFloat.exists_scalar (h : g.FromFloat s name)
    (hsolved : ∀ node ∈ g.nodes, s.assignment.Solves g config node) :
    ∃ n, lookup? s name = some (.scalar n) := by
  cases h with
  | @constant node name hnode hfloat hname =>
    obtain ⟨results, ⟨op, metas, htag, _, hrule⟩, hmap⟩ := hsolved node hnode
    obtain ⟨hconstant, _⟩ := isFloatConstant_iff.mp hfloat
    obtain rfl : op = .constant := Option.some.inj (htag.symm.trans hconstant)
    rw [(apply_of_isFloatConstant hfloat metas).1] at hrule
    cases hrule
    exact ⟨1, lookup?_of_solves rfl htag hmap hname⟩
  | @folded node op operand name hnode htag hop hscalars _ _ hname =>
    obtain ⟨results, ⟨op', metas, htag', hmetas, hrule⟩, hmap⟩ := hsolved node hnode
    obtain rfl : op' = op := Option.some.inj (htag'.symm.trans htag)
    have hbinary : Rule.binary op' metas = .ok results ∧ op'.firstOutputOnly = false := by
      simp only [folding, List.mem_cons, List.not_mem_nil, or_false] at hop
      rcases hop with rfl | rfl | rfl | rfl <;> exact ⟨hrule, rfl⟩
    obtain ⟨a, b, rest, m, rfl, hcombine, rfl⟩ := Rule.binary_eq_ok hbinary.1
    -- The two operands are integers, so they are folded.
    have hoperand (m : Meta) (hm : m ∈ [a, b]) : ∃ i, m = .scalar i := by
      have htake : (node.inputs.take 2).map (lookup? s) = [a, b].map some := by
        rw [List.map_take]
        exact congrArg (List.take 2) hmetas
      have hmem : some m ∈ (node.inputs.take 2).map (lookup? s) :=
        htake ▸ List.mem_map_of_mem hm
      obtain ⟨n, hn, hlookup⟩ := List.mem_map.mp hmem
      obtain ⟨i, hi⟩ := hscalars n hn
      exact ⟨i, Option.some.inj (hlookup.symm.trans hi)⟩
    obtain ⟨x, rfl⟩ := hoperand a (by simp)
    obtain ⟨y, rfl⟩ := hoperand b (by simp)
    obtain ⟨n, rfl⟩ := Rule.fold_eq_ok hcombine
    exact ⟨n, lookup?_of_solves hbinary.2 htag hmap hname⟩

end Graph

/-- The floating-point number two. -/
def Node.two : Node where
  op := .text "prim::Constant"
  outputs := [.text "two"]
  attributes := [(.text "value", .float (.finite false 1 1))]

/-- A product of the number with an integer. -/
def Node.scale : Node where
  op := .text "aten::mul"
  inputs := ["two", "three"].map .text
  outputs := [.text "n"]

/-- A list of the product and another integer. -/
def Node.listSizes : Node where
  op := .text "prim::ListConstruct"
  inputs := ["n", "open"].map .text
  outputs := [.text "sizes"]

/-- A tensor under a shape of which one size is two times three and the other is left
open. -/
def Graph.scaling : Graph where
  nodes :=
    [.two,
     { op := .text "prim::Constant", outputs := [.text "three"],
       attributes := [(.text "value", .int 3)] },
     { op := .text "prim::Constant", outputs := [.text "open"],
       attributes := [(.text "value", .int (-1))] },
     .scale, .listSizes,
     { op := .text "aten::reshape", inputs := ["x", "sizes"].map .text, outputs := [.text "y"] }]
  values :=
    [(.text "x", {}), (.text "two", { type := .text "float" }),
     (.text "three", { type := .text "int" }), (.text "open", { type := .text "int" }),
     (.text "n", { type := .text "int" }), (.text "sizes", { type := .text "int[]" }),
     (.text "y", {})]
  inputs := [.text "x"]
  outputs := [.text "y"]

namespace Engine

/-- **A floating-point constant counts as the integer one.** No run can tell a graph
from the one in which integers take the place of all floating-point numbers and their
constants are one: it ends with the same result, leaves the same behind and writes the
same to the log. If it succeeds, then all that goes back to a floating-point constant
is an integer, which lists and slices read like any other. -/
theorem run_withOnes (g : Graph) (e : Engine) :
    run g.withOnes e = run g e ∧
      ∀ shapes, (run g e).result = .ok shapes → ∀ name,
        g.FromFloat (run g e).engine.store name →
          ∃ n, lookup? (run g e).engine.store name = some (.scalar n) := by
  refine ⟨g.mirrors_withOnes.run_eq e, fun shapes h name hfloat => ?_⟩
  obtain ⟨hvalid, hwalk, _⟩ := run_eq_ok_iff.mp h
  rw [store_run hvalid] at hfloat ⊢
  obtain ⟨_, _, _, hsolution⟩ := Graph.walked_walk hwalk
  exact hfloat.exists_scalar hsolution.solved

/-- Twice three is taken for three: of six elements, three rows of two are made. -/
theorem run_scaling :
    ¬ ∀ (g : Graph) (e : Engine) (shapes : List Shape), (run g e).result = .ok shapes →
      ¬ g.ReadsFloat (run g e).engine.store := by
  intro hclaim
  let e : Engine := { inputs := [.array [6] .float32] }
  have hrun : (run .scaling e).result = .ok [[3, 2]] := eq_ok_of_toOption (by decide +kernel)
  have hnodes : Node.two ∈ Graph.scaling.nodes ∧ Node.scale ∈ Graph.scaling.nodes ∧
      Node.listSizes ∈ Graph.scaling.nodes := by
    simp [Graph.scaling]
  have hfloat : Graph.scaling.isFloatConstant .two = true := by decide +kernel
  have htwo : Graph.scaling.FromFloat (run .scaling e).engine.store (.text "two") :=
    .constant hnodes.1 hfloat List.mem_cons_self
  have hscalars : ∀ n ∈ Node.scale.inputs.take 2,
      ∃ i, lookup? (run .scaling e).engine.store n = some (.scalar i) := by
    intro n hn
    simp only [Node.scale, List.map_cons, List.map_nil, List.take_succ_cons, List.take_nil,
      List.mem_cons, List.not_mem_nil, or_false] at hn
    rcases hn with rfl | rfl
    · exact ⟨1, by decide +kernel⟩
    · exact ⟨3, by decide +kernel⟩
  have hproduct : Graph.scaling.FromFloat (run .scaling e).engine.store (.text "n") :=
    .folded hnodes.2.1 (Operator.ofTag?_tag .mul) (by simp [Graph.folding]) hscalars
      List.mem_cons_self htwo List.mem_cons_self
  refine hclaim .scaling e [[3, 2]] hrun ⟨.listSizes, hnodes.2.2, .text "n", hproduct, ?_⟩
  exact Or.inl ⟨Operator.ofTag?_tag .listConstruct, List.mem_cons_self⟩

end Engine

end GraphShapes
