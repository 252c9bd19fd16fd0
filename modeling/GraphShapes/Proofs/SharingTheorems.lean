/-
GraphShapes.Proofs.SharingTheorems — constants that reshapes share with other nodes.

A constant that becomes the target of a reshape is a list of integers from then on, for all
nodes of the model. Those that consumed it as a tensor may not take a list
(`not_run_append_reshape`). The reshape disturbs nothing exactly if the constant was a target
before, or no rule looks at it wherever it is an operand (`run_append_reshape`).

A graph is a system of equations, and so it is enough to say what is known with the reshape:
what was, but for the constant, and the result of the reshape. That solves the equations of
the new graph (`solution_turns`), whose names are those of the old one and one more, so that
the walk over it finds just that (`walk_add_reshape`). The other way round, what is known with
the reshape solves the equations of the old graph for the nodes that consume the constant
(`tolerates_of_solved`).

  §1 Reshapes  — what a reshape of a model takes in.
  §2 Solutions — the constant turned and a reshape by it added.
  §3 Walks     — names, validity and the walk of the new graph.
  §4 Models    — models with one more reshape.
  §5 Runs      — what a run knows with the reshape, and when it knows the rest as before.
-/
import GraphShapes.Input
import GraphShapes.Proofs.DefectTheorems
import GraphShapes.Proofs.ReshapeTheorems
import GraphShapes.Proofs.ToleranceTheorems
import GraphShapes.Proofs.TurningTheorems

namespace GraphShapes.Onnx

open Conversion

variable {c d : Conversion} {m : Model} {n : Node} {targets others : List Name}
  {index : Nat} {s name x y : Name} {k : Constant} {t : List Int} {dims out : Shape}

/-! ## §1 Reshapes -/

section Reshapes

variable {g : Graph} {config : Config} {A : Assignment}

/-- Where a graph is solved, a reshape of the model has become a reshape of its first
operand, and its second is a constant list of integers. -/
theorem Model.Converts.exists_reshape (h : m.Converts targets c)
    (hsolved : ∀ node ∈ c.graph.nodes, A.Solves c.graph config node) (hn : n ∈ m.nodes)
    (hop : n.op = .text "Reshape") :
    ∃ (data shape spelled : Name) (ns : List Int), n.givenInputs = [data, shape] ∧
      spelled.key = shape.key ∧
      GraphShapes.Node.fixed spelled (.list (ns.map .int)) ∈ c.graph.nodes ∧
      ∃ node ∈ c.graph.nodes, node.op = .text Operator.reshape.tag ∧
        node.inputs.head? = some data := by
  obtain ⟨c₀, d, i, ps, hbacked, hadd, rfl⟩ := h.exists_addNode hn
  obtain ⟨p, _, rfl, hreshaped, _⟩ := exists_piece_of_addNode hadd
  have hlisted {node : GraphShapes.Node} (hnode : node ∈ p.nodes) :
      node ∈ ((c₀.add p).addAll ps).graph.nodes := by simp [hnode]
  cases hreshaped hop with
  | asIs mem type => exact (not_solves_of_reshape type (hsolved _ (hlisted mem))).elim
  | byTarget given kept mem type first =>
    obtain ⟨spelled, hkey, hfixed⟩ := hbacked _ _ kept
    have hext : c₀.Extends ((c₀.add p).addAll ps) := (Extends.add c₀ p).trans (.addAll _ ps)
    exact ⟨_, _, spelled, _, given, hkey, hext.nodes.subset hfixed, _, hlisted mem, type, first⟩

/-- What is known as a list of integers is not reshaped. -/
theorem same_eq_false_of_reshape {node : GraphShapes.Node} {data : Name}
    (h : A.Solves g config node) (htype : node.op = .text Operator.reshape.tag)
    (hfirst : node.inputs.head? = some data) (hs : A.meta? s = some (.ints t)) :
    s.same data = false := by
  obtain ⟨dims, hdims⟩ := exists_tensor_of_solves h htype hfirst
  exact Assignment.same_eq_false_of_ne hs hdims nofun

/-- A reshape that takes in a constant of integers, though not as its first operand, has it
as its target. -/
theorem Model.Converts.contains_of_reshape (h : m.Converts targets c)
    (hd : Name.Distinct (Graph.trackedNames c.graph.nodes)) (hheld : m.Holds s k)
    (ht : k.integers = .ok t) (hsolved : ∀ node ∈ c.graph.nodes, A.Solves c.graph config node)
    (hn : n ∈ m.nodes) (hop : n.op = .text "Reshape")
    (hdata : ∀ data, n.givenInputs.head? = some data → s.same data = false)
    (hname : name ∈ n.givenInputs) (hsame : s.same name = true) : targets.contains s = true := by
  by_contra hplain
  have hconstant := h.mem_nodes hheld ht
  rw [if_neg hplain] at hconstant
  obtain ⟨data, shape, spelled, ns, hgiven, hkey, hfixed, _⟩ := h.exists_reshape hsolved hn hop
  rw [hgiven] at hdata hname
  simp only [List.mem_cons, List.not_mem_nil, or_false] at hname
  rcases hname with rfl | rfl
  · rw [hdata name rfl] at hsame
    cases hsame
  · have hvalue := eq_of_fixed_mem hd hfixed hconstant (hkey.trans (Name.same_iff.mp hsame).symm)
    cases hvalue

end Reshapes

/-! ## §2 Solutions -/

/-- A reshape of a value by a list of integers. -/
def reshapeNode (x s y : Name) : GraphShapes.Node where
  op := .text Operator.reshape.tag
  inputs := [x, s]
  outputs := [y]

/-- A model with a constant of integers, converted as it is, and with the constant as a
target. -/
structure Sharing (m : Model) (targets others : List Name) (s : Name) (k : Constant)
    (t : List Int) (c d : Conversion) : Prop where
  before : m.Converts targets c
  behind : m.Converts others d
  turns : c.Turns targets s t d
  target : others.contains s = true
  held : m.Holds s k
  items : k.items = t.map .int

/-- The types of values are the same with one more node. -/
theorem valueType_add_node (c : Conversion) (node : GraphShapes.Node) (name : Name) :
    (c.add (.node node)).graph.valueType name = c.graph.valueType name := by
  rw [Graph.valueType, value?_add, Graph.valueType]
  cases c.graph.value? name with
  | some v => rfl
  | none =>
    rw [Piece.declared, lookup?_nil, Option.none_or, Option.none_or]
    cases name.isAmong (Piece.node node).emitted <;> rfl

namespace Sharing

variable {config : Config} {A B : Assignment} {node : GraphShapes.Node}

theorem integers (h : Sharing m targets others s k t c d) : k.integers = .ok t :=
  Constant.integers_of_items h.items

/-- The constant is tracked. -/
theorem isAmong_tracked (h : Sharing m targets others s k t c d) :
    s.isAmong (Graph.trackedNames c.graph.nodes) = true := by
  rw [Graph.trackedNames, Name.isAmong_flatMap]
  exact ⟨_, h.before.mem_nodes h.held h.integers, Name.isAmong_of_mem List.mem_cons_self⟩

theorem isAmong_bound (h : Sharing m targets others s k t c d) :
    s.isAmong (c.graph.inputs ++ Graph.trackedNames c.graph.nodes) = true :=
  Name.isAmong_append.mpr (Or.inr h.isAmong_tracked)

/-- The names that are bound are the same. -/
theorem bound_eq (h : Sharing m targets others s k t c d) :
    d.graph.inputs ++ Graph.trackedNames d.graph.nodes
      = c.graph.inputs ++ Graph.trackedNames c.graph.nodes := by
  rw [h.turns.inputs, trackedNames_turns h.turns.nodes]

/-- The node of the constant. -/
theorem mem_nodes (h : Sharing m targets others s k t c d) :
    GraphShapes.Node.fixed s (.list (t.map .int)) ∈ d.graph.nodes := by
  have hconstant := h.behind.mem_nodes h.held h.integers
  rwa [if_pos h.target] at hconstant

/-- The constant is declared as a list of integers. -/
theorem valueType (h : Sharing m targets others s k t c d)
    (hd : Name.Distinct (c.graph.inputs ++ Graph.trackedNames c.graph.nodes)) :
    d.graph.valueType s = .text "int[]" := by
  rw [← h.bound_eq] at hd
  rw [h.behind.valueType hd h.held h.integers, if_pos h.target]

/-- The equation of a node that does not track the constant is the same in both graphs, if
what is bound is known as the same. -/
theorem solves_iff (h : Sharing m targets others s k t c d) (r : GraphShapes.Node)
    (ho : Graph.Ordered c.graph.inputs c.graph.nodes) (hnode : node ∈ c.graph.nodes)
    (hfree : s.isAmong node.tracked = false)
    (hknown : ∀ name, name.isAmong (c.graph.inputs ++ Graph.trackedNames c.graph.nodes) = true →
      B.meta? name = A.meta? name) :
    B.Solves (d.add (.node r)).graph config node ↔ A.Solves c.graph config node := by
  have hnames (name : Name) (hname : name ∈ node.inputs ++ node.tracked) :
      B.meta? name = A.meta? name := hknown name (Graph.isAmong_of_mem_node ho hnode hname)
  have htypes (name : Name) (hname : name ∈ node.tracked) :
      (d.add (.node r)).graph.valueType name = c.graph.valueType name := by
    have hother : s.same name = false := Name.same_eq_false hfree (Name.isAmong_of_mem hname)
    rw [valueType_add_node, Graph.valueType, Graph.valueType,
      h.turns.agrees.values name fun hsame => absurd hsame (hother ▸ Bool.false_ne_true)]
  exact ⟨fun hB => hB.congr (fun name hname => (hnames name hname).symm)
    fun name hname => (htypes name hname).symm, fun hA => hA.congr hnames htypes⟩

end Sharing

/-- The equation of the reshape. -/
theorem solves_reshapeNode {g : Graph} {config : Config} {A : Assignment}
    (hx : A.meta? x = some (.tensor dims)) (hs : A.meta? s = some (.ints t))
    (hy : A.meta? y = some (.tensor out)) (hreshape : Shape.reshape dims t = .ok out) :
    A.Solves g config (reshapeNode x s y) := by
  refine ⟨[.tensor out], ⟨.reshape, [.tensor dims, .ints t], Operator.ofTag?_tag _, ?_, ?_⟩, ?_⟩
  · simp [reshapeNode, hx, hs]
  · simp only [Rule.apply, Rule.reshaped, bind_eq_ok_iff, pure_eq_ok_iff, Rule.tensor_eq_ok_iff,
      Rule.integers_eq_ok_iff, Rule.shaped_eq_ok_iff]
    exact ⟨dims, rfl, t, rfl, out, hreshape, rfl⟩
  · exact congrArg (fun m => [m]) hy

namespace Sharing

variable {config : Config} {A B : Assignment} {inputs : List Datum}

/-- The inputs are known as before when the constant and a new name are known as anything. -/
theorem map_inputs_set (h : Sharing m targets others s k t c d)
    (hd : Name.Distinct (c.graph.inputs ++ Graph.trackedNames c.graph.nodes))
    (hy : y.isAmong (c.graph.inputs ++ Graph.trackedNames c.graph.nodes) = false) (a b : Meta) :
    c.graph.inputs.map ((A.set s a).set y b).meta? = c.graph.inputs.map A.meta? := by
  have hyin : y.isAmong c.graph.inputs = false := by
    rw [← Bool.not_eq_true] at hy ⊢
    exact fun hin => hy (Name.isAmong_append.mpr (Or.inl hin))
  -- The constant is tracked by its node, and no input.
  have hsin : s.isAmong c.graph.inputs = false := by
    rw [← Bool.not_eq_true]
    intro hin
    have hs := h.isAmong_tracked
    rw [hd.not_isAmong hin] at hs
    cases hs
  rw [Assignment.map_meta?_set hyin, Assignment.map_meta?_set hsin]

/-- The nodes that were there, where the constant has turned, are solved when it is known as
its integers, and a new name as anything. -/
theorem solves_of_mem (h : Sharing m targets others s k t c d) (r : GraphShapes.Node)
    (hd : Name.Distinct (c.graph.inputs ++ Graph.trackedNames c.graph.nodes))
    (ho : Graph.Ordered c.graph.inputs c.graph.nodes)
    (hsolved : ∀ node ∈ c.graph.nodes, A.Solves c.graph config node)
    (huse : c.graph.Tolerates config A s t)
    (hy : y.isAmong (c.graph.inputs ++ Graph.trackedNames c.graph.nodes) = false) (a : Meta)
    {node : GraphShapes.Node} (hnode : node ∈ d.graph.nodes) :
    ((A.set s (.ints t)).set y a).Solves (d.add (.node r)).graph config node := by
  cases hown : s.isAmong node.tracked with
  | true =>
    have hd' : Name.Distinct (Graph.trackedNames d.graph.nodes) := by
      rw [← h.bound_eq, Name.distinct_append] at hd
      exact hd.2.1
    cases Graph.eq_of_isAmong_tracked hd' hnode h.mem_nodes hown (Node.isAmong_tracked_fixed s _)
    rw [solves_integers_iff ((valueType_add_node ..).trans (h.valueType hd)),
      Assignment.meta?_set_of_ne (Name.same_eq_false hy h.isAmong_bound),
      Assignment.meta?_set_self (Name.same_iff.mpr rfl)]
  | false =>
    have hbefore := mem_of_turns h.turns.nodes hnode hown
    refine (h.solves_iff r ho hbefore hown fun name hname => ?_).mpr
      (huse.solves hsolved hbefore hown)
    exact Assignment.meta?_set_of_ne (Name.same_eq_false hy hname)

/-- **Solutions.** Let the graph of a conversion have a solution in which the nodes that
consume a constant tolerate its integers. Where the constant has turned and a reshape by it
is added, the constant is known as its integers, and what the reshape outputs as its result;
all else is known as before. -/
theorem solution_turns (h : Sharing m targets others s k t c d)
    (hd : Name.Distinct (c.graph.inputs ++ Graph.trackedNames c.graph.nodes))
    (ho : Graph.Ordered c.graph.inputs c.graph.nodes) (hA : A.Solution c.graph config inputs)
    (huse : c.graph.Tolerates config A s t) (hx : A.meta? x = some (.tensor dims))
    (hother : s.same x = false) (hxy : y.same x = false)
    (hreshape : Shape.reshape dims t = .ok out)
    (hy : y.isAmong (c.graph.inputs ++ Graph.trackedNames c.graph.nodes) = false) :
    ((A.set s (.ints t)).set y (.tensor out)).Solution (d.add (.node (reshapeNode x s y))).graph
      config inputs := by
  constructor
  · obtain ⟨metas, hmetas, hnames⟩ := hA.bound
    refine ⟨metas, hmetas, ?_⟩
    rw [inputs_add, h.turns.inputs, h.map_inputs_set hd hy, hnames]
  · intro node hnode
    rw [nodes_add, Piece.nodes, List.mem_append, List.mem_singleton] at hnode
    rcases hnode with hold | rfl
    · exact h.solves_of_mem _ hd ho hA.solved huse hy _ hold
    · have hys : y.same s = false := Name.same_eq_false hy h.isAmong_bound
      refine solves_reshapeNode ?_ ?_ ?_ hreshape
      · rw [Assignment.meta?_set_of_ne hxy, Assignment.meta?_set_of_ne hother, hx]
      · rw [Assignment.meta?_set_of_ne hys, Assignment.meta?_set_self (Name.same_iff.mpr rfl)]
      · exact Assignment.meta?_set_self (Name.same_iff.mpr rfl)

/-- **Tolerance.** What solves the equations of the graph with the reshape, and knows the
other names as they were known, shows that the constant is tolerated. -/
theorem tolerates_of_solved (h : Sharing m targets others s k t c d) (r : GraphShapes.Node)
    (hd : Name.Distinct (c.graph.inputs ++ Graph.trackedNames c.graph.nodes))
    (ho : Graph.Ordered c.graph.inputs c.graph.nodes)
    (hB : ∀ node ∈ (d.add (.node r)).graph.nodes, B.Solves (d.add (.node r)).graph config node)
    (hkept : ∀ name, name.isAmong (c.graph.inputs ++ Graph.trackedNames c.graph.nodes) = true →
      s.same name = false → B.meta? name = A.meta? name) :
    c.graph.Tolerates config A s t := by
  intro node hnode hin
  have hlisted : node ∈ (d.add (.node r)).graph.nodes := by
    rw [nodes_add]
    exact List.mem_append_left _ (mem_of_turns_of_inputs h.turns.nodes hnode hin)
  have hs : B.meta? s = some (.ints t) := by
    refine (solves_integers_iff ((valueType_add_node ..).trans (h.valueType hd))).mp (hB _ ?_)
    rw [nodes_add]
    exact List.mem_append_left _ h.mem_nodes
  refine (h.solves_iff r ho hnode (Graph.not_isAmong_tracked_of_inputs hd ho hnode hin)
    fun name hname => ?_).mp (hB node hlisted)
  cases hsame : s.same name with
  | true => rw [Assignment.meta?_set_self hsame, ← B.congr hsame, hs]
  | false => rw [Assignment.meta?_set_of_ne hsame, hkept name hname hsame]

end Sharing

/-! ## §3 Walks -/

/-- In a graph that makes sense, what is bound is declared, however it is spelled. -/
theorem declares_of_wellFormed {g : Graph} (h : g.WellFormed)
    (hname : name.isAmong (g.inputs ++ Graph.trackedNames g.nodes) = true) :
    g.declares name = true := by
  rw [Name.isAmong_iff, List.mem_map] at hname
  obtain ⟨spelled, hspelled, hkey⟩ := hname
  rw [← Graph.declares_congr hkey]
  rcases List.mem_append.mp hspelled with hinput | htracked
  · exact h.ends spelled (List.mem_append_left _ hinput)
  · obtain ⟨node, hnode, hout⟩ := List.mem_flatMap.mp htracked
    exact h.nodes node hnode spelled (List.mem_append_right _ (node.tracked_sublist.subset hout))

/-- The names in scope are distinct if the inputs are. -/
theorem distinct_scope_of_wellFormed {g : Graph} (h : g.WellFormed)
    (hd : Name.Distinct g.inputs) : Name.Distinct g.scope := by
  refine Name.distinct_append.mpr ⟨hd, h.distinct, fun name hname => ?_⟩
  rw [← Name.isAmong_iff, h.free name hname]
  exact Bool.false_ne_true

namespace Sharing

/-- The names that are bound with the reshape. -/
theorem bound_add_reshape (h : Sharing m targets others s k t c d) (x y : Name) :
    (d.add (.node (reshapeNode x s y))).graph.inputs ++
        Graph.trackedNames (d.add (.node (reshapeNode x s y))).graph.nodes
      = c.graph.inputs ++ Graph.trackedNames c.graph.nodes ++ [y] := by
  have hlast : Graph.trackedNames [reshapeNode x s y] = [y] := rfl
  rw [inputs_add, nodes_add, Piece.nodes, Graph.trackedNames_append, ← List.append_assoc,
    h.bound_eq, hlast]

/-- The nodes are still in order. -/
theorem ordered_add_reshape (h : Sharing m targets others s k t c d)
    (ho : Graph.Ordered c.graph.inputs c.graph.nodes)
    (hx : x.isAmong (c.graph.inputs ++ Graph.trackedNames c.graph.nodes) = true) (y : Name) :
    Graph.Ordered (d.add (.node (reshapeNode x s y))).graph.inputs
      (d.add (.node (reshapeNode x s y))).graph.nodes := by
  rw [inputs_add, nodes_add, Piece.nodes, Graph.ordered_append, h.bound_eq, h.turns.inputs]
  refine ⟨ordered_turns h.turns.nodes ho, ?_, trivial⟩
  rw [reshapeNode, List.forall_mem_cons, List.forall_mem_singleton]
  exact ⟨hx, h.isAmong_bound⟩

/-- The graph is still valid. -/
theorem validate_add_reshape (h : Sharing m targets others s k t c d)
    (hvalid : c.graph.validate = .ok ())
    (hd : Name.Distinct (c.graph.inputs ++ Graph.trackedNames c.graph.nodes))
    (ho : Graph.Ordered c.graph.inputs c.graph.nodes)
    (hx : x.isAmong (c.graph.inputs ++ Graph.trackedNames c.graph.nodes) = true)
    (hy : y.isAmong c.graph.scope = false) :
    (d.add (.node (reshapeNode x s y))).graph.validate = .ok () := by
  have hformed := Graph.validate_eq_ok_iff_wellFormed.mp hvalid
  have houtputs : Graph.allOutputs (d.add (.node (reshapeNode x s y))).graph.nodes
      = Graph.allOutputs c.graph.nodes ++ [y] := by
    rw [nodes_add, Graph.allOutputs, List.flatMap_append]
    exact congrArg (· ++ [y]) (allOutputs_turns h.turns.nodes)
  have hdeclared (name : Name) : (d.add (.node (reshapeNode x s y))).graph.declares name
      = (c.graph.declares name || name.isAmong [y]) := by
    rw [declares_add, h.turns.agrees.declares]
    rfl
  refine Graph.validate_of_ordered ?_ (h.ordered_add_reshape ho hx y) ?_ ?_
  · rw [houtputs, inputs_add, h.turns.inputs, ← List.append_assoc]
    exact (distinct_scope_of_wellFormed hformed (Name.distinct_append.mp hd).1).concat hy
  · intro node hnode name hname
    rw [hdeclared]
    rw [nodes_add, Piece.nodes, List.mem_append, List.mem_singleton] at hnode
    rcases hnode with hold | rfl
    · obtain ⟨before, hbefore, hturn⟩ := exists_of_forall₂_of_mem h.turns.nodes hold
      rw [hturn.names.1, hturn.names.2.1] at hname
      rw [hformed.nodes before hbefore name hname, Bool.true_or]
    · simp only [reshapeNode, List.cons_append, List.nil_append, List.mem_cons, List.not_mem_nil,
        or_false] at hname
      rcases hname with rfl | rfl | rfl
      · rw [declares_of_wellFormed hformed hx, Bool.true_or]
      · rw [declares_of_wellFormed hformed h.isAmong_bound, Bool.true_or]
      · rw [Name.isAmong_of_mem List.mem_cons_self, Bool.or_true]
  · intro name hname
    rw [inputs_add, outputs_add, h.turns.inputs, h.turns.outputs] at hname
    rw [hdeclared, hformed.ends name hname, Bool.true_or]

/-- **Walks.** Over the graph in which the constant has turned and a reshape by it is added,
a walk goes through as well, and finds the same but for the two names. -/
theorem walk_add_reshape {config : Config} {inputs : List Datum}
    (h : Sharing m targets others s k t c d) (hwalk : (c.graph.walk config inputs).fault = none)
    (huse : c.graph.Tolerates config (c.graph.walk config inputs).store.assignment s t)
    (hx : lookup? (c.graph.walk config inputs).store x = some (.tensor dims))
    (hother : s.same x = false) (hreshape : Shape.reshape dims t = .ok out)
    (htext : (Meta.tensor out).isWritable = true)
    (hy : y.isAmong (c.graph.inputs ++ Graph.trackedNames c.graph.nodes) = false) :
    let g' := (d.add (.node (reshapeNode x s y))).graph
    (g'.walk config inputs).fault = none ∧
      (g'.walk config inputs).store.names
        = c.graph.inputs ++ Graph.trackedNames c.graph.nodes ++ [y] ∧
      ∀ name, lookup? (g'.walk config inputs).store name
        = if y.same name then some (.tensor out)
          else if s.same name then some (.ints t)
          else lookup? (c.graph.walk config inputs).store name := by
  dsimp only
  obtain ⟨hstore, hnames, ho, hsolution⟩ := Graph.walked_walk hwalk
  generalize (c.graph.walk config inputs).store = store at *
  have hd : Name.Distinct (c.graph.inputs ++ Graph.trackedNames c.graph.nodes) :=
    hnames ▸ hstore.distinct
  have hxin : x.isAmong (c.graph.inputs ++ Graph.trackedNames c.graph.nodes) = true := by
    rw [← hnames]
    exact exists_lookup?_iff.mp ⟨_, hx⟩
  have hsol := h.solution_turns hd ho hsolution huse hx hother (Name.same_eq_false hy hxin)
    hreshape hy
  -- The two names are known as what has a text, and all else as before.
  have htexts : ∀ name value, ((store.assignment.set s (.ints t)).set y (.tensor out)).meta? name
      = some value → value.isWritable = true := by
    refine Assignment.forall_set (Assignment.forall_set (fun name value hvalue => ?_)
      (h.held.isWritable h.items)) htext
    obtain ⟨spelled, hentry, _⟩ := exists_of_lookup? hvalue
    exact hstore.writable _ hentry
  have hfault : ((d.add (.node (reshapeNode x s y))).graph.walk config inputs).fault = none := by
    refine Graph.fault_walk_eq_none ?_ (h.ordered_add_reshape ho hxin y) hsol
      fun name _ value hvalue => htexts name value hvalue
    rw [h.bound_add_reshape]
    exact hd.concat hy
  refine ⟨hfault, (Graph.walked_walk hfault).2.1.trans (h.bound_add_reshape x y), ?_⟩
  refine Graph.lookup?_walk_eq hfault hsol fun name hname => ?_
  rw [h.bound_add_reshape, ← Bool.not_eq_true, Name.isAmong_append, not_or, Bool.not_eq_true,
    Bool.not_eq_true] at hname
  have hyname : y.same name = false := by
    rw [Name.same_comm]
    exact Name.same_eq_false hname.2 (Name.isAmong_of_mem List.mem_cons_self)
  have hsname : s.same name = false := by
    rw [Name.same_comm]
    exact Name.same_eq_false hname.1 h.isAmong_bound
  rw [Assignment.meta?_set_of_ne hyname, Assignment.meta?_set_of_ne hsname, Store.meta?_assignment]
  exact Store.lookup?_eq_none_of_names (hnames.symm ▸ hname.1)

end Sharing

/-! ## §4 Models -/

/-- A node that reshapes a value by a target. -/
structure Node.IsReshape (r : Node) (x s y : Name) : Prop where
  reshape : r.op = .text "Reshape"
  inputs : r.inputs = [x, s]
  outputs : r.outputs = [y]
  given : ∀ name ∈ [x, s], isLeftOut name = false
  readable : ∃ settings, r.settings = .ok settings

/-- The model with one more node at the end. -/
def Model.append (m : Model) (r : Node) : Model := { m with nodes := m.nodes ++ [r] }

section Append

variable {r : Node}

/-- What the model holds it still does. -/
theorem Model.Holds.append (h : m.Holds s k) (r : Node) : (m.append r).Holds s k := by
  cases h with
  | initializer read mem => exact .initializer read mem
  | node mem literal first held => exact .node (List.mem_append_left _ mem) literal first held

theorem adds_append (hr : r.IsReshape x s y) : Adds m.targets (m.append r).targets s := by
  intro name
  have hlast : [r].filterMap (fun n => if n.op == .text "Reshape" then n.inputs[1]? else none)
      = [s] := by simp [hr.reshape, hr.inputs]
  have htargets : (m.append r).targets = m.targets ++ [s] := by
    rw [Model.targets, Model.append, List.filterMap_append, hlast, Model.targets]
  rw [htargets, List.contains_append, List.contains_cons, List.contains_nil, Bool.or_false]

/-- The node is added by the target that is kept for it. -/
theorem addNode_of_isReshape (hr : r.IsReshape x s y) (hkept : lookup? d.targets s = some t)
    (hzero : 0 ∉ t) : d.addNode others index r = .ok (d.add (.node (reshapeNode x s y))) := by
  obtain ⟨settings, hsettings⟩ := hr.readable
  have hgiven : r.givenInputs = [x, s] := by
    rw [Node.givenInputs, hr.inputs, List.filter_eq_self]
    intro name hname
    rw [hr.given name hname]
    rfl
  have hcopies : t.contains 0 = false := by
    rw [← Bool.not_eq_true, List.contains_iff_mem]
    exact hzero
  rw [addNode_of_reshape d others index hr.reshape hsettings, addAnyReshape, hgiven]
  dsimp only
  rw [hkept]
  dsimp only
  rw [addReshape, hcopies, hr.outputs]
  rfl

theorem addNodes_concat (c : Conversion) (ns : List Node) (r : Node) :
    addNodes targets c index (ns ++ [r])
      = addNodes targets c index ns >>= fun d => d.addNode targets (index + ns.length) r := by
  induction ns generalizing c index with
  | nil =>
    cases hlast : c.addNode targets index r <;> simp [addNodes, hlast]
  | cons n ns ih =>
    have hindex : index + (ns.length + 1) = index + 1 + ns.length := by omega
    cases hfirst : c.addNode targets index n <;> simp [addNodes, hfirst, ih, hindex]

/-- A model with one more node is converted as the model is, and then the node. -/
theorem Model.Converts.append {d' : Conversion} (h : m.Converts targets d)
    (hlast : ∀ index, d.addNode targets index r = .ok d') : (m.append r).Converts targets d' := by
  obtain @⟨constants, front, hconstants, hfront, hnodes⟩ := h
  refine ⟨hconstants, hfront, ?_⟩
  change addNodes targets (((start m).addAll front).declareModel m (constants.map (·.1))) 0
    (m.nodes ++ [r]) = .ok d'
  rw [addNodes_concat, hnodes, ok_bind, hlast]

/-- With one more reshape a model is converted as the model is with the constant as a target,
and then the reshape, if no other reshape takes in the constant unless it is a target. -/
theorem exists_sharing (h : m.Converts m.targets c)
    (hd : Name.Distinct (Graph.trackedNames c.graph.nodes)) (hr : r.IsReshape x s y)
    (hheld : m.Holds s k) (ht : k.items = t.map .int) (hzero : 0 ∉ t)
    (hfree : m.Reserves m.targets s) :
    ∃ d, Sharing m m.targets (m.append r).targets s k t c d ∧
      (m.append r).Converts (m.append r).targets (d.add (.node (reshapeNode x s y))) := by
  have hints := Constant.integers_of_items ht
  have hadds : Adds m.targets (m.append r).targets s := adds_append hr
  obtain ⟨d, hconverts, hturns⟩ := exists_converts h hadds (h.owns hd hheld hints) hfree
  have hmem : (m.append r).targets.contains s = true := by
    rw [hadds, beq_self_eq_true, Bool.or_true]
  have hkept : lookup? d.targets s = some t := by
    refine hconverts.lookup?_targets ?_ hheld hints hmem
    rwa [trackedNames_turns hturns.nodes]
  exact ⟨d, ⟨h, hconverts, hturns, hmem, hheld, ht⟩,
    hconverts.append fun index => addNode_of_isReshape hr hkept hzero⟩

end Append

/-! ## §5 Runs -/

section Use

variable {config : Config} {A B : Assignment} {r : Node}

/-- In either use of the constant, the value is another one and the integers are tolerated. -/
theorem tolerates_of_use (h : m.Converts targets c)
    (hd : Name.Distinct (c.graph.inputs ++ Graph.trackedNames c.graph.nodes))
    (ho : Graph.Ordered c.graph.inputs c.graph.nodes) (hheld : m.Holds s k)
    (ht : k.integers = .ok t) (hsolved : ∀ node ∈ c.graph.nodes, A.Solves c.graph config node)
    (hx : A.meta? x = some (.tensor dims))
    (huse : s ∈ targets ∨ s.same x = false ∧ c.graph.Unread A s) :
    s.same x = false ∧ c.graph.Tolerates config A s t := by
  rcases huse with hmem | ⟨hother, hunread⟩
  · rw [← List.contains_iff_mem] at hmem
    have hs := h.meta?_of_target hd hheld ht hmem hsolved
    exact ⟨Assignment.same_eq_false_of_ne hs hx nofun, Graph.tolerates_of_meta? hs hsolved⟩
  · exact ⟨hother, hunread.tolerates hsolved
      (fun _ hnode hin => Graph.not_isAmong_tracked_of_inputs hd ho hnode hin) t⟩

/-- Where the integers are tolerated, no reshape takes in the constant unless it is a target. -/
theorem reserves_of_tolerates (h : m.Converts targets c)
    (hd : Name.Distinct (Graph.trackedNames c.graph.nodes)) (hheld : m.Holds s k)
    (ht : k.integers = .ok t) (hsolved : ∀ node ∈ c.graph.nodes, A.Solves c.graph config node)
    (huse : c.graph.Tolerates config A s t) : m.Reserves targets s := by
  intro n hn hop name hname hsame
  refine h.contains_of_reshape hd hheld ht hsolved hn hop (fun data hdata => ?_) hname hsame
  obtain ⟨_, _, _, _, hgiven, _, _, node, hnode, htype, hfirst⟩ := h.exists_reshape hsolved hn hop
  rw [hgiven] at hdata
  cases hdata
  rw [← Bool.not_eq_true]
  intro hconsumed
  have hin : s.isAmong node.inputs = true := by
    rw [Name.isAmong_congr (Name.same_iff.mp hconsumed)]
    exact Name.isAmong_of_mem (List.mem_of_mem_head? hfirst)
  rw [same_eq_false_of_reshape (huse node hnode hin) htype hfirst
    (Assignment.meta?_set_self (Name.same_iff.mpr rfl))] at hconsumed
  cases hconsumed

/-- The same where the graph of the model with one more node is solved, and the constant is
known as a list of integers there. -/
theorem reserves_of_append {c' : Conversion} (h : m.Converts targets c)
    (hd : Name.Distinct (Graph.trackedNames c.graph.nodes)) (hheld : m.Holds s k)
    (ht : k.integers = .ok t) (hsolved : ∀ node ∈ c.graph.nodes, A.Solves c.graph config node)
    (h' : (m.append r).Converts others c')
    (hsolved' : ∀ node ∈ c'.graph.nodes, B.Solves c'.graph config node)
    (hs : B.meta? s = some (.ints t)) : m.Reserves targets s := by
  intro n hn hop name hname hsame
  refine h.contains_of_reshape hd hheld ht hsolved hn hop (fun data hdata => ?_) hname hsame
  obtain ⟨_, _, _, _, hgiven, _, _, node, hnode, htype, hfirst⟩ :=
    h'.exists_reshape hsolved' (List.mem_append_left _ hn) hop
  rw [hgiven] at hdata
  cases hdata
  exact same_eq_false_of_reshape (hsolved' node hnode) htype hfirst hs

end Use

section Runs

variable {g : Graph} {validate : Bool} {e : Engine} {shapes : List Shape} {r : Node}

/-- What a run over the graph of a model has gone through. -/
theorem exists_converts_of_run (h : m.toGraph validate = .ok g)
    (hrun : (Engine.run g e).result = .ok shapes) :
    ∃ c, m.Converts m.targets c ∧ g = c.graph ∧
      Name.Distinct (g.inputs ++ Graph.trackedNames g.nodes) ∧ Graph.Ordered g.inputs g.nodes ∧
      (Engine.run g e).engine.store.assignment.Solution g e.config e.inputs := by
  obtain ⟨c, hconverts, rfl⟩ := convert_eq_ok_iff.mp (toGraph_eq_ok_iff.mp h).1
  obtain ⟨hvalid, hwalk, _⟩ := Engine.run_eq_ok_iff.mp hrun
  obtain ⟨hstore, hnames, hordered, hsolution⟩ := Graph.walked_walk hwalk
  rw [Engine.store_run hvalid]
  exact ⟨c, hconverts, rfl, hnames ▸ hstore.distinct, hordered, hsolution⟩

/-- What is not in scope is not bound. -/
theorem not_isAmong_bound_of_scope (h : y.isAmong g.scope = false) :
    y.isAmong (g.inputs ++ Graph.trackedNames g.nodes) = false := by
  rw [← Bool.not_eq_true] at h ⊢
  exact fun hin => h (Name.isAmong_of_subset
    ((Graph.trackedNames_sublist g.nodes).append_left g.inputs).subset hin)

/-- A use of the constant that tolerates its integers: the model with the reshape runs, and
the constant is known as its integers, the new name as the result of the reshape, and every
other name as before. -/
theorem exists_run_append (h : m.toGraph validate = .ok g)
    (hrun : (Engine.run g e).result = .ok shapes) (hr : r.IsReshape x s y)
    (hheld : m.Holds s k) (ht : k.items = t.map .int) (hzero : 0 ∉ t)
    (hx : lookup? (Engine.run g e).engine.store x = some (.tensor dims))
    (hreshape : Shape.reshape dims t = .ok out) (htext : (Meta.tensor out).isWritable = true)
    (hy : y.isAmong g.scope = false)
    (huse : s ∈ m.targets ∨
      s.same x = false ∧ g.Unread (Engine.run g e).engine.store.assignment s) :
    ∃ g' shapes', (m.append r).toGraph validate = .ok g' ∧
      (Engine.run g' e).result = .ok shapes' ∧
      ∀ name, lookup? (Engine.run g' e).engine.store name
        = if y.same name then some (.tensor out)
          else if s.same name then some (.ints t)
          else lookup? (Engine.run g e).engine.store name := by
  obtain ⟨c, hconverts, rfl, hd, ho, hsolution⟩ := exists_converts_of_run h hrun
  obtain ⟨hvalid, hwalk, hshapes⟩ := Engine.run_eq_ok_iff.mp hrun
  have hints := Constant.integers_of_items ht
  obtain ⟨hother, htolerates⟩ :=
    tolerates_of_use hconverts hd ho hheld hints hsolution.solved hx huse
  have hdtracked := (Name.distinct_append.mp hd).2.1
  obtain ⟨d, hsharing, hconverts'⟩ := exists_sharing hconverts hdtracked hr hheld ht hzero
    (reserves_of_tolerates hconverts hdtracked hheld hints hsolution.solved htolerates)
  rw [Engine.store_run hvalid] at hx htolerates
  have hnames := (Graph.walked_walk hwalk).2.1
  have hxin : x.isAmong (c.graph.inputs ++ Graph.trackedNames c.graph.nodes) = true := by
    rw [← hnames]
    exact exists_lookup?_iff.mp ⟨_, hx⟩
  have hvalidity (hc : c.graph.validate = .ok ()) :
      (d.add (.node (reshapeNode x s y))).graph.validate = .ok () :=
    hsharing.validate_add_reshape hc hd ho hxin hy
  have hvalid' (hflag : e.config.validateGraph = true) := hvalidity (hvalid hflag)
  obtain ⟨hwalk', hnames', hlookup⟩ := hsharing.walk_add_reshape hwalk htolerates hx hother
    hreshape htext (not_isAmong_bound_of_scope hy)
  -- The graph outputs are known, as they were.
  have houtputs : ∀ name ∈ (d.add (.node (reshapeNode x s y))).graph.outputs, name.isAmong
      ((d.add (.node (reshapeNode x s y))).graph.walk e.config e.inputs).store.names = true := by
    intro name hname
    rw [outputs_add, hsharing.turns.outputs] at hname
    rw [hnames', Name.isAmong_append, ← hnames]
    exact Or.inl (Graph.isAmong_of_outputShapes hshapes name hname)
  obtain ⟨shapes', hshapes'⟩ := Graph.exists_outputShapes houtputs
  refine ⟨_, shapes', toGraph_eq_ok_iff.mpr ⟨convert_eq_ok_iff.mpr ⟨_, hconverts', rfl⟩,
    fun hflag => hvalidity ((toGraph_eq_ok_iff.mp h).2 hflag)⟩,
    Engine.run_eq_ok_iff.mpr ⟨hvalid', hwalk', hshapes'⟩, fun name => ?_⟩
  rw [Engine.store_run hvalid', Engine.store_run hvalid, hlookup]

/-- A use of the constant where the model with the reshape runs, and knows the other names
as before. -/
theorem use_of_run_append {g' : Graph} {shapes' : List Shape} (h : m.toGraph validate = .ok g)
    (hrun : (Engine.run g e).result = .ok shapes) (hr : r.IsReshape x s y)
    (hheld : m.Holds s k) (ht : k.items = t.map .int) (hzero : 0 ∉ t)
    (hy : y.isAmong g.scope = false) (h' : (m.append r).toGraph validate = .ok g')
    (hrun' : (Engine.run g' e).result = .ok shapes')
    (hkept : ∀ name, s.same name = false → y.same name = false →
      lookup? (Engine.run g' e).engine.store name = lookup? (Engine.run g e).engine.store name) :
    s ∈ m.targets ∨
      s.same x = false ∧ g.Unread (Engine.run g e).engine.store.assignment s := by
  by_cases hmem : m.targets.contains s = true
  · exact Or.inl (List.contains_iff_mem.mp hmem)
  right
  obtain ⟨c, hconverts, rfl, hd, ho, hsolution⟩ := exists_converts_of_run h hrun
  obtain ⟨c', hconverts', rfl, hd', _, hsolution'⟩ := exists_converts_of_run h' hrun'
  generalize (Engine.run c.graph e).engine.store = store at *
  generalize (Engine.run c'.graph e).engine.store = store' at *
  have hints := Constant.integers_of_items ht
  have hmem' : (m.append r).targets.contains s = true := by
    rw [adds_append hr, beq_self_eq_true, Bool.or_true]
  have hs' : store'.assignment.meta? s = some (.ints t) :=
    hconverts'.meta?_of_target hd' (hheld.append r) hints hmem' hsolution'.solved
  have hdtracked := (Name.distinct_append.mp hd).2.1
  obtain ⟨d, hsharing, happend⟩ := exists_sharing hconverts hdtracked hr hheld ht hzero
    (reserves_of_append hconverts hdtracked hheld hints hsolution.solved hconverts'
      hsolution'.solved hs')
  -- The model has one graph.
  have hgraph : c'.graph = (d.add (.node (reshapeNode x s y))).graph :=
    Except.ok.inj ((convert_eq_ok_iff.mpr ⟨c', hconverts', rfl⟩).symm.trans
      (convert_eq_ok_iff.mpr ⟨_, happend, rfl⟩))
  have hsolved' := hsolution'.solved
  rw [hgraph] at hsolved'
  have hreshape := hsolved' (reshapeNode x s y) (by simp [Piece.nodes])
  refine ⟨same_eq_false_of_reshape hreshape rfl rfl hs', ?_⟩
  obtain ⟨sizes, hs⟩ := hconverts.exists_tensor_of_not_target hd hheld hints hmem hsolution.solved
  have hfree (node : GraphShapes.Node) (hnode : node ∈ c.graph.nodes)
      (hin : s.isAmong node.inputs = true) : s.isAmong node.tracked = false :=
    Graph.not_isAmong_tracked_of_inputs hd ho hnode hin
  rw [← Graph.tolerates_iff_unread hs hsolution.solved hfree]
  refine hsharing.tolerates_of_solved _ hd ho hsolved' fun name hname hother => ?_
  exact hkept name hother (Name.same_eq_false (not_isAmong_bound_of_scope hy) hname)

end Runs

/-- A sum, in a model with a table and a constant of two integers. -/
def Model.adding (operands : List String) : Model where
  initializers := [(.text "s", { sizes := [2], type := 7, longs := [3, 2] })]
  inputs := [⟨.text "a", some [some 2]⟩, ⟨.text "x", some [some 2, some 3]⟩]
  outputs := [⟨.text "b", none⟩]
  nodes :=
    [{ op := .text "Add", name := .text "", inputs := operands.map .text,
       outputs := [.text "b"], attributes := [] }]

/-- A reshape of the table by the constant. -/
def Node.turning : Node where
  op := .text "Reshape"
  name := .text ""
  inputs := ["x", "s"].map .text
  outputs := [.text "y"]
  attributes := []

/-- The inputs that the model declares. -/
def addingEngine : Engine where
  inputs := [.placeholder [.int 2], .placeholder [.int 2, .int 3]]

theorem isReshape_turning : Node.turning.IsReshape (.text "x") (.text "s") (.text "y") :=
  ⟨rfl, rfl, rfl, by decide, [], rfl⟩

theorem holds_adding (operands : List String) :
    (Model.adding operands).Holds (.text "s") ⟨[2], Element.int64, [.int 3, .int 2]⟩ := by
  have hread : (Model.adding operands).constants.toOption
      = some [(.text "s", ⟨[2], Element.int64, [.int 3, .int 2]⟩)] := by
    change (Model.adding []).constants.toOption = _
    decide +kernel
  exact .initializer (eq_ok_of_toOption hread) List.mem_cons_self

/-- The sum runs with the constant as its second operand, and as its third. -/
theorem run_adding {operands : List String}
    (hoperands : operands = ["a", "s"] ∨ operands = ["a", "a", "s"]) :
    ∃ g, (Model.adding operands).toGraph true = .ok g ∧
      Input.declaredInputs g = .ok addingEngine.inputs ∧
      (Engine.run g addingEngine).result = .ok [[2]] ∧
      lookup? (Engine.run g addingEngine).engine.store (.text "x") = some (.tensor [2, 3]) ∧
      Name.isAmong (.text "y") g.scope = false := by
  have hrun : ((Model.adding operands).toGraph true).toOption.map (fun g =>
      ((Engine.run g addingEngine).result.toOption,
        lookup? (Engine.run g addingEngine).engine.store (.text "x"),
        Name.isAmong (.text "y") g.scope)) = some (some [[2]], some (.tensor [2, 3]), false) := by
    rcases hoperands with rfl | rfl <;> decide +kernel
  have hdeclared : ((Model.adding operands).toGraph true).toOption.map Input.declaredInputs
      = some (.ok addingEngine.inputs) := by
    rcases hoperands with rfl | rfl <;> rfl
  obtain ⟨g, hg, hfacts⟩ := Option.map_eq_some_iff.mp hrun
  rw [hg, Option.map_some, Option.some.injEq] at hdeclared
  simp only [Prod.mk.injEq] at hfacts
  exact ⟨g, eq_ok_of_toOption hg, hdeclared, eq_ok_of_toOption hfacts.1, hfacts.2⟩

/-- A third operand of the sum has no say. -/
theorem unread_adding {g : Graph} (hg : (Model.adding ["a", "a", "s"]).toGraph true = .ok g)
    (A : Assignment) : g.Unread A (.text "s") := by
  have hnodes : ((Model.adding ["a", "a", "s"]).toGraph true).toOption.map (fun g =>
      g.nodes.map fun node => (Operator.ofTag? node.op, node.inputs))
      = some [(some .constant, []), (some .add, ["a", "a", "s"].map .text)] := by decide +kernel
  rw [hg, Except.toOption, Option.map_some, Option.some.injEq] at hnodes
  intro node hnode op metas htag _ i name hi hsame
  have hlisted : (some op, node.inputs)
      ∈ g.nodes.map fun node => (Operator.ofTag? node.op, node.inputs) :=
    htag ▸ List.mem_map_of_mem hnode
  rw [hnodes] at hlisted
  simp only [List.mem_cons, List.not_mem_nil, or_false, Prod.mk.injEq, Option.some.injEq]
    at hlisted
  rcases hlisted with ⟨rfl, _⟩ | ⟨rfl, hinputs⟩
  · rfl
  · rw [hinputs] at hi
    rcases i with _ | _ | i
    · cases hi
      exact absurd hsame (by decide)
    · cases hi
      exact absurd hsame (by decide)
    · simp [Rule.looksAt]

/-- **Shared constants.** Let a run over the graph of a model succeed, let the model hold
a constant of integers, none of them zero, and let these be a target for the sizes that the
run found for a value. Give the model a node that reshapes the value by the constant, under a
name that the graph does not bind. The model then still runs and knows every other name as
before, exactly if the constant is a target already, or else if it is not that value itself
and no rule looks at it wherever it is an operand. -/
theorem run_append_reshape {g : Graph} {validate : Bool} {e : Engine} {shapes : List Shape}
    {r : Node} (h : m.toGraph validate = .ok g) (hrun : (Engine.run g e).result = .ok shapes)
    (hr : r.IsReshape x s y) (hheld : m.Holds s k) (ht : k.items = t.map .int) (hzero : 0 ∉ t)
    (hx : lookup? (Engine.run g e).engine.store x = some (.tensor dims))
    (hreshape : Shape.reshape dims t = .ok out) (htext : (Meta.tensor out).isWritable = true)
    (hy : y.isAmong g.scope = false) :
    (∃ g' shapes', (m.append r).toGraph validate = .ok g' ∧
        (Engine.run g' e).result = .ok shapes' ∧
        ∀ name, s.same name = false → y.same name = false →
          lookup? (Engine.run g' e).engine.store name
            = lookup? (Engine.run g e).engine.store name) ↔
      s ∈ m.targets ∨
        s.same x = false ∧ g.Unread (Engine.run g e).engine.store.assignment s := by
  constructor
  · rintro ⟨g', shapes', h', hrun', hkept⟩
    exact use_of_run_append h hrun hr hheld ht hzero hy h' hrun' hkept
  · intro huse
    obtain ⟨g', shapes', h', hrun', hlookup⟩ :=
      exists_run_append h hrun hr hheld ht hzero hx hreshape htext hy huse
    refine ⟨g', shapes', h', hrun', fun name hs hy => ?_⟩
    rw [hlookup, hy, hs]
    rfl

/-- The table is turned by a constant that a sum has as its third operand. -/
theorem run_append_turning :
    ∃ g g' shapes', (Model.adding ["a", "a", "s"]).toGraph true = .ok g ∧
      (Engine.run g addingEngine).result = .ok [[2]] ∧
      ((Model.adding ["a", "a", "s"]).append .turning).toGraph true = .ok g' ∧
      (Engine.run g' addingEngine).result = .ok shapes' ∧
      lookup? (Engine.run g' addingEngine).engine.store (.text "b")
        = lookup? (Engine.run g addingEngine).engine.store (.text "b") := by
  obtain ⟨g, hg, _, hrun, hx, hy⟩ := run_adding (.inr rfl)
  obtain ⟨g', shapes', hg', hrun', hkept⟩ := (run_append_reshape (t := [3, 2]) (s := .text "s") hg
    hrun isReshape_turning (holds_adding _) rfl (by decide) hx rfl (by decide +kernel) hy).mpr
    (.inr ⟨by decide, unread_adding hg _⟩)
  exact ⟨g, g', shapes', hg, hrun, hg', hrun', hkept _ (by decide) (by decide)⟩

/-- **Not every shared constant.** The sum with the constant runs, but not along with a
reshape by it: what was a tensor is a list of integers then, and no second
operand of a sum. -/
theorem not_run_append_reshape :
    ¬ ∀ (m : Model) (g : Graph) (e : Engine) (shapes : List Shape) (r : Node) (x s y : Name)
        (k : Constant) (t : List Int) (dims out : Shape), m.toGraph true = .ok g →
        Input.declaredInputs g = .ok e.inputs → (Engine.run g e).result = .ok shapes →
        r.IsReshape x s y → m.Holds s k → k.items = t.map .int → 0 ∉ t →
        lookup? (Engine.run g e).engine.store x = some (.tensor dims) →
        Shape.reshape dims t = .ok out → y.isAmong g.scope = false → s.same x = false →
        ∃ g' shapes', (m.append r).toGraph true = .ok g' ∧
          (Engine.run g' e).result = .ok shapes' ∧
          ∀ name, s.same name = false → y.same name = false →
            lookup? (Engine.run g' e).engine.store name
              = lookup? (Engine.run g e).engine.store name := by
  intro h
  obtain ⟨g, hg, hdeclared, hrun, hx, hy⟩ := run_adding (.inl rfl)
  obtain ⟨g', shapes', hg', hrun', _⟩ := h _ g addingEngine _ .turning (.text "x") (.text "s")
    (.text "y") _ [3, 2] [2, 3] [3, 2] hg hdeclared hrun isReshape_turning (holds_adding _) rfl
    (by decide) hx rfl hy (by decide)
  have hfails : (((Model.adding ["a", "s"]).append .turning).toGraph true).toOption.map (fun g =>
      (Engine.run g addingEngine).result.toOption) = some none := by decide +kernel
  rw [hg', Except.toOption, Option.map_some, hrun'] at hfails
  cases hfails

end GraphShapes.Onnx
