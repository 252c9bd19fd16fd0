/-
GraphShapes.Proofs.ContractTheorems — validation and sorting establish what a
run relies on, and ask for no more.

A run relies on names that are written once and on operands that come first;
where it is let down it breaks consistency. On a valid graph whose consumed
names all come from somewhere the sorted nodes never let it down. Conversely a
graph that runs, with all names declared and without an embedding bag, is
valid, and its sorted nodes give the same answer. Embedding bags are left out
because validation counts all their outputs as produced and a run only the
first.

Both rest on reading one relation in two ways. `WalkTheorems` orders nodes by
names (`Ordered`), `OrderTheorems` orders indices by suppliers (`InOrder`):
`ordered_filterMap` goes from indices to names, `supplies_lt` from names back
to indices.

  §1 From indices to names — sorted nodes are ordered.
  §2 From names to indices — ordered nodes can be sorted.
  §3 The contract          — validity and sorting against runs.
-/
import GraphShapes.Proofs.EngineTheorems
import GraphShapes.Proofs.ValidityTheorems

namespace GraphShapes

namespace Graph

variable {g : Graph} {ps : Producers}

/-! ## §1 From indices to names -/

theorem trackedNames_sublist (nodes : List Node) :
    (trackedNames nodes).Sublist (allOutputs nodes) := by
  induction nodes with
  | nil => exact List.Sublist.refl []
  | cons node rest ih => simpa [allOutputs] using node.tracked_sublist.append ih

/-- A name that a node gives an entry is one that it outputs. -/
theorem isAmong_outputs {name : Name} {node : Node} (h : name.isAmong node.tracked = true) :
    name.isAmong node.outputs = true := by
  rw [Name.isAmong_iff] at h ⊢
  exact ((node.tracked_sublist).map Name.key).subset h

/-- Indices in order pick nodes in order, if every name that a node consumes comes
from somewhere. -/
theorem ordered_filterMap (hps : g.producers = .ok ps)
    (hconsumed : ∀ node ∈ g.nodes, ∀ name ∈ node.inputs,
      name.isAmong (g.inputs ++ trackedNames g.nodes) = true)
    {emitted order : List Nat} (h : InOrder (g.nodes.map (suppliers ps)) emitted order) :
    Ordered (g.inputs ++ trackedNames (emitted.filterMap (g.nodes[·]?)))
      (order.filterMap (g.nodes[·]?)) := by
  induction order generalizing emitted with
  | nil => trivial
  | cons v rest ih =>
    obtain ⟨⟨us, hus, hall⟩, hrest⟩ := h
    rw [List.getElem?_map, Option.map_eq_some_iff] at hus
    obtain ⟨node, hnode, rfl⟩ := hus
    have ih := ih hrest
    rw [List.filterMap_append, trackedNames, List.flatMap_append, ← List.append_assoc] at ih
    rw [List.filterMap_cons_some hnode]
    refine ⟨?_, by simpa [trackedNames, hnode] using ih⟩
    intro name hname
    have hfrom := hconsumed node (List.mem_of_getElem? hnode) name hname
    rw [Name.isAmong_append] at hfrom ⊢
    refine hfrom.imp_right fun htracked => ?_
    -- The name is tracked by some node `u`, which is then a supplier and emitted already.
    obtain ⟨source, hsource, hamong⟩ := Name.isAmong_flatMap.mp htracked
    obtain ⟨u, hu⟩ := List.getElem?_of_mem hsource
    have hproducer : lookup? ps name = some u :=
      (lookup?_producers hps).mpr ⟨source, hu, isAmong_outputs hamong⟩
    have hemitted : u ∈ emitted := hall u (List.mem_filterMap.mpr ⟨name, hname, hproducer⟩)
    exact Name.isAmong_flatMap.mpr ⟨source, List.mem_filterMap.mpr ⟨u, hemitted, hu⟩, hamong⟩

/-- Sorting a graph whose consumed names all come from somewhere puts its
operands first. -/
theorem ordered_of_toposort {nodes : List Node} (h : g.toposort = .ok nodes)
    (hconsumed : ∀ node ∈ g.nodes, ∀ name ∈ node.inputs,
      name.isAmong (g.inputs ++ trackedNames g.nodes) = true) :
    Ordered g.inputs nodes := by
  obtain ⟨ps, order, hps, horder, rfl⟩ := toposort_eq_ok_iff.mp h
  have hordered := ordered_filterMap hps hconsumed (emitted_of_orderFrom horder).1.inOrder
  simpa using hordered

/-! ## §2 From names to indices -/

/-- Where operands come first, the node at an index consumes what is bound or
tracked in front of it. -/
theorem isAmong_of_ordered {bound : List Name} {nodes : List Node} {node : Node} {v : Nat}
    (h : Ordered bound nodes) (hnode : nodes[v]? = some node) :
    ∀ name ∈ node.inputs, name.isAmong (bound ++ trackedNames (nodes.take v)) = true := by
  induction nodes generalizing bound v with
  | nil => cases hnode
  | cons first rest ih =>
    cases v with
    | zero =>
      cases hnode
      simpa using h.1
    | succ v =>
      intro name hname
      have hrest := ih h.2 hnode name hname
      rwa [List.append_assoc, ← trackedNames_cons, ← List.take_succ_cons] at hrest

/-- Where operands come first, every name that a node consumes comes from
somewhere. -/
theorem isAmong_trackedNames_of_ordered {bound : List Name} {nodes : List Node}
    (h : Ordered bound nodes) :
    ∀ node ∈ nodes, ∀ name ∈ node.inputs, name.isAmong (bound ++ trackedNames nodes) = true := by
  intro node hnode name hname
  obtain ⟨v, hv⟩ := List.getElem?_of_mem hnode
  have hfront := isAmong_of_ordered h hv name hname
  rw [Name.isAmong_append] at hfront ⊢
  refine hfront.imp_right fun htracked => ?_
  obtain ⟨source, hsource, hamong⟩ := Name.isAmong_flatMap.mp htracked
  exact Name.isAmong_flatMap.mpr ⟨source, List.mem_of_mem_take hsource, hamong⟩

/-- So does every name that a node consumes or tracks. -/
theorem isAmong_of_mem_node {bound : List Name} {nodes : List Node} {node : Node} {name : Name}
    (h : Ordered bound nodes) (hnode : node ∈ nodes) (hname : name ∈ node.inputs ++ node.tracked) :
    name.isAmong (bound ++ trackedNames nodes) = true := by
  rcases List.mem_append.mp hname with hin | hout
  · exact isAmong_trackedNames_of_ordered h node hnode name hin
  · rw [Name.isAmong_append, trackedNames, Name.isAmong_flatMap]
    exact Or.inr ⟨node, hnode, Name.isAmong_of_mem hout⟩

/-- Where operands come first and no graph input is output by a node, suppliers
have smaller indices. -/
theorem supplies_lt (hps : g.producers = .ok ps) (ho : Ordered g.inputs g.nodes)
    (hfree : ∀ name ∈ g.inputs, name.isAmong (allOutputs g.nodes) = false) {u v : Nat}
    (h : Supplies (g.nodes.map (suppliers ps)) u v) : u < v := by
  obtain ⟨us, hus, hu⟩ := h
  rw [List.getElem?_map, Option.map_eq_some_iff] at hus
  obtain ⟨node, hnode, rfl⟩ := hus
  obtain ⟨name, hname, hproducer⟩ := List.mem_filterMap.mp hu
  obtain ⟨source, hsource, hamong⟩ := (lookup?_producers hps).mp hproducer
  rcases Name.isAmong_append.mp (isAmong_of_ordered ho hnode name hname) with hin | htracked
  · -- A graph input has no producer.
    rw [Name.isAmong_iff] at hin
    obtain ⟨input, hinput, hkey⟩ := List.mem_map.mp hin
    have hnone := (lookup?_producers_eq_none hps).mpr (hfree input hinput)
    rw [lookup?_congr ps hkey, hproducer] at hnone
    cases hnone
  · -- The node in front that tracks the name is its producer.
    obtain ⟨earlier, hearlier, hearly⟩ := Name.isAmong_flatMap.mp htracked
    obtain ⟨w, hw⟩ := List.getElem?_of_mem hearlier
    rw [List.getElem?_take] at hw
    split at hw
    · next hlt =>
      have hsame := (lookup?_producers hps).mpr ⟨earlier, hw, isAmong_outputs hearly⟩
      rw [hproducer] at hsame
      cases hsame
      exact hlt
    · cases hw

/-- Every node but an embedding bag gives all its outputs an entry. -/
theorem tracked_eq_outputs {node : Node} (h : node.op ≠ .text "aten::embedding_bag") :
    node.tracked = node.outputs := by
  unfold Node.tracked
  cases htag : Operator.ofTag? node.op with
  | none => rfl
  | some op =>
    have hop := Operator.tag_of_ofTag? htag
    cases op with
    | embeddingBag => exact absurd hop h
    | _ => rfl

theorem trackedNames_eq_allOutputs {nodes : List Node}
    (h : ∀ node ∈ nodes, node.op ≠ .text "aten::embedding_bag") :
    trackedNames nodes = allOutputs nodes := by
  unfold trackedNames allOutputs
  exact List.flatMap_congr fun node hnode => tracked_eq_outputs (h node hnode)

/-- The names that a walk over a valid graph with distinct inputs writes are
distinct. -/
theorem distinct_of_validate (h : g.validate = .ok ()) (hinputs : Name.Distinct g.inputs) :
    Name.Distinct (g.inputs ++ trackedNames g.nodes) := by
  obtain ⟨ps, hps, _, _, hfree, _⟩ := validate_eq_ok_iff.mp h
  have houtputs : Name.Distinct (allOutputs g.nodes) := (producers_eq_ok_iff.mp hps).1
  have hall : Name.Distinct (g.inputs ++ allOutputs g.nodes) := by
    refine Name.distinct_append.mpr ⟨hinputs, houtputs, fun name hname hmem => ?_⟩
    rw [← Name.isAmong_iff, hfree name hname] at hmem
    cases hmem
  exact hall.sublist ((trackedNames_sublist g.nodes).append_left g.inputs)

/-- A graph is valid if its names are distinct and declared and its operands come first. -/
theorem validate_of_ordered (hd : Name.Distinct (g.inputs ++ allOutputs g.nodes))
    (ho : Ordered g.inputs g.nodes)
    (hnodes : ∀ node ∈ g.nodes, ∀ name ∈ node.inputs ++ node.outputs, g.declares name = true)
    (hends : ∀ name ∈ g.inputs ++ g.outputs, g.declares name = true) : g.validate = .ok () := by
  rw [Name.distinct_append] at hd
  have hps : g.producers = .ok (produced 0 g.nodes) := producers_eq_ok_iff.mpr ⟨hd.2.1, rfl⟩
  have hfree : ∀ name ∈ g.inputs, name.isAmong (allOutputs g.nodes) = false := by
    intro name hname
    rw [← Bool.not_eq_true, Name.isAmong_iff]
    exact hd.2.2 name hname
  exact validate_eq_ok_iff.mpr ⟨_, hps, hnodes, hends, hfree,
    exists_orderFrom fun _ _ => supplies_lt hps ho hfree⟩

/-- A graph that the walk goes through is valid, without an embedding bag and with
all names declared. -/
theorem validate_of_walk {config : Config} {inputs : List Datum}
    (hwalk : (g.walk config inputs).fault = none)
    (hnodes : ∀ node ∈ g.nodes, ∀ name ∈ node.inputs ++ node.outputs, g.declares name = true)
    (hends : ∀ name ∈ g.inputs ++ g.outputs, g.declares name = true)
    (hbags : ∀ node ∈ g.nodes, node.op ≠ .text "aten::embedding_bag") :
    g.validate = .ok () := by
  obtain ⟨hstore, hnames, ho, _⟩ := walked_walk hwalk
  have hd := hstore.distinct
  rw [hnames, trackedNames_eq_allOutputs hbags] at hd
  exact validate_of_ordered hd ho hnodes hends

/-- A valid graph is sorted. -/
theorem exists_toposort (h : g.validate = .ok ()) : ∃ nodes, g.toposort = .ok nodes := by
  obtain ⟨ps, hps, _, _, _, order, horder⟩ := validate_eq_ok_iff.mp h
  exact ⟨_, toposort_eq_ok_iff.mpr ⟨ps, order, hps, horder, rfl⟩⟩

end Graph

/-! ## §3 The contract -/

/-- A chain of two nodes, and a third node beside it. -/
def Graph.branching : Graph where
  nodes :=
    [{ op := .text "aten::relu", inputs := [.text "x"], outputs := [.text "a"] },
     { op := .text "aten::tanh", inputs := [.text "a"], outputs := [.text "b"] },
     { op := .text "aten::sigmoid", inputs := [.text "x"], outputs := [.text "c"] }]
  values := ["x", "a", "b", "c"].map fun name => (.text name, {})
  inputs := [.text "x"]
  outputs := ["b", "c"].map .text

/-- One tensor to run a graph on. -/
def Engine.single : Engine where
  inputs := [.array [2, 3] .float32]

open GraphShapes.Graph (trackedNames)

namespace Engine

variable {g : Graph} {e : Engine} {shapes : List Shape}

/-- **Validation and sorting are enough.** On a valid graph with distinct inputs
in which every name that a node consumes and every graph output is a graph input
or tracked by a node, a run over the sorted nodes never breaks consistency,
whatever it is run on and wherever it stops. -/
theorem result_run_toposort_ne_consistency (hvalid : g.validate = .ok ())
    (hinputs : Name.Distinct g.inputs)
    (hconsumed : ∀ node ∈ g.nodes, ∀ name ∈ node.inputs,
      name.isAmong (g.inputs ++ trackedNames g.nodes) = true)
    (houtputs : ∀ name ∈ g.outputs, name.isAmong (g.inputs ++ trackedNames g.nodes) = true) :
    ∃ nodes, g.toposort = .ok nodes ∧
      ∀ (e : Engine) (c : ConsistencyError),
        (run (g.withNodes nodes) e).result ≠ .error (.consistency c) := by
  obtain ⟨nodes, hnodes⟩ := Graph.exists_toposort hvalid
  refine ⟨nodes, hnodes, fun e c => ?_⟩
  have ho : Graph.Ordered g.inputs nodes := Graph.ordered_of_toposort hnodes hconsumed
  have hperm : (g.inputs ++ trackedNames nodes).Perm (g.inputs ++ trackedNames g.nodes) :=
    ((Graph.perm_of_toposort hnodes).flatMap_right _).append_left g.inputs
  have hd : Name.Distinct (g.inputs ++ trackedNames nodes) :=
    (Graph.distinct_of_validate hvalid hinputs).perm hperm.symm
  apply result_run_ne_consistency (Graph.consistent_walk hd ho)
  intro hwalk name hname
  rw [(Graph.walked_walk hwalk).2.1]
  exact (Name.isAmong_perm hperm).mpr (houtputs name hname)

/-- Listed back to front, the nodes of the pooling graph are sorted before they
are run. -/
theorem run_pooling_sorted :
    let g := Graph.pooling.withNodes [.multiply, .activate, .pool]
    g.validate = .ok () ∧ ∃ nodes, g.toposort = .ok nodes ∧
      ∀ (e : Engine) (c : ConsistencyError),
        (run (g.withNodes nodes) e).result ≠ .error (.consistency c) := by
  have hvalid : (Graph.pooling.withNodes [.multiply, .activate, .pool]).validate = .ok () :=
    eq_ok_of_toOption (by decide +kernel)
  exact ⟨hvalid, result_run_toposort_ne_consistency hvalid (by decide +kernel)
    (by decide +kernel) (by decide +kernel)⟩

/-- **Validation raises no false alarm.** A graph that runs, with all names
declared and without an embedding bag, is valid, and a run over its sorted nodes
gives the same shapes and the same entry for every name. -/
theorem validate_of_run
    (hnodes : ∀ node ∈ g.nodes, ∀ name ∈ node.inputs ++ node.outputs, g.declares name = true)
    (hends : ∀ name ∈ g.inputs ++ g.outputs, g.declares name = true)
    (hbags : ∀ node ∈ g.nodes, node.op ≠ .text "aten::embedding_bag")
    (hflag : e.config.validateGraph = false) (h : (run g e).result = .ok shapes) :
    g.validate = .ok () ∧
      ∃ nodes, g.toposort = .ok nodes ∧
        (run (g.withNodes nodes) e).result = .ok shapes ∧
        ∀ name, lookup? (run (g.withNodes nodes) e).engine.store name
          = lookup? (run g e).engine.store name := by
  obtain ⟨_, hwalk, _⟩ := run_eq_ok_iff.mp h
  have hvalid := Graph.validate_of_walk hwalk hnodes hends hbags
  obtain ⟨nodes, hsorted⟩ := Graph.exists_toposort hvalid
  refine ⟨hvalid, nodes, hsorted, run_of_perm hflag h (Graph.perm_of_toposort hsorted) ?_⟩
  exact Graph.ordered_of_toposort hsorted
    (Graph.isAmong_trackedNames_of_ordered (Graph.walked_walk hwalk).2.2.1)

/-- Sorting moves the last node in front of the second, which waits for the
first. -/
theorem validate_branching :
    Graph.branching.validate = .ok () ∧
      ∃ nodes, Graph.branching.toposort = .ok nodes ∧
        (run (Graph.branching.withNodes nodes) .single).result = .ok [[2, 3], [2, 3]] ∧
        ∀ name, lookup? (run (Graph.branching.withNodes nodes) .single).engine.store name
          = lookup? (run .branching .single).engine.store name := by
  have h : (run .branching .single).result = .ok [[2, 3], [2, 3]] :=
    eq_ok_of_toOption (by decide +kernel)
  have hbags : ∀ node ∈ Graph.branching.nodes, node.op ≠ .text "aten::embedding_bag" := by
    simp [Graph.branching]
  exact validate_of_run (by decide +kernel) (by decide +kernel) hbags rfl h

end Engine

end GraphShapes
