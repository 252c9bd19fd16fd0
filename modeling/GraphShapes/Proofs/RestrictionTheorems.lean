/-
GraphShapes.Proofs.RestrictionTheorems — a part of a graph by itself.

A run answers for every node, also for those that no graph output depends on.
They can be dropped: if the nodes that are kept, in their order, include the
producers of all that they consume, the graph of these nodes alone runs on the
same inputs, whatever is asked of it that it has, and every name that it gives an
entry has the entry of the run over the whole graph (`run_restrict`).

What a walk leaves solves the equations of the whole graph, so also those of a
part of it, and `walk_of_solution` hands the entries over. The one thing to see is
that the nodes which are kept still meet their operands in order
(`Ordered.of_sublist`): a node that is dropped wrote nothing that a kept one reads.

  §1 Parts of a graph — `Graph.Sufficient`, `Graph.restrict`, and the order.
  §2 Runs             — what the part finds by itself.
-/
import GraphShapes.Proofs.EngineTheorems
import Mathlib.Data.List.Flatten

namespace GraphShapes

/-! ## §1 Parts of a graph -/

namespace Graph

variable {g : Graph} {config : Config} {inputs : List Datum} {bound bound' outputs : List Name}
  {node : Node} {nodes kept : List Node}

/-- Nodes that include, for every name that one of them consumes, the nodes of the
graph that track it. -/
def Sufficient (g : Graph) (kept : List Node) : Prop :=
  ∀ node ∈ kept, ∀ name ∈ node.inputs, ∀ source ∈ g.nodes,
    name.isAmong source.tracked = true → source ∈ kept

/-- The graph with some of its nodes, from which other outputs are asked for. -/
def restrict (g : Graph) (kept : List Node) (outputs : List Name) : Graph :=
  { g with nodes := kept, outputs }

/-- It is enough that what is dropped tracks nothing that is consumed. -/
theorem sufficient_of_dropped
    (h : ∀ source ∈ g.nodes, source ∈ kept ∨
      ∀ node ∈ kept, ∀ name ∈ node.inputs, name.isAmong source.tracked = false) :
    g.Sufficient kept := by
  intro node hnode name hname source hsource htracked
  rcases h source hsource with hkept | hfree
  · exact hkept
  · rw [hfree node hnode name hname] at htracked
    cases htracked

/-- Where all names are distinct, a node that tracks one is listed once. -/
theorem notMem_of_distinct {name : Name} (hd : Name.Distinct (trackedNames (node :: nodes)))
    (hname : name.isAmong node.tracked = true) : node ∉ nodes := by
  intro hmem
  rw [trackedNames_cons, Name.distinct_append] at hd
  obtain ⟨n, hn, hkey⟩ := List.mem_map.mp (Name.isAmong_iff.mp hname)
  apply hd.2.2 n hn
  rw [← Name.isAmong_iff, trackedNames, Name.isAmong_flatMap]
  exact ⟨node, hmem, Name.isAmong_iff.mpr (List.mem_map_of_mem hn)⟩

/-- **The order of what is kept.** Nodes that are kept meet their operands in order,
if the others do not track what they consume. By induction on what is kept: in
front of every node, the kept nodes have bound every name that is consumed later. -/
theorem Ordered.of_sublist (hsub : kept.Sublist nodes) (h : Ordered bound nodes)
    (hd : Name.Distinct (trackedNames nodes))
    (hbound : ∀ node ∈ kept, ∀ name ∈ node.inputs,
      name.isAmong bound = true → name.isAmong bound' = true)
    (hsources : ∀ node ∈ kept, ∀ name ∈ node.inputs, ∀ source ∈ nodes,
      name.isAmong source.tracked = true → source ∈ kept) :
    Ordered bound' kept := by
  induction hsub generalizing bound bound' with
  | slnil => trivial
  | @cons kept nodes dropped hsub ih =>
    have hrest : Name.Distinct (trackedNames nodes) :=
      hd.sublist ((List.sublist_cons_self dropped nodes).flatMap Node.tracked)
    refine ih h.2 hrest ?_ ?_
    · intro node hnode name hname hamong
      rcases Name.isAmong_append.mp hamong with hold | htracked
      · exact hbound node hnode name hname hold
      · -- The dropped node would be one of those kept, and so listed twice.
        have hkept := hsources node hnode name hname dropped List.mem_cons_self htracked
        exact absurd (hsub.subset hkept) (notMem_of_distinct hd htracked)
    · intro node hnode name hname source hsource
      exact hsources node hnode name hname source (List.mem_cons_of_mem dropped hsource)
  | @cons_cons kept nodes first hsub ih =>
    have hrest : Name.Distinct (trackedNames nodes) :=
      hd.sublist ((List.sublist_cons_self first nodes).flatMap Node.tracked)
    refine ⟨fun name hname => hbound first List.mem_cons_self name hname (h.1 name hname), ?_⟩
    refine ih h.2 hrest ?_ ?_
    · intro node hnode name hname hamong
      rw [Name.isAmong_append] at hamong ⊢
      exact hamong.imp_left (hbound node (List.mem_cons_of_mem first hnode) name hname)
    · intro node hnode name hname source hsource htracked
      have hkept := hsources node (List.mem_cons_of_mem first hnode) name hname source
        (List.mem_cons_of_mem first hsource) htracked
      rcases List.mem_cons.mp hkept with rfl | hmem
      · exact absurd hsource (notMem_of_distinct hd htracked)
      · exact hmem

/-- **Walks.** A walk over a part that suffices goes through if the one over the whole
graph does, and finds nothing else. -/
theorem walk_restrict (outputs : List Name) (h : (g.walk config inputs).fault = none)
    (hsub : kept.Sublist g.nodes) (hsuff : g.Sufficient kept) :
    ((g.restrict kept outputs).walk config inputs).fault = none ∧
      ((g.restrict kept outputs).walk config inputs).store.names
        = g.inputs ++ trackedNames kept ∧
      ((g.restrict kept outputs).walk config inputs).store.Within
        (g.walk config inputs).store.assignment := by
  obtain ⟨hvalid, hnames, ho, hsol⟩ := walked_walk h
  have hd := hvalid.distinct
  rw [hnames] at hd
  have hd' : Name.Distinct (g.inputs ++ trackedNames kept) :=
    hd.sublist ((hsub.flatMap Node.tracked).append_left g.inputs)
  have ho' : Ordered g.inputs kept :=
    ho.of_sublist hsub (Name.distinct_append.mp hd).2.1 (fun _ _ _ _ hamong => hamong) hsuff
  exact walk_of_solution h hd' ho'
    ⟨hsol.bound, fun node hnode => hsol.solved node (hsub.subset hnode)⟩

end Graph

/-! ## §2 Runs -/

/-- A node that consumes what an embedding bag pools. -/
def Node.squash : Node where
  op := .text "aten::tanh"
  inputs := [.text "bags"]
  outputs := [.text "t"]

/-- The pooling graph with one more branch between its nodes. -/
def Graph.squashing : Graph :=
  { Graph.pooling with
    nodes := [.pool, .squash, .activate, .multiply]
    outputs := ["t", "y"].map .text }

open GraphShapes.Graph (trackedNames)

namespace Engine

variable {g : Graph} {e : Engine} {shapes : List Shape}

/-- **Dead code can be dropped.** If a run without validation succeeds, then so does
the run over any of the nodes, in their order, that include the producers of what they
consume, whatever outputs are asked for among the graph inputs and the tracked outputs
of these nodes. It gives these names an entry and no others, each the entry that the
run over the whole graph gives it, and it answers the shapes of those entries. -/
theorem run_restrict (hflag : e.config.validateGraph = false)
    (h : (run g e).result = .ok shapes) {kept : List Node} (hsub : kept.Sublist g.nodes)
    (hsuff : g.Sufficient kept) {outputs : List Name}
    (houtputs : ∀ name ∈ outputs, name.isAmong (g.inputs ++ trackedNames kept) = true) :
    let part := run (g.restrict kept outputs) e
    (∃ shapes', part.result = .ok shapes' ∧
        outputs.map (fun name => (lookup? (run g e).engine.store name).map Meta.shape)
          = shapes'.map some) ∧
      part.engine.store.names = g.inputs ++ trackedNames kept ∧
      ∀ name, name.isAmong part.engine.store.names = true →
        lookup? part.engine.store name = lookup? (run g e).engine.store name := by
  have hoff := validate_of_flag hflag
  obtain ⟨_, hwalk, _⟩ := run_eq_ok_iff.mp h
  obtain ⟨hwalk', hnames, hwithin⟩ := Graph.walk_restrict outputs hwalk hsub hsuff
  dsimp only
  rw [store_run (hoff _), store_run (hoff _)]
  have hsame : ∀ name, name.isAmong (g.inputs ++ trackedNames kept) = true →
      lookup? ((g.restrict kept outputs).walk e.config e.inputs).store name
        = lookup? (g.walk e.config e.inputs).store name := by
    intro name hname
    obtain ⟨m, hm⟩ := exists_lookup?_iff.mpr (hnames.symm ▸ hname)
    have hfull : lookup? (g.walk e.config e.inputs).store name = some m := hwithin name m hm
    rw [hm, hfull]
  obtain ⟨shapes', hshapes'⟩ := Graph.exists_outputShapes (g := g.restrict kept outputs)
    fun name hname => hnames.symm ▸ houtputs name hname
  refine ⟨⟨shapes', run_eq_ok_iff.mpr ⟨hoff _, hwalk', hshapes'⟩, ?_⟩, hnames, ?_⟩
  · rw [← Graph.outputShapes_eq_ok_iff.mp hshapes']
    exact List.map_congr_left fun name hname => by rw [hsame name (houtputs name hname)]
  · intro name hname
    exact hsame name (hnames ▸ hname)

/-- Without the branch, the product of the pooling graph is what it was. -/
theorem run_squashing_restrict :
    (run .squashing .pooling).result = .ok [[3, 3], [3, 5]] ∧
      let part := run (Graph.squashing.restrict [.pool, .activate, .multiply] [.text "y"]) .pooling
      part.engine.store.names = ["w", "i", "o", "x", "bags", "r", "y"].map .text ∧
        lookup? part.engine.store (.text "y")
          = lookup? (run .squashing .pooling).engine.store (.text "y") := by
  have h : (run .squashing .pooling).result = .ok [[3, 3], [3, 5]] :=
    eq_ok_of_toOption (by decide +kernel)
  have hsub : [Node.pool, .activate, .multiply].Sublist Graph.squashing.nodes :=
    ((List.Sublist.refl [Node.activate, .multiply]).cons Node.squash).cons_cons Node.pool
  have hsuff : Graph.squashing.Sufficient [Node.pool, .activate, .multiply] := by
    apply Graph.sufficient_of_dropped
    intro source hsource
    simp only [Graph.squashing, List.mem_cons, List.not_mem_nil, or_false] at hsource
    rcases hsource with rfl | rfl | rfl | rfl
    · exact Or.inl (by simp)
    · exact Or.inr (by decide +kernel)
    · exact Or.inl (by simp)
    · exact Or.inl (by simp)
  have houtputs : ∀ name ∈ [Name.text "y"], name.isAmong (Graph.squashing.inputs
      ++ trackedNames [Node.pool, .activate, .multiply]) = true := by
    decide +kernel
  obtain ⟨_, hnames, hsame⟩ := run_restrict rfl h hsub hsuff houtputs
  exact ⟨h, hnames, hsame (.text "y") (by rw [hnames]; decide +kernel)⟩

end Engine

end GraphShapes
