/-
GraphShapes.Proofs.EngineTheorems — what a run of an engine means.

A run that succeeds leaves the one solution of the graph's equations over the
concrete inputs and reports the shapes that it assigns to the graph outputs.
The order in which the nodes are listed has no part in it: any other order in
which operands come first gives the same answer.

Both are facts about walks (`WalkTheorems`). What is left for this module is
the frame that a run puts around its walk: validation in front of it and the
shapes of the graph outputs behind it (`run_of_validate`, `run_eq_ok_iff`).

  §1 Runs and walks — success, the store, and consistency of a run.
  §2 Meaning        — the solution, and the order of the nodes.
-/
import GraphShapes.Inference.Engine
import GraphShapes.Proofs.WalkTheorems

namespace GraphShapes

/-! ## §1 Runs and walks -/

/-- A store has the shapes of the graph outputs when each of them has an entry. -/
theorem Graph.outputShapes_eq_ok_iff {g : Graph} {s : Store} {shapes : List Shape} :
    g.outputShapes s = .ok shapes ↔
      g.outputs.map (fun name => (lookup? s name).map Meta.shape) = shapes.map some := by
  rw [Graph.outputShapes, mapM_eq_ok_iff, map_eq_map_some_iff]
  constructor
  · intro h
    refine h.imp fun name shape hname => ?_
    split at hname
    · next found => rw [found, Option.map_some, Except.ok.inj hname]
    · cases hname
  · intro h
    refine h.imp fun name shape hname => ?_
    obtain ⟨m, hm, rfl⟩ := Option.map_eq_some_iff.mp hname
    rw [hm]

/-- Graph outputs with entries have shapes. -/
theorem Graph.exists_outputShapes {g : Graph} {s : Store}
    (h : ∀ name ∈ g.outputs, name.isAmong s.names = true) :
    ∃ shapes, g.outputShapes s = .ok shapes := by
  obtain ⟨metas, hmetas⟩ := Store.exists_metas_of_isAmong h
  refine ⟨metas.map Meta.shape, Graph.outputShapes_eq_ok_iff.mpr ?_⟩
  rw [← Function.comp_def, ← List.map_map, hmetas]
  simp

/-- Graph outputs with shapes have entries. -/
theorem Graph.isAmong_of_outputShapes {g : Graph} {s : Store} {shapes : List Shape}
    (h : g.outputShapes s = .ok shapes) : ∀ name ∈ g.outputs, name.isAmong s.names = true := by
  intro name hname
  have hmem : (lookup? s name).map Meta.shape ∈ shapes.map some := by
    rw [← Graph.outputShapes_eq_ok_iff.mp h]
    exact List.mem_map_of_mem hname
  obtain ⟨shape, _, hshape⟩ := List.mem_map.mp hmem
  obtain ⟨m, hm, _⟩ := Option.map_eq_some_iff.mp hshape.symm
  exact exists_lookup?_iff.mp ⟨m, hm⟩

namespace Engine

variable {g : Graph} {e : Engine} {shapes : List Shape}

/-- Shapes can be read if they are published. -/
theorem outputShapes_eq_ok_iff : e.outputShapes = .ok shapes ↔ e.published = some shapes := by
  unfold outputShapes
  cases e.published with
  | none => simp
  | some shapes' => simp

/-- A run over a graph that passes the validation that was asked for is a walk and
its end. -/
theorem run_of_validate (h : e.config.validateGraph = true → g.validate = .ok ()) :
    run g e = finish g e (g.walk e.config e.inputs) := by
  have hcheck : (if e.config.validateGraph then g.validate else .ok ()) = .ok () := by
    split
    · next hflag => exact h hflag
    · rfl
  unfold run
  rw [hcheck]

/-- A run over a graph that fails the validation that was asked for touches nothing. -/
theorem run_of_validate_eq_error {d : ValidationError} (hflag : e.config.validateGraph = true)
    (h : g.validate = .error d) :
    run g e = ⟨e, .error (Fault.settled (.validation d)), []⟩ := by
  unfold run
  rw [if_pos hflag, h]

/-- The graph passes the validation that was asked for, or it has a defect. -/
theorem validate_cases (g : Graph) (e : Engine) :
    (e.config.validateGraph = true → g.validate = .ok ()) ∨
      e.config.validateGraph = true ∧ ∃ d, g.validate = .error d := by
  cases hvalid : g.validate with
  | ok => exact Or.inl fun _ => rfl
  | error d =>
    cases hflag : e.config.validateGraph with
    | false => exact Or.inl nofun
    | true => exact Or.inr ⟨rfl, d, rfl⟩

@[simp] theorem store_finish (p : Progress) : (finish g e p).engine.store = p.store := by
  unfold finish
  split
  · rfl
  · split <;> rfl

/-- The end of a run publishes its result if it succeeds, and nothing otherwise. -/
theorem published_finish (p : Progress) :
    (finish g e p).engine.published = (finish g e p).result.toOption := by
  unfold finish
  split
  · rfl
  · split <;> rfl

/-- What is left by earlier steps plays no part in a run that gets as far as
walking. -/
theorem run_eq_inferShapes (h : e.config.validateGraph = true → g.validate = .ok ()) :
    run g e = inferShapes g e.inputs e.config := by
  have hnew : inferShapes g e.inputs e.config = finish g e (g.walk e.config e.inputs) :=
    run_of_validate h
  rw [hnew, run_of_validate h]

theorem finish_eq_ok_iff {p : Progress} :
    (finish g e p).result = .ok shapes ↔ p.fault = none ∧ g.outputShapes p.store = .ok shapes := by
  unfold finish
  cases hfault : p.fault with
  | some f => simp
  | none =>
    cases hshapes : g.outputShapes p.store with
    | error f => simp
    | ok shapes' => simp

/-- A run succeeds when the graph passes the validation that was asked for, the
walk goes through and every graph output has a shape. -/
theorem run_eq_ok_iff :
    (run g e).result = .ok shapes ↔
      (e.config.validateGraph = true → g.validate = .ok ()) ∧
      (g.walk e.config e.inputs).fault = none ∧
      g.outputShapes (g.walk e.config e.inputs).store = .ok shapes := by
  rcases validate_cases g e with hvalid | ⟨hflag, d, hd⟩
  · rw [run_of_validate hvalid, finish_eq_ok_iff, and_iff_right hvalid]
  · rw [run_of_validate_eq_error hflag hd]
    simp [hflag, hd]

/-- A run that gets as far as walking publishes its result if it succeeds, and
nothing otherwise. -/
theorem published_run (h : e.config.validateGraph = true → g.validate = .ok ()) :
    (run g e).engine.published = (run g e).result.toOption := by
  rw [run_of_validate h, published_finish]

/-- A run that gets as far as walking leaves the store of the walk. -/
theorem store_run (h : e.config.validateGraph = true → g.validate = .ok ()) :
    (run g e).engine.store = (g.walk e.config e.inputs).store := by
  rw [run_of_validate h, store_finish]

/-- A run leaves the store of the walk, or what it found if the graph fails
validation. -/
theorem store_run_cases (g : Graph) (e : Engine) :
    (run g e).engine.store = e.store ∨
      (run g e).engine.store = (g.walk e.config e.inputs).store := by
  rcases validate_cases g e with hvalid | ⟨hflag, d, hd⟩
  · exact Or.inr (store_run hvalid)
  · rw [run_of_validate_eq_error hflag hd]
    exact Or.inl rfl

/-- Every graph passes a validation that was not asked for. -/
theorem validate_of_flag (hflag : e.config.validateGraph = false) (g : Graph) :
    e.config.validateGraph = true → g.validate = .ok () := by
  rw [hflag]
  exact nofun

/-- Without validation, a run over the same nodes in another order in which
operands come first succeeds as well, with the same shapes and entries. -/
theorem run_of_perm (hflag : e.config.validateGraph = false)
    (h : (run g e).result = .ok shapes) {nodes : List Node} (hperm : nodes.Perm g.nodes)
    (ho : Graph.Ordered g.inputs nodes) :
    (run (g.withNodes nodes) e).result = .ok shapes ∧
      ∀ name, lookup? (run (g.withNodes nodes) e).engine.store name
        = lookup? (run g e).engine.store name := by
  have hoff := validate_of_flag hflag
  obtain ⟨_, hwalk, hshapes⟩ := run_eq_ok_iff.mp h
  obtain ⟨hwalk', hsame⟩ := Graph.walk_perm hwalk hperm ho
  rw [store_run (hoff _), store_run (hoff _)]
  refine ⟨run_eq_ok_iff.mpr ⟨hoff _, hwalk', ?_⟩, hsame⟩
  rw [Graph.outputShapes_eq_ok_iff] at hshapes ⊢
  simp only [hsame]
  exact hshapes

/-- A run whose walk keeps consistency, and whose graph outputs all have an
entry if the walk goes through, keeps consistency. -/
theorem result_run_ne_consistency (hwalk : (g.walk e.config e.inputs).Consistent)
    (houtputs : (g.walk e.config e.inputs).fault = none →
      ∀ name ∈ g.outputs, name.isAmong (g.walk e.config e.inputs).store.names = true)
    (c : ConsistencyError) : (run g e).result ≠ .error (.consistency c) := by
  intro h
  rcases validate_cases g e with hvalid | ⟨hflag, d, hd⟩
  · rw [run_of_validate hvalid] at h
    cases hfault : (g.walk e.config e.inputs).fault with
    | some f =>
      rw [finish, hfault] at h
      cases h
      exact hwalk c hfault
    | none =>
      obtain ⟨shapes, hshapes⟩ := Graph.exists_outputShapes (houtputs hfault)
      rw [finish_eq_ok_iff.mpr ⟨hfault, hshapes⟩] at h
      cases h
  · rw [run_of_validate_eq_error hflag hd] at h
    have hsettled := Fault.eq_of_settled_eq_consistency (Except.error.inj h)
    cases hsettled

end Engine

/-! ## §2 Meaning -/

/-- An embedding bag; its second output is not tracked. -/
def Node.pool : Node where
  op := .text "aten::embedding_bag"
  inputs := ["w", "i", "o", "x", "x", "x", "x", "x"].map .text
  outputs := ["bags", "sizes"].map .text

/-- A unary node that does not depend on the embedding bag. -/
def Node.activate : Node where
  op := .text "aten::relu"
  inputs := [.text "x"]
  outputs := [.text "r"]

/-- A matrix product of the two. -/
def Node.multiply : Node where
  op := .text "aten::mm"
  inputs := ["bags", "r"].map .text
  outputs := [.text "y"]

/-- A graph in which two nodes are independent and one consumes both. -/
def Graph.pooling : Graph where
  nodes := [.pool, .activate, .multiply]
  values := ["w", "i", "o", "x", "bags", "sizes", "r", "y"].map fun name => (.text name, {})
  inputs := ["w", "i", "o", "x"].map .text
  outputs := ["y", "bags"].map .text

/-- A table of ten rows of width three, six indices in three bags, and a tensor
to multiply the pooled rows by. -/
def Engine.pooling : Engine where
  inputs :=
    [.array [10, 3] .float32, .array [6] .float32, .placeholder [.int 4], .array [3, 5] .float32]

namespace Engine

variable {g : Graph} {e : Engine} {shapes : List Shape}

/-- **A run computes the solution of the graph.** The store that a successful
run leaves has an entry for every graph input and tracked output, in the order
of writing and without repetition; it is a solution of the graph's equations
over the concrete inputs; every solution agrees with it on these names; and the
run answers the shapes that it holds for the graph outputs. -/
theorem run_eq_solution (h : (run g e).result = .ok shapes) :
    let s := (run g e).engine.store
    s.names = g.inputs ++ Graph.trackedNames g.nodes ∧ Name.Distinct s.names ∧
      s.assignment.Solution g e.config e.inputs ∧
      (∀ A : Assignment, A.Solution g e.config e.inputs →
        ∀ name, name.isAmong (g.inputs ++ Graph.trackedNames g.nodes) = true →
          A.meta? name = lookup? s name) ∧
      g.outputs.map (fun name => (lookup? s name).map Meta.shape) = shapes.map some := by
  obtain ⟨hvalid, hwalk, hshapes⟩ := run_eq_ok_iff.mp h
  dsimp only
  rw [store_run hvalid]
  obtain ⟨hstore, hnames, _, hsolution⟩ := Graph.walked_walk hwalk
  refine ⟨hnames, hstore.distinct, hsolution, ?_, Graph.outputShapes_eq_ok_iff.mp hshapes⟩
  intro A hA name hname
  rw [← hnames] at hname
  obtain ⟨m, hm⟩ := exists_lookup?_iff.mpr hname
  rw [hm]
  exact Graph.within_walk hwalk hA name m hm

/-- The second output of an embedding bag has no entry. -/
theorem names_run_pooling :
    (run .pooling .pooling).result = .ok [[3, 5], [3, 3]] ∧
      (run .pooling .pooling).engine.store.names
        = ["w", "i", "o", "x", "bags", "r", "y"].map .text := by
  have h : (run .pooling .pooling).result = .ok [[3, 5], [3, 3]] :=
    eq_ok_of_toOption (by decide +kernel)
  exact ⟨h, (run_eq_solution h).1⟩

/-- **The order of the nodes does not matter.** If a run without validation
succeeds, then a run over the same nodes in any order in which operands come
first succeeds with the same shapes and the same entry for every name; and any
two orders that both succeed agree in the same way. -/
theorem run_eq_run_of_perm (hflag : e.config.validateGraph = false)
    (h : (run g e).result = .ok shapes) {nodes : List Node} (hperm : nodes.Perm g.nodes) :
    (Graph.Ordered g.inputs nodes →
      (run (g.withNodes nodes) e).result = .ok shapes ∧
        ∀ name, lookup? (run (g.withNodes nodes) e).engine.store name
          = lookup? (run g e).engine.store name) ∧
    (∀ shapes', (run (g.withNodes nodes) e).result = .ok shapes' →
      shapes' = shapes ∧
        ∀ name, lookup? (run (g.withNodes nodes) e).engine.store name
          = lookup? (run g e).engine.store name) := by
  refine ⟨run_of_perm hflag h hperm, ?_⟩
  intro shapes' h'
  -- A run that succeeds has met its operands in order.
  have ho : Graph.Ordered g.inputs nodes :=
    (Graph.walked_walk (run_eq_ok_iff.mp h').2.1).2.2.1
  obtain ⟨hresult, hsame⟩ := run_of_perm hflag h hperm ho
  rw [h'] at hresult
  exact ⟨Except.ok.inj hresult, hsame⟩

/-- The two independent nodes may change places. -/
theorem run_pooling_swapped :
    (run .pooling .pooling).result = .ok [[3, 5], [3, 3]] ∧
      Graph.Ordered Graph.pooling.inputs [.activate, .pool, .multiply] ∧
      (run (Graph.pooling.withNodes [.activate, .pool, .multiply]) .pooling).result
        = .ok [[3, 5], [3, 3]] := by
  have h : (run .pooling .pooling).result = .ok [[3, 5], [3, 3]] :=
    eq_ok_of_toOption (by decide +kernel)
  have ho : Graph.Ordered Graph.pooling.inputs [.activate, .pool, .multiply] := by decide +kernel
  have hperm : [Node.activate, .pool, .multiply].Perm Graph.pooling.nodes :=
    List.Perm.swap Node.pool Node.activate [.multiply]
  exact ⟨h, ho, ((run_eq_run_of_perm rfl h hperm).1 ho).1⟩

end Engine

end GraphShapes
