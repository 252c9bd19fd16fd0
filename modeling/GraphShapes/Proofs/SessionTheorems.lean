/-
GraphShapes.Proofs.SessionTheorems — an engine that is used over and over.

An engine outlives its runs, and the graph that it works on is not its own. In
a `Session` an engine is run and runs again, inputs are bound and nodes inferred
by hand, and between any two of these steps somebody else may change the graph,
the inputs and the options. A step that fails counts as a step: whatever it
left behind is what the next one finds.

Three things hold of every session. A run answers and leaves what a run of a
new engine would (`run_perform_eq_new`), so nothing that came before it matters;
only a graph that fails validation is refused before the past is forgotten. The
store is never anything but appended to between runs, and the shapes that can
be read belong to it (`Coherent`, which every step keeps). And a run that fails
takes away the shapes of the runs before it, unless it is refused for the
graph, where they stay readable (`outputShapes_perform_of_failed_run`).

  §1 Sessions  — steps, and what a step does to the engine.
  §2 Memory    — what a run finds of what came before it.
  §3 Failure   — what can be read after a run that failed.
  §4 Coherence — the invariant of the store and the published shapes.
-/
import GraphShapes.Proofs.ContractTheorems
import GraphShapes.Proofs.DefectTheorems
import GraphShapes.Proofs.GrowthTheorems

namespace GraphShapes

/-! ## §1 Sessions -/

/-- An engine and the graph that it works on. -/
structure Session where
  graph : Graph
  engine : Engine
  /-- The graph outputs as they stood at the last run that succeeded. -/
  answered : List Name := []

namespace Session

/-- What may happen to an engine and its graph. -/
inductive Step where
  | run
  | bindInputs
  | inferNode (node : Node)
  | setInputs (inputs : List Datum)
  | setConfig (config : Config)
  | setGraph (graph : Graph)

/-- A new engine over a graph. -/
def start (graph : Graph) (inputs : List Datum) (config : Config) : Session :=
  { graph, engine := { inputs, config } }

/-- A run of the engine over the graph as they are now. -/
def run (s : Session) : Outcome (List Shape) := s.engine.run s.graph

/-- The session that a step leaves, whether it succeeds or not. -/
def after (s : Session) : Step → Session
  | .run =>
    { s with
      engine := s.run.engine
      answered :=
        match s.run.result with
        | .ok _ => s.graph.outputs
        | .error _ => s.answered }
  | .bindInputs => { s with engine := (s.engine.bindInputs s.graph).engine }
  | .inferNode node => { s with engine := (s.engine.inferNode s.graph node).engine }
  | .setInputs inputs => { s with engine := { s.engine with inputs } }
  | .setConfig config => { s with engine := { s.engine with config } }
  | .setGraph graph => { s with graph }

/-- The session after steps in order. -/
def perform (s : Session) (steps : List Step) : Session := steps.foldl after s

@[simp] theorem perform_nil (s : Session) : s.perform [] = s := rfl

@[simp] theorem perform_cons (s : Session) (step : Step) (rest : List Step) :
    s.perform (step :: rest) = (s.after step).perform rest := rfl

variable {s : Session} {steps : List Step} {step : Step}

/-- Only runs publish shapes or take them away. -/
theorem published_after (h : step ≠ .run) :
    (s.after step).engine.published = s.engine.published := by
  cases step with
  | run => exact absurd rfl h
  | _ => rfl

theorem published_perform (h : .run ∉ steps) :
    (s.perform steps).engine.published = s.engine.published := by
  induction steps generalizing s with
  | nil => rfl
  | cons step rest ih =>
    rw [List.mem_cons, not_or] at h
    rw [perform_cons, ih h.2, published_after (Ne.symm h.1)]

theorem outputShapes_perform (h : .run ∉ steps) :
    (s.perform steps).engine.outputShapes = s.engine.outputShapes := by
  unfold Engine.outputShapes
  rw [published_perform h]

/-- What the last successful run was asked for stays known until the next run. -/
theorem answered_after (h : step ≠ .run) : (s.after step).answered = s.answered := by
  cases step with
  | run => exact absurd rfl h
  | _ => rfl

theorem answered_perform (h : .run ∉ steps) : (s.perform steps).answered = s.answered := by
  induction steps generalizing s with
  | nil => rfl
  | cons step rest ih =>
    rw [List.mem_cons, not_or] at h
    rw [perform_cons, ih h.2, answered_after (Ne.symm h.1)]

/-! ## §2 Memory -/

/-- **A run has no memory.** After any steps, a run answers what a run of a new
engine over the same graph, inputs and options would, and leaves the engine as it
would. The one exception is a graph that fails validation: the answer is the same,
but the engine keeps what it has. -/
theorem run_perform_eq_new (s : Session) (steps : List Step) :
    let t := s.perform steps
    let new := inferShapes t.graph t.engine.inputs t.engine.config
    t.run.result = new.result ∧
      (t.run.engine = new.engine ∨
        ∃ d, t.run.result = .error (Fault.settled (.validation d)) ∧
          (t.graph.NamesWritable → t.run.result = .error (.validation d)) ∧
          t.run.engine = t.engine) := by
  intro t new
  rcases Engine.validate_cases t.graph t.engine with hvalid | ⟨hflag, d, hd⟩
  · have hsame : t.run = new := Engine.run_eq_inferShapes hvalid
    exact ⟨congrArg Outcome.result hsame, Or.inl (congrArg Outcome.engine hsame)⟩
  · have hrun : t.run = ⟨t.engine, .error (Fault.settled (.validation d)), []⟩ :=
      Engine.run_of_validate_eq_error hflag hd
    have hnew : new = ⟨{ inputs := t.engine.inputs, config := t.engine.config },
        .error (Fault.settled (.validation d)), []⟩ :=
      Engine.run_of_validate_eq_error hflag hd
    rw [hrun, hnew]
    refine ⟨rfl, Or.inr ⟨d, rfl, fun hnames => ?_, rfl⟩⟩
    have hwritable : (Fault.validation d).isWritable = true :=
      Graph.isWritable_of_validate hnames hd
    rw [Fault.settled, if_pos hwritable]

/-! ## §3 Failure -/

/-- **Shapes after a run that failed.** Whatever came before a run that failed, and
whatever follows it without another run, no shapes can be read if the graph passed
the validation that was asked for. If it did not, what could be read before can
still be read. -/
theorem outputShapes_perform_of_failed_run {f : Fault} (hrun : s.run.result = .error f)
    (hlater : .run ∉ steps) :
    let t := (s.after .run).perform steps
    ((s.engine.config.validateGraph = true → s.graph.validate = .ok ()) →
        t.engine.outputShapes = .error .notCompleted) ∧
      (¬ (s.engine.config.validateGraph = true → s.graph.validate = .ok ()) →
        t.engine.outputShapes = s.engine.outputShapes) := by
  intro t
  have hread : t.engine.outputShapes = s.run.engine.outputShapes := outputShapes_perform hlater
  rw [hread]
  constructor
  · intro hvalid
    have hnone : s.run.engine.published = none :=
      (Engine.published_run hvalid).trans (congrArg Except.toOption hrun)
    rw [Engine.outputShapes, hnone]
  · intro hrefused
    rcases Engine.validate_cases s.graph s.engine with hvalid | ⟨hflag, d, hd⟩
    · exact absurd hvalid hrefused
    · rw [run, Engine.run_of_validate_eq_error hflag hd]

/-- A successful run, after which an input is replaced by one that the product of
the graph cannot take. -/
def mismatched : Session :=
  (start .pooling Engine.pooling.inputs {}).perform
    [.run, .setInputs (Engine.pooling.inputs.take 3 ++ [.array [4, 5] .float32])]

/-- The next run stops at the product, and no steps by hand bring shapes back. -/
theorem outputShapes_after_mismatch :
    mismatched.engine.outputShapes = .ok [[3, 5], [3, 3]] ∧
      mismatched.run.result.toOption = none ∧
      ((mismatched.after .run).perform [.bindInputs, .inferNode .activate]).engine.outputShapes
        = .error .notCompleted := by
  have hfails : mismatched.run.result.toOption = none := by decide +kernel
  obtain ⟨f, hf⟩ := exists_error_of_toOption hfails
  have hvalid : mismatched.engine.config.validateGraph = true →
      mismatched.graph.validate = .ok () :=
    fun _ => eq_ok_of_toOption (by decide +kernel)
  exact ⟨eq_ok_of_toOption (by decide +kernel), hfails,
    (outputShapes_perform_of_failed_run hf (by simp)).1 hvalid⟩

/-- A successful run, after which a graph output is renamed to a name that is not
declared. -/
def renamed : Session :=
  (start .branching Engine.single.inputs { validateGraph := true }).perform
    [.run, .setGraph { Graph.branching with outputs := [.text "z"] }]

/-- The next run is refused, and the shapes of the run before it can still be read. -/
theorem outputShapes_after_renaming :
    renamed.run.result = .error (.validation (.undeclaredGraphOutput (.text "z"))) ∧
      (renamed.after .run).engine.outputShapes = .ok [[2, 3], [2, 3]] := by
  have hflag : renamed.engine.config.validateGraph = true := by decide +kernel
  have hdefect : renamed.graph.validate = .error (.undeclaredGraphOutput (.text "z")) := by
    decide +kernel
  exact ⟨congrArg Outcome.result (Engine.run_of_validate_eq_error hflag hdefect),
    eq_ok_of_toOption (by decide +kernel)⟩

/-! ## §4 Coherence -/

/-- No name has two entries in the store, and the published shapes are those of the
entries that the graph outputs of the last successful run have now. -/
structure Coherent (s : Session) : Prop where
  distinct : Name.Distinct s.engine.store.names
  answers : ∀ shapes, s.engine.published = some shapes →
    s.answered.map (fun name => (lookup? s.engine.store name).map Meta.shape) = shapes.map some

theorem coherent_start (g : Graph) (inputs : List Datum) (config : Config) :
    (start g inputs config).Coherent :=
  ⟨Name.distinct_nil, nofun⟩

/-- A step by hand adds to the store and touches nothing else, so what was found
for the graph outputs is still found. -/
theorem Coherent.grow (h : s.Coherent) {t : Session} (hstore : s.engine.store.Grows t.engine.store)
    (hpublished : t.engine.published = s.engine.published) (hanswered : t.answered = s.answered) :
    t.Coherent := by
  refine ⟨hstore.distinct h.distinct, fun shapes hshapes => ?_⟩
  have hbefore := h.answers shapes (hpublished ▸ hshapes)
  rw [hanswered, ← hbefore]
  apply List.map_congr_left
  intro name hname
  have hfound : (lookup? s.engine.store name).map Meta.shape ∈ shapes.map some :=
    hbefore ▸ List.mem_map_of_mem hname
  obtain ⟨shape, _, hshape⟩ := List.mem_map.mp hfound
  obtain ⟨m, hm, _⟩ := Option.map_eq_some_iff.mp hshape.symm
  rw [hm, hstore.lookup? hm]

/-- What a step by hand adds comes behind the entries that are there. -/
theorem grows_bindInputs (s : Session) :
    s.engine.store.Grows (s.after .bindInputs).engine.store :=
  Graph.grows_bindInputs s.graph s.engine.inputs s.engine.store

theorem grows_inferNode (s : Session) (node : Node) :
    s.engine.store.Grows (s.after (.inferNode node)).engine.store :=
  Graph.grows_inferNode s.graph s.engine.config s.engine.store node

/-- A run that gets as far as walking makes a session coherent, whatever it was. -/
theorem coherent_run (hvalid : s.engine.config.validateGraph = true → s.graph.validate = .ok ()) :
    (s.after .run).Coherent := by
  have hstore : (s.after .run).engine.store
      = (s.graph.walk s.engine.config s.engine.inputs).store := Engine.store_run hvalid
  refine ⟨?_, fun shapes hshapes => ?_⟩
  · rw [hstore]
    exact Graph.distinct_walk s.graph s.engine.config s.engine.inputs
  · have hresult : s.run.result = .ok shapes :=
      eq_ok_of_toOption ((Engine.published_run hvalid).symm.trans hshapes)
    have hanswered : (s.after .run).answered = s.graph.outputs := by
      simp only [after, hresult]
    rw [hanswered, hstore]
    exact Graph.outputShapes_eq_ok_iff.mp (Engine.run_eq_ok_iff.mp hresult).2.2

/-- **One step.** Every step keeps a session coherent, whether it succeeds or not. -/
theorem Coherent.after (h : s.Coherent) (step : Step) : (s.after step).Coherent := by
  cases step with
  | run =>
    rcases Engine.validate_cases s.graph s.engine with hvalid | ⟨hflag, d, hd⟩
    · exact coherent_run hvalid
    · have hrun : s.run = ⟨s.engine, .error (Fault.settled (.validation d)), []⟩ :=
        Engine.run_of_validate_eq_error hflag hd
      have hsame : s.after .run = s := by
        simp only [Session.after, hrun]
      rwa [hsame]
  | bindInputs => exact h.grow (grows_bindInputs s) rfl rfl
  | inferNode node => exact h.grow (grows_inferNode s node) rfl rfl
  | setInputs => exact ⟨h.distinct, h.answers⟩
  | setConfig => exact ⟨h.distinct, h.answers⟩
  | setGraph => exact ⟨h.distinct, h.answers⟩

theorem Coherent.perform (h : s.Coherent) (steps : List Step) : (s.perform steps).Coherent := by
  induction steps generalizing s with
  | nil => exact h
  | cons step rest ih => exact ih (h.after step)

/-- **The store between runs.** After any steps of a new engine, no name has two
entries in the store; binding or inferring by hand keeps the entries that are there
in front, even if it fails; and shapes that can be read are, position by position,
those of the entries that the graph outputs of the last successful run have now. -/
theorem append_only_perform (g : Graph) (inputs : List Datum) (config : Config)
    (steps : List Step) :
    let s := (start g inputs config).perform steps
    Name.Distinct s.engine.store.names ∧
      s.engine.store <+: (s.after .bindInputs).engine.store ∧
      (∀ node, s.engine.store <+: (s.after (.inferNode node)).engine.store) ∧
      ∀ shapes, s.engine.outputShapes = .ok shapes →
        s.answered.map (fun name => (lookup? s.engine.store name).map Meta.shape)
          = shapes.map some := by
  intro s
  have hs : s.Coherent := (coherent_start g inputs config).perform steps
  refine ⟨hs.distinct, (grows_bindInputs s).kept, fun node => (grows_inferNode s node).kept, ?_⟩
  intro shapes hshapes
  exact hs.answers shapes (Engine.outputShapes_eq_ok_iff.mp hshapes)

end Session

end GraphShapes
