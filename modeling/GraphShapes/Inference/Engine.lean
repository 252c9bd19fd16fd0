/-
GraphShapes.Inference.Engine — runs and what they leave behind.

An engine keeps the inputs and options of its runs, the store of the last run
and what was written by hand since, and the output shapes of the last run if
that run completed. A run forgets everything that came before it, unless the
graph fails validation, which happens before anything is touched.
-/
import GraphShapes.Graph.Validity
import GraphShapes.Inference.Walk

namespace GraphShapes

/-- The state of an engine between operations. -/
structure Engine where
  inputs : List Datum
  config : Config := {}
  store : Store := []
  /-- The output shapes of the last run, if it completed. -/
  published : Option (List Shape) := none
  deriving Repr, Inhabited

/-- The engine that an operation leaves, its result and its log. -/
structure Outcome (α : Type) where
  engine : Engine
  result : Except Fault α
  log : List Log.Record := []

namespace Engine

/-- The line that a completed run writes to the log. -/
def summary (g : Graph) (s : Store) : Log.Record :=
  ⟨.info, Store.logger,
    "inferred " ++ Decimal.render s.length ++ " values over " ++ Decimal.render g.nodes.length
      ++ " nodes"⟩

/-- The end of a run whose walk has made some progress. -/
def finish (g : Graph) (e : Engine) (p : Progress) : Outcome (List Shape) :=
  let e := { e with store := p.store, published := none }
  match p.fault with
  | some f => ⟨e, .error f, p.log⟩
  | none =>
    match g.outputShapes p.store with
    | .error f => ⟨e, .error f, p.log⟩
    | .ok shapes => ⟨{ e with published := some shapes }, .ok shapes, p.log ++ [summary g p.store]⟩

/-- A run over a graph. -/
def run (g : Graph) (e : Engine) : Outcome (List Shape) :=
  match (if e.config.validateGraph then g.validate else .ok ()) with
  | .error d => ⟨e, .error (Fault.settled (.validation d)), []⟩
  | .ok () => finish g e (g.walk e.config e.inputs)

/-- The engine and the result of a step by hand. -/
def afterStep (e : Engine) (p : Progress) : Outcome Unit :=
  ⟨{ e with store := p.store },
    match p.fault with
    | some f => .error f
    | none => .ok (),
    p.log⟩

/-- Binds the engine's inputs by hand. -/
def bindInputs (g : Graph) (e : Engine) : Outcome Unit :=
  e.afterStep (g.bindInputs e.inputs e.store)

/-- Infers one node by hand. -/
def inferNode (g : Graph) (node : Node) (e : Engine) : Outcome Unit :=
  e.afterStep (g.inferNode e.config e.store node)

/-- The output shapes of the last run. -/
def outputShapes (e : Engine) : Except Fault (List Shape) :=
  match e.published with
  | some shapes => .ok shapes
  | none => .error .notCompleted

end Engine

/-- A run of a new engine. -/
def inferShapes (g : Graph) (inputs : List Datum) (config : Config := {}) :
    Outcome (List Shape) :=
  Engine.run g { inputs, config }

end GraphShapes
