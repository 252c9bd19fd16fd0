/-
GraphShapes.Proofs.ReshapeTheorems — what zeros in a reshape's target copy.

A reshape whose target is a constant of the model is converted with the integers of that
constant, and where the target is zero a size of the operand is copied. The size is the
one that is declared when the reshape is converted, so a run finds it in the result
whatever the operand turns out to be (`copied_of_run`); where the operand is not what it
is declared as, the result has the declared size all the same (`not_copied_of_run`).

A reshape that copies sizes becomes a pair: a constant for the target that is resolved,
and a reshape by it. What the pair declares and consumes is in scope from there on, so it
is declared in the graph as it was when the reshape was converted (`value?_pair`).

  §1 Zeros — the target that is resolved, and its sizes in the result.
  §2 Pairs — the reshape behind its target, as a part of a graph.
  §3 Runs  — the sizes that a run finds.
-/
import GraphShapes.Proofs.LiteralTheorems
import GraphShapes.Proofs.RuleTheorems
import GraphShapes.Proofs.ShapeTheorems

namespace GraphShapes.Onnx

open Conversion

/-! ## §1 Zeros -/

namespace Conversion

/-- Where a target is zero, the size that is declared in its place is copied. -/
theorem getElem?_copyZeros? {target sizes resolved : List Int} {i : Nat}
    (h : copyZeros? target sizes = some resolved) (hi : target[i]? = some 0) :
    ∃ d, sizes[i]? = some d ∧ resolved[i]? = some d := by
  induction target, sizes using copyZeros?.induct generalizing resolved i with
  | case1 => cases hi
  | case2 => cases h
  | case3 target size sizes ih =>
    rw [copyZeros?, Option.map_eq_some_iff] at h
    obtain ⟨rest, hrest, rfl⟩ := h
    cases i with
    | zero => exact ⟨size, rfl, rfl⟩
    | succ i => exact ih hrest hi
  | case4 d target sizes hnil hcons ih =>
    rw [copyZeros?.eq_4 _ _ _ hnil hcons, Option.map_eq_some_iff] at h
    obtain ⟨rest, hrest, rfl⟩ := h
    cases i with
    | zero =>
      -- This size is not copied.
      cases hi
      cases sizes with
      | nil => exact (hnil rfl rfl).elim
      | cons size sizes => exact (hcons size sizes rfl rfl).elim
    | succ i =>
      obtain ⟨d, hd, hrest⟩ := ih hrest hi
      rw [List.getElem?_drop, Nat.add_comm] at hd
      exact ⟨d, hd, hrest⟩

end Conversion

/-- A size that a target does not leave open is the one of the result. -/
theorem getElem?_reshape {dims target out : List Int} {i : Nat} {d : Int}
    (h : Shape.reshape dims target = .ok out) (hi : target[i]? = some d) (hopen : d ≠ -1) :
    out[i]? = some d := by
  obtain ⟨_, _, _, rfl⟩ := Shape.reshape_eq_ok_iff.mp h
  rw [List.getElem?_map, hi, Option.map_some, if_neg hopen]

/-! ## §2 Pairs -/

section Pair

variable {c : Conversion} {name : Name} {value : Datum} {node : GraphShapes.Node}
  {ps : List Piece} {x : Name} {v : Value}

/-- The nodes of a pair are in the graph. -/
theorem mem_nodes_pair {other : GraphShapes.Node}
    (h : other ∈ [GraphShapes.Node.fixed name value, node]) :
    other ∈ ((c.add (.pair name value node)).addAll ps).graph.nodes := by
  rw [nodes_addAll, nodes_add]
  exact List.mem_append_left _ (List.mem_append_right _ h)

/-- The constant of a pair is declared as a list of integers, and stays so if names are
written once. -/
theorem valueType_pair
    (hd : Name.Distinct (((c.add (.pair name value node)).addAll ps).graph.inputs ++
      Graph.trackedNames ((c.add (.pair name value node)).addAll ps).graph.nodes)) :
    ((c.add (.pair name value node)).addAll ps).graph.valueType name = .text "int[]" := by
  have hmade : (c.add (.pair name value node)).graph.value? name
      = some { type := .text "int[]", shape := constantShape value } := by
    rw [value?_add, Piece.declared, lookup?_cons, if_pos (Name.same_iff.mpr rfl)]
    rfl
  have hbound : name.isAmong ((c.add (.pair name value node)).graph.inputs ++
      Graph.trackedNames (c.add (.pair name value node)).graph.nodes) = true := by
    rw [Name.isAmong_append, nodes_add, Graph.trackedNames_append, Name.isAmong_append,
      Piece.nodes, Graph.trackedNames_cons, Name.isAmong_append]
    exact Or.inr (Or.inr (Or.inl (Node.isAmong_tracked_fixed name value)))
  rw [Graph.valueType, (Extends.addAll _ ps).values hd name _ hbound hmade]

/-- What the node of a pair consumes was bound in front of it, and stays declared as it was
if names are written once. -/
theorem value?_pair
    (hd : Name.Distinct (((c.add (.pair name value node)).addAll ps).graph.inputs ++
      Graph.trackedNames ((c.add (.pair name value node)).addAll ps).graph.nodes))
    (ho : Graph.Ordered ((c.add (.pair name value node)).addAll ps).graph.inputs
      ((c.add (.pair name value node)).addAll ps).graph.nodes)
    (hx : x ∈ node.inputs) (hother : name.same x = false) (hv : c.graph.value? x = some v) :
    ((c.add (.pair name value node)).addAll ps).graph.value? x = some v := by
  have hdeclared : (c.add (.pair name value node)).graph.value? x = some v := by
    rw [value?_add, Piece.declared, lookup?_cons, hother, hv]
    rfl
  refine (Extends.addAll _ ps).values hd x v ?_ hdeclared
  rw [nodes_addAll, nodes_add, inputs_addAll, Piece.nodes, Graph.ordered_append,
    Graph.ordered_append] at ho
  -- Bound in front of the node is what was before the pair, and its constant.
  have hbound := ho.1.2.2.1 x hx
  rw [List.append_assoc, Name.isAmong_append, Name.isAmong_append] at hbound
  rw [Name.isAmong_append, nodes_add, Graph.trackedNames_append, Name.isAmong_append,
    Piece.nodes, Graph.trackedNames_cons, Name.isAmong_append]
  exact hbound.imp_right (Or.imp_right Or.inl)

end Pair

/-! ## §3 Runs -/

section Runs

variable {m : Model} {g : Graph} {config : Config} {A : Assignment} {t : List Int}

/-- A reshape of the model's own type has no rule. -/
theorem not_solves_of_reshape {node : GraphShapes.Node} (h : node.op = .text "Reshape") :
    ¬ A.Solves g config node := by
  rintro ⟨_, ⟨op, _, htag, _⟩, _⟩
  rw [h] at htag
  cases htag

/-- A reshape that is taken over as it is leaves a graph without a solution. -/
theorem not_solved_of_emitAsIs {c d : Conversion} {n : Node} {settings : Settings}
    {ps : List Piece} (hop : n.op = .text "Reshape") (hasIs : c.emitAsIs n settings = d) :
    ¬ ∀ node ∈ (d.addAll ps).graph.nodes, A.Solves g config node := by
  intro hsolved
  let node : GraphShapes.Node :=
    { op := n.op.toDatum, inputs := n.givenInputs, outputs := n.outputs,
      attributes := settings.map fun entry => (entry.1, entry.2.toDatum) }
  have hadded : c.add (.node node) = d := hasIs
  have hlisted : node ∈ (d.addAll ps).graph.nodes := by
    rw [nodes_addAll, ← hadded, nodes_add]
    exact List.mem_append_left _ (List.mem_append_right _ List.mem_cons_self)
  exact not_solves_of_reshape (congrArg Name.toDatum hop) (hsolved node hlisted)

/-- The equation of a reshape: a tensor, a list of integers, and one result. -/
theorem reshape_of_solves {node : GraphShapes.Node} (h : A.Solves g config node)
    (hop : node.op = .text Operator.reshape.tag) :
    ∃ dims target out, node.inputs.map A.meta? = [some (.tensor dims), some (.ints target)] ∧
      node.tracked.map A.meta? = [some (.tensor out)] ∧ Shape.reshape dims target = .ok out := by
  obtain ⟨results, ⟨op, metas, htag, hmetas, hrule⟩, hresults⟩ := h
  rw [hop, Operator.ofTag?_tag] at htag
  cases htag
  obtain ⟨dims, target, out, rfl, hout, rfl⟩ := Rule.reshaped_eq_ok hrule
  exact ⟨dims, target, out, hmetas, hresults, hout⟩

/-- What is reshaped is a tensor. -/
theorem exists_tensor_of_solves {node : GraphShapes.Node} {data : Name}
    (h : A.Solves g config node) (hop : node.op = .text Operator.reshape.tag)
    (hfirst : node.inputs.head? = some data) : ∃ dims, A.meta? data = some (.tensor dims) := by
  obtain ⟨dims, _, _, hmetas, _⟩ := reshape_of_solves h hop
  obtain ⟨rest, hrest⟩ := List.head?_eq_some_iff.mp hfirst
  rw [hrest] at hmetas
  exact ⟨dims, (List.cons.inj hmetas).1⟩

/-- A reshape of a tensor by a list of integers. -/
theorem exists_reshape_of_solves {data shape y : Name} {outputs : List Name} {ns : List Int}
    (h : A.Solves g config
      { op := .text Operator.reshape.tag, inputs := [data, shape], outputs })
    (hshape : A.meta? shape = some (.ints ns)) (hy : y ∈ outputs) :
    ∃ dims out, A.meta? data = some (.tensor dims) ∧ A.meta? y = some (.tensor out) ∧
      Shape.reshape dims ns = .ok out := by
  obtain ⟨dims, target, out, hmetas, hone, hout⟩ := reshape_of_solves h rfl
  simp only [List.map_cons, List.map_nil, hshape, List.cons.injEq, and_true, Option.some.injEq,
    Meta.ints.injEq] at hmetas
  obtain ⟨hdata, rfl⟩ := hmetas
  -- The rule answers one result, so the node has one output.
  have hvalue : A.meta? y ∈ outputs.map A.meta? := List.mem_map_of_mem hy
  change outputs.map A.meta? = _ at hone
  rw [hone, List.mem_singleton] at hvalue
  exact ⟨dims, out, hdata, hvalue, hout⟩

/-- A reshape of the model whose target is constant and copies sizes where it is zero. -/
inductive Model.Reshapes (m : Model) (data y : Name) (t : List Int) : Prop
  | intro {n : Node} {settings : Settings} {shape : Name} {k : Constant} (mem : n ∈ m.nodes)
      (reshape : n.op = .text "Reshape") (inputs : n.inputs = [data, shape])
      (output : y ∈ n.outputs) (read : n.settings = .ok settings)
      (copies : isSet settings "allowzero" = .ok false) (held : m.Holds shape k)
      (integers : k.integers = .ok t) : Reshapes m data y t

/-- In a graph that is solved, a reshape that copies sizes has become a reshape by a
constant list, in which the zeros are the sizes that were declared when it was added. -/
theorem exists_pair_of_convert {data y : Name} (h : m.convert = .ok g)
    (hsolved : ∀ node ∈ g.nodes, A.Solves g config node)
    (hd : Name.Distinct (Graph.trackedNames g.nodes)) (hr : m.Reshapes data y t) (hzero : 0 ∈ t) :
    ∃ (c : Conversion) (name : Name) (sizes resolved : List Int) (outputs : List Name)
        (ps : List Piece),
      c.declaredSizes? data = some sizes ∧ copyZeros? t sizes = some resolved ∧ y ∈ outputs ∧
      g = ((c.add (.pair name (.list (resolved.map .int))
        { op := .text Operator.reshape.tag, inputs := [data, name], outputs })).addAll
          ps).graph := by
  obtain @⟨n, settings, shape, k, hn, hop, hinputs, hy, hsettings, hset, hheld, ht⟩ := hr
  have htarget : m.targets.contains shape = true := by
    rw [List.contains_iff_mem, Model.targets, List.mem_filterMap]
    exact ⟨n, hn, by simp [hop, hinputs]⟩
  obtain ⟨_, hconverts, rfl⟩ := convert_eq_ok_iff.mp h
  have hnode := hconverts.mem_nodes hheld ht
  rw [if_pos htarget] at hnode
  obtain ⟨c, d, i, ps, hbacked, hadd, rfl⟩ := hconverts.exists_addNode hn
  have hext : c.Extends (d.addAll ps) := by
    obtain ⟨p, _, rfl, _⟩ := exists_piece_of_addNode hadd
    exact (Extends.add c p).trans (.addAll _ ps)
  rw [addNode_of_reshape c m.targets i hop hsettings] at hadd
  unfold addAnyReshape at hadd
  split at hadd
  · next data' shape' hgiven =>
    have hlength : n.givenInputs.length = n.inputs.length := by
      rw [hgiven, hinputs]
      rfl
    have hsame : n.givenInputs = n.inputs := List.filter_sublist.eq_of_length hlength
    cases hgiven.symm.trans (hsame.trans hinputs)
    cases hkept : lookup? c.targets shape with
    | none =>
      rw [hkept] at hadd
      exact (not_solved_of_emitAsIs hop (Except.ok.inj hadd) hsolved).elim
    | some t' =>
      rw [hkept] at hadd
      -- The constant node of the name is one node, so the target is the one it holds.
      cases hbacked.eq hext hd hnode hkept
      obtain ⟨output, sizes, resolved, _, hsizes, hcopy, hall⟩ :=
        exists_pair_of_addReshape (List.contains_iff_mem.mpr hzero) hset hadd
      cases (hall c hsizes).symm.trans hadd
      exact ⟨c, _, sizes, resolved, _, ps, hsizes, hcopy, hy, rfl⟩
  · exact (not_solved_of_emitAsIs hop (Except.ok.inj hadd) hsolved).elim

/-- **Copied sizes.** Let a model have a reshape whose target is constant and copies sizes
where it is zero. If a run over its graph succeeds, then in such a place the result has the
size that the graph declares for the operand, whatever the inputs are. It is the operand's
own size exactly where the operand is what it is declared to be. A size that is declared as
`-1` is left open instead. -/
theorem copied_of_run {validate : Bool} {e : Engine} {shapes : List Shape} {data y : Name}
    (hr : m.Reshapes data y t) (hzero : 0 ∈ t) (h : m.toGraph validate = .ok g)
    (hrun : (Engine.run g e).result = .ok shapes) :
    ∃ dims sizes out : List Int,
      lookup? (Engine.run g e).engine.store data = some (.tensor dims) ∧
      (g.value? data).bind (·.shape.asInts?) = some sizes ∧
      lookup? (Engine.run g e).engine.store y = some (.tensor out) ∧
      ∀ i : Nat, t[i]? = some 0 → ∃ d, sizes[i]? = some d ∧
        (d ≠ -1 → out[i]? = some d ∧ (out[i]? = dims[i]? ↔ dims[i]? = some d)) := by
  obtain ⟨hvalid, hwalk, _⟩ := Engine.run_eq_ok_iff.mp hrun
  obtain ⟨hstore, hnames, hordered, hsolution⟩ := Graph.walked_walk hwalk
  rw [Engine.store_run hvalid]
  generalize (g.walk e.config e.inputs).store = s at hstore hnames hsolution ⊢
  have hd : Name.Distinct (g.inputs ++ Graph.trackedNames g.nodes) := hnames ▸ hstore.distinct
  obtain ⟨c, name, sizes, resolved, outputs, ps, hsizes, hcopy, hy, rfl⟩ :=
    exists_pair_of_convert (toGraph_eq_ok_iff.mp h).1 hsolution.solved
      (Name.distinct_append.mp hd).2.1 hr hzero
  obtain ⟨v, hv, hshape⟩ := Option.bind_eq_some_iff.mp hsizes
  -- The constant that is made for the reshape is known as the target that is resolved.
  have hmade := (solves_integers_iff (valueType_pair hd)).mp
    (hsolution.solved _ (mem_nodes_pair List.mem_cons_self))
  obtain ⟨dims, out, hdata, hout, hreshape⟩ := exists_reshape_of_solves
    (hsolution.solved _ (mem_nodes_pair (List.mem_cons_of_mem _ List.mem_cons_self))) hmade hy
  -- The operand is a tensor, so it is another value, and stays declared as it was.
  have hother : name.same data = false := Assignment.same_eq_false_of_ne hmade hdata nofun
  have hkept := value?_pair hd hordered List.mem_cons_self hother hv
  refine ⟨dims, sizes, out, hdata, by rw [hkept]; exact hshape, hout, fun i hi => ?_⟩
  obtain ⟨d, hd, hresolved⟩ := getElem?_copyZeros? hcopy hi
  refine ⟨d, hd, fun hopen => ?_⟩
  have hcopied := getElem?_reshape hreshape hresolved hopen
  exact ⟨hcopied, by rw [hcopied, eq_comm]⟩

end Runs

/-- A table that is reshaped to the same rows. -/
def Model.tabulating : Model where
  initializers :=
    [(.text "s", { sizes := [2], type := 7, longs := [0, 18446744073709551615] })]
  inputs := [⟨.text "x", some [some 2, some 6]⟩]
  outputs := [⟨.text "y", none⟩]
  nodes :=
    [{ op := .text "Reshape", name := .text "", inputs := ["x", "s"].map .text,
       outputs := [.text "y"], attributes := [] }]

/-- A table of other sizes than it is declared with. -/
def tabulatingEngine : Engine where
  inputs := [.placeholder [.int 3, .int 4]]

/-- The rows are copied, and the columns left open. -/
theorem reshapes_tabulating : Model.tabulating.Reshapes (.text "x") (.text "y") [0, -1] := by
  have hread : Model.tabulating.constants.toOption
      = some [(.text "s", ⟨[2], Element.int64, [.int 0, .int (-1)]⟩)] := by decide +kernel
  exact .intro List.mem_cons_self rfl rfl List.mem_cons_self rfl rfl
    (.initializer (eq_ok_of_toOption hread) List.mem_cons_self) rfl

/-- The table is reshaped to the rows that it is declared with. -/
theorem run_tabulating :
    ∃ g, Model.tabulating.toGraph true = .ok g ∧
      (Engine.run g tabulatingEngine).result = .ok [[2, 6]] ∧
      (g.value? (.text "x")).bind (·.shape.asInts?) = some [2, 6] ∧
      lookup? (Engine.run g tabulatingEngine).engine.store (.text "x") = some (.tensor [3, 4]) ∧
      lookup? (Engine.run g tabulatingEngine).engine.store (.text "y") = some (.tensor [2, 6]) := by
  have hrun : (Model.tabulating.toGraph true).toOption.map (fun g =>
      ((Engine.run g tabulatingEngine).result.toOption,
        (g.value? (.text "x")).bind (·.shape.asInts?),
        ["x", "y"].map fun name =>
          lookup? (Engine.run g tabulatingEngine).engine.store (.text name)))
      = some (some [[2, 6]], some [2, 6], [some (.tensor [3, 4]), some (.tensor [2, 6])]) := by
    decide +kernel
  obtain ⟨g, hg, hg'⟩ := Option.map_eq_some_iff.mp hrun
  simp only [List.map_cons, List.map_nil, Prod.mk.injEq, List.cons.injEq, and_true] at hg'
  exact ⟨g, eq_ok_of_toOption hg, eq_ok_of_toOption hg'.1, hg'.2⟩

/-- **Copied sizes are not always the operand's own.** A table that is declared with two
rows has two when it is reshaped, although it has three. -/
theorem not_copied_of_run :
    ¬ ∀ (m : Model) (g : Graph) (e : Engine) (shapes : List Shape) (data y : Name)
        (t dims out : List Int), m.Reshapes data y t → m.toGraph true = .ok g →
        (Engine.run g e).result = .ok shapes →
        lookup? (Engine.run g e).engine.store data = some (.tensor dims) →
        lookup? (Engine.run g e).engine.store y = some (.tensor out) →
        ∀ i : Nat, t[i]? = some 0 → out[i]? = dims[i]? := by
  intro h
  obtain ⟨g, hg, hrun, _, hx, hy⟩ := run_tabulating
  have hrows := h _ g _ _ _ _ _ _ _ reshapes_tabulating hg hrun hx hy 0 rfl
  cases hrows

/-- The rows of the result are two because two are declared. -/
theorem copied_tabulating :
    ∃ g, Model.tabulating.toGraph true = .ok g ∧
      Model.tabulating.Reshapes (.text "x") (.text "y") [0, -1] ∧
      (Engine.run g tabulatingEngine).result = .ok [[2, 6]] ∧
      ∃ out : Shape, out[0]? = some 2 ∧
        lookup? (Engine.run g tabulatingEngine).engine.store (.text "y") = some (.tensor out) := by
  obtain ⟨g, hg, hrun, hdeclared, _⟩ := run_tabulating
  obtain ⟨dims, sizes, out, _, hsizes, hout, hcopied⟩ :=
    copied_of_run reshapes_tabulating (by decide) hg hrun
  obtain ⟨d, hd, hrows⟩ := hcopied 0 rfl
  rw [hdeclared] at hsizes
  cases hsizes
  cases hd
  exact ⟨g, hg, reshapes_tabulating, hrun, out, (hrows (by decide)).1, hout⟩

end GraphShapes.Onnx
