/-
GraphShapes.Proofs.BakingTheorems — an input whose value is known in advance.

A value can come to a graph as a concrete input, or it can be part of the graph as
a constant. The two ways know it by different means: an input is told by what it is,
a constant by its declared type and an attribute that is read accordingly. For an
integer or truth value, a list of integers and an array they agree
(`Rule.exists_meta_of_constantType?`), and then it does not matter which way is
taken: a run binds the value exactly when a run over the graph with the constant in
front of its nodes computes it, and both find the same (`run_bake`).

Bound or baked, the value enters one equation, so both graphs have the same solutions
(`solution_bake_iff`). They also have the same names and, given that no node outputs
the name, the same order, and `walk_of_solution` carries entries over both ways.

  §1 Constants — which values are constants, and of what declared type.
  §2 Graphs    — `Graph.bake`, its declarations, solutions, names and order.
  §3 Runs      — binding against baking.
-/
import GraphShapes.Proofs.EngineTheorems

namespace GraphShapes

/-! ## §1 Constants -/

/-- The declared type of a constant that is what the value is as an input: an integer
or truth value, a list of integers, or an array. -/
def Datum.constantType? : Datum → Option String
  | .array _ _ => some "Tensor"
  | .list items => (items.mapM Datum.asWhole?).map fun _ => "int[]"
  | .tuple items => (items.mapM Datum.asWhole?).map fun _ => "int[]"
  | d => d.asInt?.map fun _ => "int"

/-- A constant node. -/
def Node.fixed (x : Name) (v : Datum) : Node where
  op := .text "prim::Constant"
  outputs := [x]
  attributes := [(.text "value", v)]

theorem Node.tracked_fixed (x : Name) (v : Datum) : (Node.fixed x v).tracked = [x] := rfl

/-- A constant tracks its name. -/
theorem Node.isAmong_tracked_fixed (x : Name) (v : Datum) :
    x.isAmong (Node.fixed x v).tracked = true :=
  Name.isAmong_of_mem List.mem_cons_self

namespace Rule

variable {x : Name} {v : Datum} {type : String} {ctx : Context}

@[simp] theorem attr_fixed : (Node.fixed x v).attr "value" = .ok v := by
  rw [Node.attr, Node.fixed, lookup?_cons, if_pos (Name.same_iff.mpr rfl)]

theorem asInt?_of_asWhole? {d : Datum} {n : Int} (h : d.asWhole? = some n) :
    d.asInt? = some n := by
  cases d <;> first | exact h | cases h

/-- Whole numbers in a row are the same integers for an input and for an attribute. -/
theorem mapM_asInt?_of_asWhole? {items : List Datum} {ns : List Int}
    (h : items.mapM Datum.asWhole? = some ns) : items.mapM Datum.asInt? = some ns := by
  induction items generalizing ns with
  | nil => exact h
  | cons d rest ih =>
    simp only [List.mapM_cons, Option.bind_eq_bind, Option.bind_eq_some_iff, Option.pure_def,
      Option.some.injEq] at h ⊢
    obtain ⟨n, hn, ns', hns', rfl⟩ := h
    exact ⟨n, asInt?_of_asWhole? hn, ns', ih hns', rfl⟩

/-- **One value, two ways.** A constant of the type that belongs to a value is known as
the value is known as an input. -/
theorem exists_meta_of_constantType? (htype : v.constantType? = some type)
    (hctx : ctx.outputTypes = [.text type]) :
    ∃ m, Input.toMeta v = .ok m ∧ constant (Node.fixed x v) ctx = .ok [m] := by
  have hkind : constantKind ctx = ConstantKind.ofType (.text type) := by
    rw [constantKind, hctx, List.headD_cons]
  unfold constant
  rw [hkind]
  cases v with
  | array sizes element =>
    cases htype
    exact ⟨_, rfl, by simp [ConstantKind.ofType, Node.tensorAttribute]; rfl⟩
  | list items | tuple items =>
    obtain ⟨ns, hns, rfl⟩ := Option.map_eq_some_iff.mp htype
    have hints := mapM_asInt?_of_asWhole? hns
    refine ⟨.ints ns, ?_, ?_⟩
    · simp [Input.toMeta, Datum.asInt?, Datum.isIntegral, Datum.isWhole, Input.ofList,
        Datum.asInts?, hints]
    · simp [ConstantKind.ofType, Node.intsAttribute, Datum.items?, hns]; rfl
  | bool | int | elementInt | elementBool =>
    cases htype
    exact ⟨_, rfl, by simp [ConstantKind.ofType, Node.intAttribute, Datum.asInt?]; rfl⟩
  | elementSpan s =>
    obtain ⟨n, hn, rfl⟩ := Option.map_eq_some_iff.mp htype
    refine ⟨.scalar n, ?_, ?_⟩
    · simp [Input.toMeta, hn]
    · simp [ConstantKind.ofType, Node.intAttribute, hn]; rfl
  | _ => cases htype

end Rule

/-! ## §2 Graphs -/

namespace Graph

variable {g : Graph} {config : Config} {inputs : List Datum} {i : Nat} {x : Name} {v : Datum}
  {decl : Value} {type : String} {A : Assignment}

/-- What is declared of a value is its type afterwards; no other type changes. -/
theorem valueType_addValue (g : Graph) (x : Name) (decl : Value) (name : Name) :
    (g.addValue x decl).valueType name
      = if x.same name then decl.type else g.valueType name := by
  unfold valueType value? addValue
  rw [lookup?_respellEntry]
  by_cases hsame : x.same name = true
  · rw [if_pos hsame, if_pos hsame]
  · rw [if_neg hsame, if_neg hsame]

/-- The graph with the input at a position turned into a constant, under the
declaration that is given for it. -/
def bake (g : Graph) (i : Nat) (x : Name) (v : Datum) (decl : Value) : Graph :=
  { g.addValue x decl with
    inputs := g.inputs.eraseIdx i
    nodes := .fixed x v :: g.nodes }

/-- A node that does not output the name is in the same context as before. -/
theorem context_bake {node : Node} (hfree : x.isAmong node.outputs = false) :
    (g.bake i x v decl).context config node = g.context config node := by
  have htypes : node.outputs.map (g.addValue x decl).valueType
      = node.outputs.map g.valueType := by
    apply List.map_congr_left
    intro name hname
    rw [valueType_addValue, if_neg]
    intro hsame
    rw [← Bool.not_eq_true, Name.isAmong_iff] at hfree
    exact hfree (Name.same_iff.mp hsame ▸ List.mem_map_of_mem hname)
  exact congrArg (Context.mk config.endOffset) htypes

/-- What is assigned to the inputs, input by input. -/
theorem bound_iff_forall₂ {A : Assignment} {inputs : List Datum} {names : List Name} :
    (∃ metas : List Meta, inputs.map Input.toMeta = metas.map .ok ∧
        names.map A.meta? = metas.map some) ↔
      List.Forall₂ (fun d name => ∃ m, Input.toMeta d = .ok m ∧ A.meta? name = some m)
        inputs names := by
  induction inputs generalizing names with
  | nil =>
    rw [List.forall₂_nil_left_iff]
    constructor
    · rintro ⟨metas, hmetas, hnames⟩
      rw [List.map_nil, eq_comm, List.map_eq_nil_iff] at hmetas
      simpa [hmetas] using hnames
    · rintro rfl
      exact ⟨[], rfl, rfl⟩
  | cons d inputs ih =>
    rw [List.forall₂_cons_left_iff]
    constructor
    · rintro ⟨metas, hmetas, hnames⟩
      cases metas with
      | nil => cases hmetas
      | cons m metas =>
        cases names with
        | nil => cases hnames
        | cons name names =>
          rw [List.map_cons, List.map_cons, List.cons.injEq] at hmetas hnames
          exact ⟨name, names, ⟨m, hmetas.1, hnames.1⟩, ih.mp ⟨metas, hmetas.2, hnames.2⟩, rfl⟩
    · rintro ⟨name, names, ⟨m, hm, hname⟩, hrest, rfl⟩
      obtain ⟨metas, hmetas, hnames⟩ := ih.mpr hrest
      exact ⟨m :: metas, by simp [hm, hmetas], by simp [hname, hnames]⟩

/-- The equation of a constant node: the name is known as the value is. -/
theorem solves_fixed_iff (htype : v.constantType? = some type) (hdecl : decl.type = .text type) :
    A.Solves (g.bake i x v decl) config (.fixed x v) ↔
      ∃ m, Input.toMeta v = .ok m ∧ A.meta? x = some m := by
  have hctx : ((g.bake i x v decl).context config (.fixed x v)).outputTypes = [.text type] := by
    show [(g.addValue x decl).valueType x] = _
    rw [valueType_addValue, if_pos (Name.same_iff.mpr rfl), hdecl]
  obtain ⟨m, hm, hconstant⟩ := Rule.exists_meta_of_constantType? (x := x) htype hctx
  have hans : (g.bake i x v decl).Answers config A.meta? (.fixed x v) [m] :=
    ⟨.constant, [], rfl, rfl, hconstant⟩
  have htracked : (Node.fixed x v).tracked = [x] := rfl
  constructor
  · rintro ⟨results, hans', hmap⟩
    rw [← hans.unique hans', htracked] at hmap
    exact ⟨m, hm, by simpa using hmap⟩
  · rintro ⟨m', hm', hx⟩
    rw [hm] at hm'
    cases hm'
    exact ⟨[m], hans, by simp [htracked, hx]⟩

/-- The equation of a node that does not output the name is the same. -/
theorem solves_bake_iff {node : Node} (hfree : x.isAmong node.outputs = false) :
    A.Solves (g.bake i x v decl) config node ↔ A.Solves g config node := by
  unfold Assignment.Solves Answers
  rw [context_bake hfree]

/-- **The equations.** Bound or baked, a value leaves a graph with the same solutions. -/
theorem solution_bake_iff (hx : g.inputs[i]? = some x) (hv : inputs[i]? = some v)
    (htype : v.constantType? = some type) (hdecl : decl.type = .text type)
    (hfree : ∀ node ∈ g.nodes, x.isAmong node.outputs = false) :
    A.Solution (g.bake i x v decl) config (inputs.eraseIdx i) ↔ A.Solution g config inputs := by
  have hnodes : (∀ node ∈ g.nodes, A.Solves (g.bake i x v decl) config node) ↔
      ∀ node ∈ g.nodes, A.Solves g config node :=
    forall₂_congr fun node hnode => solves_bake_iff (hfree node hnode)
  constructor
  · intro h
    have hsolved := List.forall_mem_cons.mp h.solved
    refine ⟨?_, hnodes.mp hsolved.2⟩
    rw [bound_iff_forall₂, forall₂_iff_eraseIdx hv hx]
    exact ⟨(solves_fixed_iff htype hdecl).mp hsolved.1, bound_iff_forall₂.mp h.bound⟩
  · intro h
    have hbound := h.bound
    rw [bound_iff_forall₂, forall₂_iff_eraseIdx hv hx] at hbound
    refine ⟨bound_iff_forall₂.mpr hbound.2, List.forall_mem_cons.mpr ⟨?_, hnodes.mpr h.solved⟩⟩
    exact (solves_fixed_iff htype hdecl).mpr hbound.1

/-- Bound or baked, the same names get an entry. -/
theorem names_bake_perm (hx : g.inputs[i]? = some x) :
    ((g.bake i x v decl).inputs ++ trackedNames (g.bake i x v decl).nodes).Perm
      (g.inputs ++ trackedNames g.nodes) := by
  obtain ⟨hi, rfl⟩ := List.getElem?_eq_some_iff.mp hx
  have hinputs := List.getElem_cons_eraseIdx_perm hi
  exact List.perm_middle.trans (hinputs.append_right (trackedNames g.nodes))

/-- Bound or baked, the operands of the other nodes come first or they do not. -/
theorem ordered_bake_iff (hx : g.inputs[i]? = some x) :
    Ordered (g.bake i x v decl).inputs (g.bake i x v decl).nodes ↔ Ordered g.inputs g.nodes := by
  obtain ⟨hi, rfl⟩ := List.getElem?_eq_some_iff.mp hx
  have hperm : (g.inputs.eraseIdx i ++ [g.inputs[i]]).Perm g.inputs :=
    (List.perm_append_singleton _ _).trans (List.getElem_cons_eraseIdx_perm hi)
  have hamong (name : Name) : name.isAmong (g.inputs.eraseIdx i ++ [g.inputs[i]]) = true ↔
      name.isAmong g.inputs = true := Name.isAmong_perm hperm
  constructor
  · intro h
    exact h.2.mono fun name => (hamong name).mp
  · intro h
    exact ⟨nofun, h.mono fun name => (hamong name).mpr⟩

/-- **Walks.** A walk that binds the value goes through if and only if one over the
graph with the constant does, and then both find the same. -/
theorem walk_bake (config : Config) (hx : g.inputs[i]? = some x) (hv : inputs[i]? = some v)
    (htype : v.constantType? = some type) (hdecl : decl.type = .text type)
    (hfree : ∀ node ∈ g.nodes, x.isAmong node.outputs = false) :
    (((g.bake i x v decl).walk config (inputs.eraseIdx i)).fault = none ↔
        (g.walk config inputs).fault = none) ∧
      ((g.walk config inputs).fault = none → ∀ name,
        lookup? ((g.bake i x v decl).walk config (inputs.eraseIdx i)).store name
          = lookup? (g.walk config inputs).store name) := by
  have hsolution (A : Assignment) :
      A.Solution (g.bake i x v decl) config (inputs.eraseIdx i) ↔ A.Solution g config inputs :=
    solution_bake_iff hx hv htype hdecl hfree
  have hperm : ((g.bake i x v decl).inputs ++ trackedNames (g.bake i x v decl).nodes).Perm
      (g.inputs ++ trackedNames g.nodes) := names_bake_perm hx
  constructor
  · constructor
    · intro h
      obtain ⟨hvalid, hnames, ho, hsol⟩ := walked_walk h
      have hd := (hnames ▸ hvalid.distinct).perm hperm
      exact (walk_of_solution h hd ((ordered_bake_iff hx).mp ho) ((hsolution _).mp hsol)).1
    · intro h
      obtain ⟨hvalid, hnames, ho, hsol⟩ := walked_walk h
      have hd := (hnames ▸ hvalid.distinct).perm hperm.symm
      exact (walk_of_solution h hd ((ordered_bake_iff hx).mpr ho) ((hsolution _).mpr hsol)).1
  · intro h
    obtain ⟨hvalid, hnames, ho, hsol⟩ := walked_walk h
    have hd := (hnames ▸ hvalid.distinct).perm hperm.symm
    obtain ⟨_, hnames', hwithin⟩ :=
      walk_of_solution h hd ((ordered_bake_iff hx).mpr ho) ((hsolution _).mpr hsol)
    refine hwithin.lookup?_eq fun name hname => ?_
    rw [hnames] at hname
    rw [hnames']
    exact (Name.isAmong_perm hperm).mpr hname

end Graph

/-! ## §3 Runs -/

/-- A tensor under a shape that is an input as well. -/
def Graph.reshaping : Graph where
  nodes := [{ op := .text "aten::reshape", inputs := ["t", "s"].map .text, outputs := [.text "y"] }]
  inputs := ["s", "t"].map .text
  outputs := [.text "y"]

namespace Engine

variable {g : Graph} {e : Engine}

/-- The engine without the concrete input at a position. -/
def dropInput (e : Engine) (i : Nat) : Engine := { e with inputs := e.inputs.eraseIdx i }

/-- **Binding and baking agree.** Take an input of a graph that no node outputs, whose
concrete value is an integer or truth value, a list of integers or an array, and turn it
into a constant of the type that belongs to the value, in front of all nodes. A run
without validation succeeds on the new graph, without that input, if and only if one on
the old graph succeeds, with the same output shapes; and then every name has the same
entry, or none, after both. -/
theorem run_bake {i : Nat} {x : Name} {v : Datum} {decl : Value} {type : String}
    (hflag : e.config.validateGraph = false) (hx : g.inputs[i]? = some x)
    (hv : e.inputs[i]? = some v) (htype : v.constantType? = some type)
    (hdecl : decl.type = .text type) (hfree : ∀ node ∈ g.nodes, x.isAmong node.outputs = false) :
    let baked := run (g.bake i x v decl) (e.dropInput i)
    (∀ shapes, baked.result = .ok shapes ↔ (run g e).result = .ok shapes) ∧
      ∀ shapes, (run g e).result = .ok shapes → ∀ name,
        lookup? baked.engine.store name = lookup? (run g e).engine.store name := by
  intro baked
  have hoff := validate_of_flag hflag
  have hstore : baked.engine.store
      = ((g.bake i x v decl).walk e.config (e.inputs.eraseIdx i)).store := store_run (hoff _)
  obtain ⟨hiff, hsame⟩ := Graph.walk_bake e.config hx hv htype hdecl hfree
  have hshapes (hwalk : (g.walk e.config e.inputs).fault = none) (shapes : List Shape) :
      (g.bake i x v decl).outputShapes
          ((g.bake i x v decl).walk e.config (e.inputs.eraseIdx i)).store = .ok shapes ↔
        g.outputShapes (g.walk e.config e.inputs).store = .ok shapes := by
    rw [Graph.outputShapes_eq_ok_iff, Graph.outputShapes_eq_ok_iff]
    simp only [hsame hwalk]
    exact Iff.rfl
  refine ⟨fun shapes => ?_, fun shapes h name => ?_⟩
  · rw [run_eq_ok_iff, run_eq_ok_iff]
    constructor
    · rintro ⟨_, hbaked, hok⟩
      have hwalk := hiff.mp hbaked
      exact ⟨hoff _, hwalk, (hshapes hwalk shapes).mp hok⟩
    · rintro ⟨_, hwalk, hok⟩
      exact ⟨hoff _, hiff.mpr hwalk, (hshapes hwalk shapes).mpr hok⟩
  · rw [hstore, store_run (hoff _)]
    exact hsame (run_eq_ok_iff.mp h).2.1 name

/-- The shape may as well be a constant of the graph, with one size left open. -/
theorem run_reshaping_bake :
    let v : Datum := .tuple [.int 3, .int (-1)]
    let e : Engine := { inputs := [v, .array [2, 3] .float32] }
    (run .reshaping e).result = .ok [[3, 2]] ∧ v.constantType? = some "int[]" ∧
      (∀ node ∈ Graph.reshaping.nodes, Name.isAmong (.text "s") node.outputs = false) ∧
      let baked :=
        run (Graph.reshaping.bake 0 (.text "s") v { type := .text "int[]" }) (e.dropInput 0)
      baked.result = .ok [[3, 2]] ∧
        lookup? baked.engine.store (.text "s")
          = lookup? (run .reshaping e).engine.store (.text "s") := by
  intro v e
  have h : (run .reshaping e).result = .ok [[3, 2]] := eq_ok_of_toOption (by decide +kernel)
  have hfree : ∀ node ∈ Graph.reshaping.nodes, Name.isAmong (.text "s") node.outputs = false := by
    decide +kernel
  have htype : v.constantType? = some "int[]" := rfl
  have hx : Graph.reshaping.inputs[0]? = some (.text "s") := rfl
  have hv : e.inputs[0]? = some v := rfl
  have hdecl : ({ type := .text "int[]" } : Value).type = .text "int[]" := rfl
  obtain ⟨hresult, hsame⟩ := run_bake rfl hx hv htype hdecl hfree
  exact ⟨h, htype, hfree, (hresult [[3, 2]]).mpr h, hsame [[3, 2]] h (.text "s")⟩

end Engine

end GraphShapes
