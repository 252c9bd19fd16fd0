/-
GraphShapes.Proofs.InfluenceTheorems — what an input can influence.

Two runs over one graph start from different concrete inputs. If the values
that they bind differ only at the names `K`, then what they find can differ only
`Downstream` of `K`: at the names of `K`, and at the outputs of nodes that
consume a name downstream of `K`. Everywhere else the stores agree
(`lookup?_run_eq_of_not_downstream`), however much they differ.

The two walks are followed side by side. A node with an operand downstream
writes names that are downstream, so its results do not matter
(`Store.AgreeOff.append_zip`); a node without one finds the same operands in both
stores and gives the same results (`agreeOff_inferNode`).

  §1 Agreement  — stores that hold the same outside some names.
  §2 Downstream — the names that a change reaches.
  §3 Two walks  — binding, one node, nodes, and walks side by side.
  §4 Two runs   — entries and output shapes.
-/
import GraphShapes.Proofs.ContractTheorems

namespace GraphShapes

/-! ## §1 Agreement -/

/-- Under every name outside `P` the stores hold the same. -/
def Store.AgreeOff (P : Name → Prop) (s t : Store) : Prop :=
  ∀ name, ¬ P name → lookup? s name = lookup? t name

namespace Store

variable {P Q : Name → Prop} {s t : Store}

theorem AgreeOff.mono (h : AgreeOff P s t) (hPQ : ∀ name, P name → Q name) : AgreeOff Q s t :=
  fun name hname => h name fun hP => hname (hPQ name hP)

theorem AgreeOff.append (h : AgreeOff P s t) (entries : Store) :
    AgreeOff P (s ++ entries) (t ++ entries) := by
  intro name hname
  rw [lookup?_append, lookup?_append, h name hname]

/-- What is written under names of `P` does not matter. -/
theorem AgreeOff.append_zip (h : AgreeOff P s t) {names : List Name} {ms ms' : List Meta}
    (hlen : ms.length = names.length) (hlen' : ms'.length = names.length)
    (hnames : ∀ name : Name, name.isAmong names = true → P name) :
    AgreeOff P (s ++ names.zip ms) (t ++ names.zip ms') := by
  intro name hname
  have hnone : ∀ {values : List Meta}, values.length = names.length →
      lookup? (names.zip values) name = none := by
    intro values hvalues
    rw [lookup?_eq_none_iff, ← Store.names, Store.names_zip hvalues, ← Name.isAmong_iff]
    exact fun hamong => hname (hnames name hamong)
  rw [lookup?_append, lookup?_append, hnone hlen, hnone hlen', h name hname]

/-- Names paired with values that differ only at names among `K`. -/
theorem agreeOff_zip {K : List Name} : ∀ {names : List Name} {ms ms' : List Meta},
    ms.length = names.length → ms'.length = names.length →
      (∀ (i : Nat) (name : Name) (m m' : Meta), names[i]? = some name → ms[i]? = some m →
        ms'[i]? = some m' → name.isAmong K = true ∨ m = m') →
      AgreeOff (·.isAmong K = true) (names.zip ms) (names.zip ms')
  | [], _, _, _, _, _ => fun _ _ => rfl
  | n :: names, m :: ms, m' :: ms', hlen, hlen', h => by
    have hrest : AgreeOff (·.isAmong K = true) (names.zip ms) (names.zip ms') :=
      agreeOff_zip (Nat.succ.inj hlen) (Nat.succ.inj hlen') fun i => h (i + 1)
    intro name hname
    rw [List.zip_cons_cons, List.zip_cons_cons, lookup?_cons, lookup?_cons]
    split
    · next hsame =>
      rcases h 0 n m m' rfl rfl rfl with hamong | rfl
      · rw [Name.isAmong_congr (Name.same_iff.mp hsame)] at hamong
        exact absurd hamong hname
      · rfl
    · exact hrest name hname

end Store

/-! ## §2 Downstream -/

namespace Graph

/-- The names that a change at the names `K` may reach: those of `K`, and the
outputs of nodes that consume a name which the change may reach. -/
inductive Downstream (g : Graph) (K : List Name) : Name → Prop
  | changed {name : Name} (among : name.isAmong K = true) : Downstream g K name
  | consumed {node : Node} {source name : Name} (mem : node ∈ g.nodes)
      (consumes : source ∈ node.inputs) (reached : Downstream g K source)
      (outputs : name.isAmong node.outputs = true) : Downstream g K name

variable {g : Graph} {K : List Name} {config : Config} {s t : Store} {node : Node}
  {nodes : List Node} {inputs inputs' : List Datum}

/-- A change reaches none of the names `U` if it is not made there and every node
that outputs one of them consumes nothing else. -/
theorem not_downstream_of_closed {U : List Name} (hK : ∀ name ∈ K, name.isAmong U = false)
    (hU : ∀ node ∈ g.nodes, ∀ name ∈ node.outputs, name.isAmong U = true →
      ∀ source ∈ node.inputs, source.isAmong U = true)
    {name : Name} (hname : name.isAmong U = true) : ¬ g.Downstream K name := by
  intro hdown
  induction hdown with
  | changed hamong =>
    obtain ⟨n, hn, hkey⟩ := List.mem_map.mp (Name.isAmong_iff.mp hamong)
    rw [← Name.isAmong_congr hkey, hK n hn] at hname
    cases hname
  | consumed hnode hsource _ houtputs ih =>
    obtain ⟨n, hn, hkey⟩ := List.mem_map.mp (Name.isAmong_iff.mp houtputs)
    rw [← Name.isAmong_congr hkey] at hname
    exact ih (hU _ hnode n hn hname _ hsource)

/-- Two lists of concrete inputs give the graph inputs the same values, except for
those among `K`. -/
def DifferOnlyAt (g : Graph) (K : List Name) (inputs inputs' : List Datum) : Prop :=
  ∀ (i : Nat) (name : Name) (d d' : Datum), g.inputs[i]? = some name → inputs[i]? = some d →
    inputs'[i]? = some d' → name.isAmong K = true ∨ Input.toMeta d = Input.toMeta d'

/-! ## §3 Two walks -/

/-- The value of an input that is bound. -/
theorem exists_input_of_map_toMeta {metas : List Meta} {i : Nat} {m : Meta}
    (h : inputs.map Input.toMeta = metas.map .ok) (hm : metas[i]? = some m) :
    ∃ d, inputs[i]? = some d ∧ Input.toMeta d = .ok m := by
  have hat : (inputs.map Input.toMeta)[i]? = some (.ok m) := by
    rw [h, List.getElem?_map, hm, Option.map_some]
  rwa [List.getElem?_map, Option.map_eq_some_iff] at hat

theorem agreeOff_bindInputs (hK : g.DifferOnlyAt K inputs inputs')
    (h : (g.bindInputs inputs []).fault = none) (h' : (g.bindInputs inputs' []).fault = none) :
    (g.bindInputs inputs []).store.AgreeOff (·.isAmong K = true)
      (g.bindInputs inputs' []).store := by
  obtain ⟨metas, hmetas, hlen, _⟩ := (fault_bindInputs_eq_none_iff Store.valid_nil).mp h
  obtain ⟨metas', hmetas', hlen', _⟩ := (fault_bindInputs_eq_none_iff Store.valid_nil).mp h'
  rw [store_bindInputs h hmetas, store_bindInputs h' hmetas', List.nil_append, List.nil_append]
  refine Store.agreeOff_zip hlen hlen' fun i name m m' hname hm hm' => ?_
  obtain ⟨d, hd, hdm⟩ := exists_input_of_map_toMeta hmetas hm
  obtain ⟨d', hd', hdm'⟩ := exists_input_of_map_toMeta hmetas' hm'
  refine (hK i name d d' hname hd hd').imp_right fun hsame => ?_
  rw [hdm, hdm'] at hsame
  exact Except.ok.inj hsame

/-- **One node.** Stores that agree off what is downstream still do after a node that
both of them take. -/
theorem agreeOff_inferNode (hnode : node ∈ g.nodes) (hst : s.AgreeOff (g.Downstream K) t)
    (h : (g.inferNode config s node).fault = none)
    (h' : (g.inferNode config t node).fault = none) :
    (g.inferNode config s node).store.AgreeOff (g.Downstream K)
      (g.inferNode config t node).store := by
  obtain ⟨results, hans, hlen, hstore⟩ := exists_store_inferNode h
  obtain ⟨results', hans', hlen', hstore'⟩ := exists_store_inferNode h'
  rw [hstore, hstore']
  by_cases hreached : ∃ source ∈ node.inputs, g.Downstream K source
  · obtain ⟨source, hsource, hdown⟩ := hreached
    refine hst.append_zip hlen hlen' fun name hname => ?_
    exact .consumed hnode hsource hdown (isAmong_outputs hname)
  · -- No operand is downstream, so both stores know the same of all of them.
    have hsame : node.inputs.map (lookup? s) = node.inputs.map (lookup? t) :=
      List.map_congr_left fun name hname => hst name fun hdown => hreached ⟨name, hname, hdown⟩
    rw [(hans.congr hsame).unique hans']
    exact hst.append _

theorem agreeOff_inferNodes (hnodes : ∀ node ∈ nodes, node ∈ g.nodes)
    (hst : s.AgreeOff (g.Downstream K) t) (h : (g.inferNodes config s nodes).fault = none)
    (h' : (g.inferNodes config t nodes).fault = none) :
    (g.inferNodes config s nodes).store.AgreeOff (g.Downstream K)
      (g.inferNodes config t nodes).store := by
  induction nodes generalizing s t with
  | nil => exact hst
  | cons node rest ih =>
    rw [List.forall_mem_cons] at hnodes
    rw [inferNodes, Progress.fault_andThen_eq_none_iff] at h h'
    rw [inferNodes, inferNodes, Progress.store_andThen h.1, Progress.store_andThen h'.1]
    exact ih hnodes.2 (agreeOff_inferNode hnodes.1 hst h.1 h'.1) h.2 h'.2

/-- **Walks.** Walks from inputs that differ only at `K` agree off what is downstream
of `K`. -/
theorem agreeOff_walk (hK : g.DifferOnlyAt K inputs inputs')
    (h : (g.walk config inputs).fault = none) (h' : (g.walk config inputs').fault = none) :
    (g.walk config inputs).store.AgreeOff (g.Downstream K) (g.walk config inputs').store := by
  rw [walk, Progress.fault_andThen_eq_none_iff] at h h'
  rw [walk, walk, Progress.store_andThen h.1, Progress.store_andThen h'.1]
  have hbound := (agreeOff_bindInputs hK h.1 h'.1).mono fun _ => Downstream.changed (g := g)
  exact agreeOff_inferNodes (fun _ hnode => hnode) hbound h.2 h'.2

end Graph

/-! ## §4 Two runs -/

/-- A chain of two nodes, the second of which consumes a second input. -/
def Graph.joining : Graph where
  nodes :=
    [{ op := .text "aten::relu", inputs := [.text "u"], outputs := [.text "a"] },
     { op := .text "aten::add", inputs := ["a", "v"].map .text, outputs := [.text "b"] }]
  inputs := ["u", "v"].map .text
  outputs := ["b", "a"].map .text

namespace Engine

variable {g : Graph} {e e' : Engine} {shapes shapes' : List Shape}

/-- The shape that a run answers for a graph output is that of the output's entry. -/
theorem getElem?_shapes_of_run {i : Nat} {name : Name} (h : (run g e).result = .ok shapes)
    (hname : g.outputs[i]? = some name) :
    shapes[i]? = (lookup? (run g e).engine.store name).map Meta.shape := by
  obtain ⟨hvalid, _, hshapes⟩ := run_eq_ok_iff.mp h
  have hall := Graph.outputShapes_eq_ok_iff.mp hshapes
  rw [← store_run hvalid] at hall
  have hat := congrArg (·[i]?) hall
  simp only [List.getElem?_map, hname, Option.map_some] at hat
  obtain ⟨shape, hshape, hsome⟩ := Option.map_eq_some_iff.mp hat.symm
  rw [hshape, hsome]

/-- **An input influences only what is downstream of it.** If two runs over one graph
with the same options succeed and their inputs give the graph inputs the same values
except at `K`, then every name that is not downstream of `K` has the same entry, or
none, after both, and every graph output that is not downstream of `K` has the same
shape. -/
theorem lookup?_run_eq_of_not_downstream {K : List Name} (hconfig : e.config = e'.config)
    (h : (run g e).result = .ok shapes) (h' : (run g e').result = .ok shapes')
    (hK : g.DifferOnlyAt K e.inputs e'.inputs) :
    (∀ name, ¬ g.Downstream K name →
      lookup? (run g e).engine.store name = lookup? (run g e').engine.store name) ∧
      ∀ (i : Nat) (name : Name), g.outputs[i]? = some name → ¬ g.Downstream K name →
        shapes[i]? = shapes'[i]? := by
  obtain ⟨hvalid, hwalk, _⟩ := run_eq_ok_iff.mp h
  obtain ⟨hvalid', hwalk', _⟩ := run_eq_ok_iff.mp h'
  have hagree : ∀ name, ¬ g.Downstream K name →
      lookup? (run g e).engine.store name = lookup? (run g e').engine.store name := by
    rw [store_run hvalid, store_run hvalid']
    rw [← hconfig] at hwalk' ⊢
    exact Graph.agreeOff_walk hK hwalk hwalk'
  refine ⟨hagree, fun i name hname hdown => ?_⟩
  rw [getElem?_shapes_of_run h hname, getElem?_shapes_of_run h' hname, hagree name hdown]

/-- The second input of the chain changes its end and nothing in front of it. -/
theorem lookup?_run_joining :
    let e : Engine := { inputs := [.array [2, 3] .float32, .array [3] .float32] }
    let e' : Engine := { inputs := [.array [2, 3] .float32, .array [4, 1, 3] .float32] }
    (run .joining e).result = .ok [[2, 3], [2, 3]] ∧
      (run .joining e').result = .ok [[4, 2, 3], [2, 3]] ∧
      ¬ Graph.joining.Downstream [.text "v"] (.text "a") ∧
      lookup? (run .joining e).engine.store (.text "a")
        = lookup? (run .joining e').engine.store (.text "a") := by
  intro e e'
  have h : (run .joining e).result = .ok [[2, 3], [2, 3]] := eq_ok_of_toOption (by decide +kernel)
  have h' : (run .joining e').result = .ok [[4, 2, 3], [2, 3]] :=
    eq_ok_of_toOption (by decide +kernel)
  have hK : Graph.joining.DifferOnlyAt [.text "v"] e.inputs e'.inputs := by
    intro i name d d' hname hd hd'
    match i with
    | 0 => cases hd; cases hd'; exact Or.inr rfl
    | 1 => cases hname; exact Or.inl (by decide)
    | _ + 2 => cases hname
  have hfree : ¬ Graph.joining.Downstream [.text "v"] (.text "a") :=
    Graph.not_downstream_of_closed (U := [.text "u", .text "a"]) (by decide +kernel)
      (by decide +kernel) (by decide)
  have hconfig : e.config = e'.config := rfl
  have hagree := lookup?_run_eq_of_not_downstream hconfig h h' hK
  exact ⟨h, h', hfree, hagree.1 (.text "a") hfree⟩

end Engine

end GraphShapes
