/-
GraphShapes.Proofs.DocumentTheorems — the graph of a document declares what it uses.

A document is read in one pass: its declarations, its nodes one by one, its inputs and
its outputs. Names that come up on the way are declared unless they are already. So
every name in use is declared, declarations stand in the order in which their names came
up first (`keys_of_declares`), and what the document says of a name is kept
(`value?_of_declares`). Validation then has nothing to say about declarations: what is left
of it are names that are output twice and cycles (`checked_of_ofDatum`).

What the fields of a document say is stated apart from how they are read: `Lists` for
names, `Declares` for declarations, `Describes` for nodes. Each has one lemma that says
that reading succeeds with exactly that, and `Reads` is what they add up to.

The names are parts of the document, and what goes over to parts holds of them
(`Reads.parts`). A defect is told by naming a value: where the integers of a document have
texts, so have the names that it uses (`Reads.namesWritable`).

  §1 Fields   — what the fields of a document say.
  §2 Graphs   — the graph that they add up to.
  §3 Parts    — what goes over from a document to the names in it.
  §4 Closure  — declarations, their order, and validation.
-/
import GraphShapes.Document
import GraphShapes.Proofs.DeclarationTheorems
import GraphShapes.Proofs.DefectTheorems
import GraphShapes.Proofs.WritingTheorems

namespace GraphShapes

/-- The names that a graph uses: those of its nodes in node order, inputs before outputs,
and then its own inputs and outputs. -/
def Graph.uses (g : Graph) : List Name :=
  g.nodes.flatMap (fun n => n.inputs ++ n.outputs) ++ (g.inputs ++ g.outputs)

namespace Document

/-! ## §1 Fields -/

/-- The items of a value spell names. -/
def Lists (d : Datum) (names : List Name) : Prop :=
  ∃ ds, d.yields = .ok ds ∧ List.Forall₂ (fun d name => Name.ofDatum? d = some name) ds names

/-- What an entry of a node's attributes says. -/
def Sets (entry : Datum × Datum) (setting : Name × Datum) : Prop :=
  Name.ofDatum? entry.1 = some setting.1 ∧ toAttribute entry.2 = .ok setting.2

/-- What a declaration says: nothing if it is empty, else a type and sizes that may be left
out. -/
inductive Declares : Datum → Value → Prop
  | nothing {spec : Datum} (empty : spec.isTruthy = .ok false) : Declares spec {}
  | fields {es : List (Datum × Datum)} (given : es ≠ []) :
      Declares (.dict es)
        { type := fieldOr es "type" (.text "Tensor"), shape := fieldOr es "shape" .null }

/-- What an entry of the declared values says. -/
def DeclaresEntry (entry : Datum × Datum) (declared : Name × Value) : Prop :=
  Name.ofDatum? entry.1 = some declared.1 ∧ Declares entry.2 declared.2

/-- What a node of a document says. -/
inductive Describes : Datum → Node → Prop
  | intro {es attributes : List (Datum × Datum)} {n : Node}
      (op : Datum.lookup es "op" = some n.op)
      (inputs : Lists (fieldOr es "inputs" (.list [])) n.inputs)
      (outputs : Lists (fieldOr es "outputs" (.list [])) n.outputs)
      (keyed : fieldOr es "attributes" (.dict []) = .dict attributes)
      (settings : List.Forall₂ Sets attributes n.attributes) : Describes (.dict es) n

variable {es : List (Datum × Datum)} {d raw spec : Datum} {g g' : Graph} {n : Node}

theorem entries_eq_ok_iff : entries d = .ok es ↔ d = .dict es := by
  cases d <;> simp [entries]

theorem items_eq_ok_iff {ds : List Datum} : items d = .ok ds ↔ d.yields = .ok ds := by
  rw [items, Fault.ofMisuse, mapError_eq_ok_iff]

theorem toName_eq_ok_iff {name : Name} : toName d = .ok name ↔ Name.ofDatum? d = some name := by
  unfold toName
  cases Name.ofDatum? d <;> simp

/-- A field is read as names when its items spell them. -/
theorem lists_iff {names : List Name} :
    Lists d names ↔ ∃ ds, items d = .ok ds ∧ ds.mapM toName = .ok names := by
  simp only [Lists, items_eq_ok_iff, mapM_eq_ok_iff, toName_eq_ok_iff]

theorem toValue_eq_ok_iff {v : Value} : toValue spec = .ok v ↔ Declares spec v := by
  simp only [toValue, bind_eq_ok_iff, Fault.ofMisuse, mapError_eq_ok_iff]
  constructor
  · rintro ⟨truth, htruth, h⟩
    cases truth with
    | false =>
      cases h
      exact .nothing htruth
    | true =>
      rw [if_pos rfl, bind_eq_ok_iff] at h
      obtain ⟨es, hes, h⟩ := h
      cases entries_eq_ok_iff.mp hes
      cases h
      refine .fields fun hnone => ?_
      rw [hnone] at htruth
      cases htruth
  · rintro (hempty | @⟨es, hgiven⟩)
    · exact ⟨false, hempty, rfl⟩
    · have htruth : (Datum.dict es).isTruthy = .ok true := by
        cases es with
        | nil => exact absurd rfl hgiven
        | cons => rfl
      exact ⟨true, htruth, rfl⟩

theorem toSetting_eq_ok_iff {entry : Datum × Datum} {setting : Name × Datum} :
    (do return (← toName entry.1, ← toAttribute entry.2) : Except Fault (Name × Datum))
      = .ok setting ↔ Sets entry setting := by
  simp only [bind_eq_ok_iff, pure_eq_ok_iff, toName_eq_ok_iff]
  constructor
  · rintro ⟨name, hname, v, hv, rfl⟩
    exact ⟨hname, hv⟩
  · rintro ⟨hname, hv⟩
    exact ⟨_, hname, _, hv, rfl⟩

theorem toAttributes_eq_ok_iff {settings : List (Name × Datum)} :
    toAttributes es = .ok settings ↔ List.Forall₂ Sets es settings := by
  simp only [toAttributes, mapM_eq_ok_iff, toSetting_eq_ok_iff]

/-- The parts of a node are read from the fields of a keyed container. -/
theorem toParts_eq_ok_iff :
    toParts (.dict es) = .ok n ↔
      n.op = fieldOr es "op" .null ∧ Lists (fieldOr es "inputs" (.list [])) n.inputs ∧
        Lists (fieldOr es "outputs" (.list [])) n.outputs ∧
        ∃ attributes, fieldOr es "attributes" (.dict []) = .dict attributes ∧
          List.Forall₂ Sets attributes n.attributes := by
  simp only [toParts, bind_eq_ok_iff, pure_eq_ok_iff, entries_eq_ok_iff, toAttributes_eq_ok_iff,
    lists_iff]
  constructor
  · rintro ⟨ins, hins, outs, houts, attributes, hkeyed, settings, hsettings, inputs, hinputs,
      outputs, houtputs, rfl⟩
    exact ⟨rfl, ⟨ins, hins, hinputs⟩, ⟨outs, houts, houtputs⟩, attributes, hkeyed, hsettings⟩
  · rintro ⟨hop, ⟨ins, hins, hinputs⟩, ⟨outs, houts, houtputs⟩, attributes, hkeyed, hsettings⟩
    refine ⟨ins, hins, outs, houts, attributes, hkeyed, _, hsettings, _, hinputs, _, houtputs, ?_⟩
    rw [← hop]

/-- A node is read from a keyed container that names an operator. -/
theorem toNode_eq_ok_iff {i : Nat} : toNode i raw = .ok n ↔ Describes raw n := by
  simp only [toNode, bind_eq_ok_iff, Fault.ofMisuse, mapError_eq_ok_iff]
  constructor
  · rintro ⟨named, hnamed, h⟩
    cases named with
    | false => cases h
    | true =>
      rw [if_pos rfl] at h
      cases raw with
      | dict es =>
        obtain ⟨hop, hinputs, houtputs, attributes, hkeyed, hsettings⟩ := toParts_eq_ok_iff.mp h
        obtain ⟨op, hlookup⟩ := Option.isSome_iff_exists.mp (Except.ok.inj hnamed)
        refine .intro ?_ hinputs houtputs hkeyed hsettings
        rw [hop, fieldOr, hlookup, Option.getD_some]
      | _ => cases h
  · rintro ⟨hop, hinputs, houtputs, hkeyed, hsettings⟩
    refine ⟨true, congrArg Except.ok (Option.isSome_iff_exists.mpr ⟨_, hop⟩), ?_⟩
    rw [if_pos rfl, toParts_eq_ok_iff]
    refine ⟨?_, hinputs, houtputs, _, hkeyed, hsettings⟩
    rw [fieldOr, hop, Option.getD_some]

/-! ## §2 Graphs -/

/-- The graph with declarations added in order. -/
def declared (g : Graph) (values : List (Name × Value)) : Graph :=
  values.foldl (fun g entry => g.addValue entry.1 entry.2) g

/-- The graph with nodes added in order, each with the names that it uses declared. -/
def extended (g : Graph) (nodes : List Node) : Graph :=
  nodes.foldl (fun g n => (g.addNode n).declareAll (n.inputs ++ n.outputs)) g

theorem addValues_eq_ok_iff :
    addValues g es = .ok g' ↔
      ∃ values, List.Forall₂ DeclaresEntry es values ∧ g' = declared g values := by
  induction es generalizing g with
  | nil => simp [addValues, declared, eq_comm]
  | cons entry rest ih =>
    simp only [addValues, bind_eq_ok_iff, toValue_eq_ok_iff, toName_eq_ok_iff, ih,
      List.forall₂_cons_left_iff]
    constructor
    · rintro ⟨v, hv, name, hname, values, hvalues, rfl⟩
      exact ⟨_, ⟨(name, v), values, ⟨hname, hv⟩, hvalues, rfl⟩, rfl⟩
    · rintro ⟨_, ⟨declared, values, ⟨hname, hv⟩, hvalues, rfl⟩, rfl⟩
      exact ⟨_, hv, _, hname, values, hvalues, rfl⟩

theorem addNodes_eq_ok_iff {raws : List Datum} {i : Nat} :
    addNodes g i raws = .ok g' ↔
      ∃ nodes, List.Forall₂ Describes raws nodes ∧ g' = extended g nodes := by
  induction raws generalizing g i with
  | nil => simp [addNodes, extended, eq_comm]
  | cons raw rest ih =>
    simp only [addNodes, bind_eq_ok_iff, toNode_eq_ok_iff, ih, List.forall₂_cons_left_iff]
    constructor
    · rintro ⟨n, hn, nodes, hnodes, rfl⟩
      exact ⟨_, ⟨n, nodes, hn, hnodes, rfl⟩, rfl⟩
    · rintro ⟨_, ⟨n, nodes, hn, hnodes, rfl⟩, rfl⟩
      exact ⟨n, hn, nodes, hnodes, rfl⟩

section Extended

variable (g : Graph) (nodes : List Node)

@[simp] theorem nodes_extended : (extended g nodes).nodes = g.nodes ++ nodes := by
  induction nodes generalizing g with
  | nil => exact (List.append_nil _).symm
  | cons n rest ih =>
    refine (ih _).trans ?_
    rw [Graph.nodes_declareAll, Graph.addNode, List.append_assoc]
    rfl

@[simp] theorem metadata_extended : (extended g nodes).metadata = g.metadata := by
  induction nodes generalizing g with
  | nil => rfl
  | cons n rest ih => exact (ih _).trans (Graph.metadata_declareAll _ _)

/-- Nodes bring nothing but the names that they use. -/
theorem values_extended :
    (extended g nodes).values
      = (g.declareAll (nodes.flatMap fun n => n.inputs ++ n.outputs)).values := by
  induction nodes generalizing g with
  | nil => rfl
  | cons n rest ih =>
    refine (ih _).trans ?_
    rw [List.flatMap_cons, Graph.declareAll_append]
    refine Graph.values_declareAll_congr ?_ _
    refine Graph.values_declareAll_congr ?_ (n.inputs ++ n.outputs)
    rfl

end Extended

section Declared

variable (g : Graph) (values : List (Name × Value))

@[simp] theorem nodes_declared : (declared g values).nodes = g.nodes := by
  induction values generalizing g with
  | nil => rfl
  | cons entry rest ih => exact ih _

@[simp] theorem metadata_declared : (declared g values).metadata = g.metadata := by
  induction values generalizing g with
  | nil => rfl
  | cons entry rest ih => exact ih _

/-- The last declaration of a name counts. -/
theorem value?_declared (name : Name) :
    (declared g values).value? name = (lookup? values.reverse name).or (g.value? name) := by
  induction values generalizing g with
  | nil => rfl
  | cons entry rest ih =>
    refine (ih _).trans ?_
    rw [Graph.value?_addValue, List.reverse_cons, lookup?_append, Option.or_assoc, lookup?_cons,
      lookup?_nil]
    split <;> rfl

/-- Declarations stand in the order in which their names come up. -/
theorem keys_declared {g : Graph} {ks : List Name} (h : g.keys = ks.eraseDups) :
    (declared g values).keys = (ks ++ (values.map Prod.fst).map Name.key).eraseDups := by
  induction values generalizing g ks with
  | nil => rwa [List.map_nil, List.map_nil, List.append_nil]
  | cons entry rest ih =>
    rw [List.map_cons, List.map_cons, List.append_cons]
    exact ih (Graph.keys_addValue h entry.1 entry.2)

end Declared

/-- The fields of a document add up to a graph: its nodes, inputs and outputs are those of
the document, and its declarations are the document's and then the names in use. -/
inductive Reads (es : List (Datum × Datum)) (g : Graph) : Prop
  | intro {specs : List (Datum × Datum)} {values : List (Name × Value)} {raws : List Datum}
      (metadata : toMetadata (fieldOr es "metadata" (.dict [])) = .ok g.metadata)
      (keyed : fieldOr es "values" (.dict []) = .dict specs)
      (entries : List.Forall₂ DeclaresEntry specs values)
      (row : (fieldOr es "nodes" (.list [])).yields = .ok raws)
      (nodes : List.Forall₂ Describes raws g.nodes)
      (inputs : Lists (fieldOr es "inputs" (.list [])) g.inputs)
      (outputs : Lists (fieldOr es "outputs" (.list [])) g.outputs)
      (declares :
        g.values = ((declared { metadata := g.metadata } values).declareAll g.uses).values)

/-- **Reading.** What is read of a document is what its fields add up to. -/
theorem reads_of_ofFields (h : ofFields es = .ok g) : Reads es g := by
  simp only [ofFields, bind_eq_ok_iff, pure_eq_ok_iff, entries_eq_ok_iff, addValues_eq_ok_iff,
    addNodes_eq_ok_iff, items_eq_ok_iff] at h
  obtain ⟨metadata, hmetadata, specs, hkeyed, _, ⟨values, hvalues, rfl⟩, raws, hrow, _,
    ⟨nodes, hnodes, rfl⟩, ins, hins, outs, houts, inputs, hinputs, outputs, houtputs, rfl⟩ := h
  have hlists : Lists (fieldOr es "inputs" (.list [])) inputs :=
    lists_iff.mpr ⟨ins, items_eq_ok_iff.mpr hins, hinputs⟩
  have hlisted : Lists (fieldOr es "outputs" (.list [])) outputs :=
    lists_iff.mpr ⟨outs, items_eq_ok_iff.mpr houts, houtputs⟩
  refine .intro (by simpa using hmetadata) hkeyed hvalues hrow (by simpa using hnodes)
    (by simpa using hlists) (by simpa using hlisted) ?_
  simp only [Graph.uses, Graph.nodes_declareAll, Graph.inputs_declareAll, Graph.outputs_declareAll,
    Graph.metadata_declareAll, nodes_extended, metadata_extended, nodes_declared,
    metadata_declared, List.nil_append]
  rw [Graph.declareAll_append _ (nodes.flatMap _)]
  refine Graph.values_declareAll_congr ?_ _
  exact values_extended _ nodes

/-! ## §3 Parts -/

variable {names : List Name} {P : Datum → Prop}

/-- A field that is left out counts as an empty list. -/
theorem hereditary_fieldOr (hP : Datum.Hereditary P) (hes : P (.dict es)) (key : String) :
    P (fieldOr es key (.list [])) := by
  unfold fieldOr
  cases h : Datum.lookup es key with
  | none => exact hP.nil
  | some found => exact hP.lookup hes h

theorem Lists.parts (hP : Datum.Hereditary P) (hd : P d) (h : Lists d names) :
    ∀ name ∈ names, P name.toDatum := by
  obtain ⟨ds, hds, hnames⟩ := h
  intro name hname
  obtain ⟨item, hitem, hspells⟩ := exists_of_forall₂_of_mem hnames hname
  rw [Name.toDatum_of_ofDatum? hspells]
  exact hP.yields hd hds item hitem

theorem Describes.parts (hP : Datum.Hereditary P) (hraw : P raw) (h : Describes raw n) :
    ∀ name ∈ n.inputs ++ n.outputs, P name.toDatum := by
  cases h with
  | intro op inputs outputs keyed settings =>
    exact List.forall_mem_append.mpr ⟨inputs.parts hP (hereditary_fieldOr hP hraw _),
      outputs.parts hP (hereditary_fieldOr hP hraw _)⟩

/-- The names that a graph uses are parts of its document. -/
theorem Reads.parts (hP : Datum.Hereditary P) (hd : P (.dict es)) (h : Reads es g) :
    ∀ name ∈ g.uses, P name.toDatum := by
  cases h with
  | intro metadata keyed entries row nodes inputs outputs declares =>
    refine List.forall_mem_append.mpr ⟨fun name hname => ?_, ?_⟩
    · obtain ⟨n, hn, hname⟩ := List.mem_flatMap.mp hname
      obtain ⟨raw, hraw, hdescribes⟩ := exists_of_forall₂_of_mem nodes hn
      exact hdescribes.parts hP
        (hP.yields (hereditary_fieldOr hP hd _) row raw hraw) name hname
    · exact List.forall_mem_append.mpr ⟨inputs.parts hP (hereditary_fieldOr hP hd _),
        outputs.parts hP (hereditary_fieldOr hP hd _)⟩

/-- They have texts if the integers of the document have. -/
theorem Reads.namesWritable (hd : (Datum.dict es).isWritable = true) (h : Reads es g) :
    g.NamesWritable := by
  obtain ⟨hnodes, hends⟩ := List.forall_mem_append.mp (h.parts Datum.hereditary_isWritable hd)
  exact ⟨fun n hn name hname => hnodes name (List.mem_flatMap.mpr ⟨n, hn, hname⟩), hends⟩

/-! ## §4 Closure -/

/-- A document that is to be validated has the same graph, if it is valid. -/
theorem ofDatum_eq_ok_iff {validate : Bool} :
    ofDatum validate d = .ok g ↔
      (∃ es, d = .dict es ∧ ofFields es = .ok g) ∧ (validate = true → g.validate = .ok ()) := by
  cases d with
  | dict es =>
    cases validate with
    | false => simp [ofDatum]
    | true =>
      simp only [ofDatum, bind_eq_ok_iff, Fault.ofValidation, if_true, mapError_eq_ok_iff,
        pure_eq_ok_iff, true_implies, Datum.dict.injEq, exists_eq_left']
      constructor
      · rintro ⟨g, hg, _, hvalid, rfl⟩
        exact ⟨hg, hvalid⟩
      · rintro ⟨hg, hvalid⟩
        exact ⟨g, hg, (), hvalid, rfl⟩
  | _ => simp [ofDatum]

/-- The graph of a document, whether it is checked or not. -/
theorem reads_of_ofDatum {validate : Bool} (h : ofDatum validate d = .ok g) :
    ∃ es, d = .dict es ∧ Reads es g := by
  obtain ⟨⟨es, rfl, hg⟩, -⟩ := ofDatum_eq_ok_iff.mp h
  exact ⟨es, rfl, reads_of_ofFields hg⟩

/-- A graph is checked as a whole once it is read. -/
theorem ofDatum_true_of_ofDatum_false (h : ofDatum false d = .ok g) :
    ofDatum true d = (Fault.ofValidation g.validate).map fun _ => g := by
  cases d with
  | dict es =>
    rw [ofDatum, bind_eq_ok_iff] at h
    obtain ⟨g', hg', h⟩ := h
    cases h
    rw [ofDatum, hg']
    cases hcheck : Fault.ofValidation g.validate with
    | ok u => simp only [bind, Except.bind, if_pos, hcheck, pure, Except.pure, Except.map]
    | error f => simp only [bind, Except.bind, if_pos, hcheck, Except.map]
  | _ => cases h

/-- What is declared is what the document says, or else nothing. -/
theorem value?_of_declares {values : List (Name × Value)}
    (h : g.values = ((declared { metadata := g.metadata } values).declareAll g.uses).values)
    (name : Name) :
    g.value? name
      = (lookup? values.reverse name).or (if name.isAmong g.uses then some {} else none) := by
  have hvalue : g.value? name
      = ((declared { metadata := g.metadata } values).declareAll g.uses).value? name := by
    rw [Graph.value?, h, Graph.value?]
  rw [hvalue, Graph.value?_declareAll, value?_declared]
  exact congrArg (Option.or · _) Option.or_none

theorem keys_of_declares {values : List (Name × Value)}
    (h : g.values = ((declared { metadata := g.metadata } values).declareAll g.uses).values) :
    g.keys = ((values.map Prod.fst ++ g.uses).map Name.key).eraseDups := by
  have hkeys : g.keys = ((declared { metadata := g.metadata } values).declareAll g.uses).keys := by
    rw [Graph.keys, h, Graph.keys]
  have hnone : ({ metadata := g.metadata } : Graph).keys = ([] : List Name).eraseDups := rfl
  rw [hkeys, List.map_append]
  exact Graph.keys_declareAll (keys_declared values hnone) g.uses

/-- Every name in use is declared. -/
theorem declares_of_mem_uses {values : List (Name × Value)}
    (h : g.values = ((declared { metadata := g.metadata } values).declareAll g.uses).values)
    {name : Name} (hname : name ∈ g.uses) : g.declares name = true := by
  rw [← Graph.mem_keys_iff, keys_of_declares h, List.mem_eraseDups]
  exact List.mem_map_of_mem (List.mem_append_right _ hname)

/-- Where every name in use is declared, validation reports an output that repeats or a
cycle. -/
theorem code_of_validate {e : ValidationError} (hall : ∀ name ∈ g.uses, g.declares name = true)
    (h : g.validate = .error e) : e.code = "EDUP_PRODUCER" ∨ e.code = "ECYCLE" := by
  obtain ⟨hnodes, hends⟩ := List.forall_mem_append.mp hall
  have hnode {i : Nat} {n : Node} {name : Name} (hn : g.nodes[i]? = some n)
      (hname : name ∈ n.inputs ++ n.outputs) : g.declares name ≠ false := by
    rw [hnodes name (List.mem_flatMap.mpr ⟨n, List.mem_of_getElem? hn, hname⟩)]
    exact Bool.noConfusion
  have hend {name : Name} (hname : name ∈ g.inputs ++ g.outputs) : g.declares name ≠ false := by
    rw [hends name hname]
    exact Bool.noConfusion
  have hfirst := Graph.firstDefect_of_validate h
  generalize e.code = code, e.node? = node at hfirst ⊢
  cases hfirst with
  | repeatedOutput | producedInput => exact .inl rfl
  | cycle => exact .inr rfl
  | undeclaredInput _ _ consumes =>
    obtain ⟨n, hn, name, hname, hundeclared⟩ := consumes
    exact absurd hundeclared (hnode hn (List.mem_append_left _ hname))
  | undeclaredOutput _ least consumes =>
    obtain hconsumes | ⟨n, hn, name, hname, hundeclared⟩ := least.1
    · exact absurd hconsumes consumes
    · exact absurd hundeclared (hnode hn (List.mem_append_right _ hname))
  | graphInput _ _ mem undeclared => exact absurd undeclared (hend (List.mem_append_left _ mem))
  | graphOutput _ _ _ mem undeclared => exact absurd undeclared (hend (List.mem_append_right _ mem))

/-- To check a graph as well can only show an output that repeats or a cycle. It is told
where the integers of the document have texts. -/
theorem checked_of_ofDatum (h : ofDatum false d = .ok g) :
    ofDatum true d = .ok g ∨
      ∃ e, ofDatum true d = .error (Fault.validation e).settled ∧
        (e.code = "EDUP_PRODUCER" ∨ e.code = "ECYCLE") ∧
        (d.isWritable = true → ofDatum true d = .error (.validation e)) := by
  obtain ⟨es, rfl, hreads⟩ := reads_of_ofDatum h
  have hnames := hreads.namesWritable
  obtain ⟨_, _, _, _, _, _, _, hdeclares⟩ := hreads
  rw [ofDatum_true_of_ofDatum_false h]
  cases hcheck : g.validate with
  | ok _ => exact .inl rfl
  | error e =>
    refine .inr ⟨e, rfl, ?_, fun hwritable => ?_⟩
    · exact code_of_validate (fun _ hname => declares_of_mem_uses hdeclares hname) hcheck
    · have htold : (Fault.validation e).isWritable = true :=
        Graph.isWritable_of_validate (hnames hwritable) hcheck
      exact congrArg Except.error (if_pos htold)

end Document

end GraphShapes
