/-
GraphShapes.Proofs.ScopeTheorems — a converted model keeps its names in scope.

A graph is `Graph.IsScoped` if its names are distinct and declared, and every node
consumes what is bound in front of it. Such a graph is valid, and a run over it never
meets a value too early, too late or twice (`IsScoped.result_run_ne_consistency`).

The conversion of a model keeps graphs scoped, piece by piece: a piece whose names are
new and whose operands are bound leaves a scoped graph (`IsScoped.add`). A node's piece
brings the outputs of the node, and sometimes a name made of the first of them, so it
is enough that the names of the model and the names made of its outputs are distinct
(`isScoped_addAll`). With texts for names the latter are distinct by themselves
(`distinct_derivedNames`).

  §1 Scoped graphs — `Graph.IsScoped`, validity and runs.
  §2 Derived names — names made of outputs.
  §3 Pieces        — what a piece keeps, and pieces in a row.
  §4 Models        — `Model.IsOrdered`, and the graphs of such models.
-/
import GraphShapes.Proofs.ConversionTheorems

namespace GraphShapes

/-! ## §1 Scoped graphs -/

namespace Graph

/-- The names that a graph binds. -/
def scope (g : Graph) : List Name := g.inputs ++ allOutputs g.nodes

/-- The names of the graph are distinct and declared, and operands come first. -/
structure IsScoped (g : Graph) : Prop where
  distinct : Name.Distinct g.scope
  ordered : Ordered g.inputs g.nodes
  plain : ∀ node ∈ g.nodes, node.op ≠ .text "aten::embedding_bag"
  declared : ∀ name ∈ g.scope, g.declares name = true

variable {g : Graph}

theorem declares_congr {a b : Name} (hkey : a.key = b.key) : g.declares a = g.declares b := by
  rw [declares, declares, value?, value?, lookup?_congr g.values hkey]

namespace IsScoped

/-- What is in scope is declared, however it is spelled. -/
theorem declares (h : g.IsScoped) {name : Name} (hname : name.isAmong g.scope = true) :
    g.declares name = true := by
  obtain ⟨spelled, hspelled, hkey⟩ := List.mem_map.mp (Name.isAmong_iff.mp hname)
  rw [← declares_congr hkey]
  exact h.declared spelled hspelled

/-- What a node consumes is in scope. -/
theorem isAmong_of_mem_inputs (h : g.IsScoped) {node : GraphShapes.Node} (hnode : node ∈ g.nodes)
    {name : Name} (hname : name ∈ node.inputs) : name.isAmong g.scope = true := by
  have hfrom := isAmong_trackedNames_of_ordered h.ordered node hnode name hname
  rwa [trackedNames_eq_allOutputs h.plain] at hfrom

/-- A scoped graph is valid if its outputs are in scope. -/
theorem validate (h : g.IsScoped) (houtputs : ∀ name ∈ g.outputs, name.isAmong g.scope = true) :
    g.validate = .ok () := by
  refine validate_of_ordered h.distinct h.ordered ?_ ?_
  · intro node hnode name hname
    rcases List.mem_append.mp hname with hin | hout
    · exact h.declares (h.isAmong_of_mem_inputs hnode hin)
    · exact h.declared name (List.mem_append_right _ (List.mem_flatMap.mpr ⟨node, hnode, hout⟩))
  · intro name hname
    rcases List.mem_append.mp hname with hin | hout
    · exact h.declared name (List.mem_append_left _ hin)
    · exact h.declares (houtputs name hout)

/-- A run over a scoped graph whose outputs are in scope keeps consistency. -/
theorem result_run_ne_consistency (h : g.IsScoped)
    (houtputs : ∀ name ∈ g.outputs, name.isAmong g.scope = true) (e : Engine)
    (c : ConsistencyError) : (Engine.run g e).result ≠ .error (.consistency c) := by
  have htracked : trackedNames g.nodes = allOutputs g.nodes := trackedNames_eq_allOutputs h.plain
  have hd : Name.Distinct (g.inputs ++ trackedNames g.nodes) := htracked ▸ h.distinct
  refine Engine.result_run_ne_consistency (consistent_walk hd h.ordered) ?_ c
  intro hwalk name hname
  rw [(walked_walk hwalk).2.1, htracked]
  exact houtputs name hname

end IsScoped

end Graph

namespace Onnx

open Conversion

/-! ## §2 Derived names -/

/-- The names that may be made of an output. -/
def derivedNames (output : Name) : List Name := endings.map (derivedName output)

theorem derivedName_text (s ending : String) :
    derivedName (.text s) ending = .text (s ++ ending) := by
  have hdisplay : (Name.text s).display = Points.ofString s := rfl
  rw [derivedName, hdisplay, ← Points.ofString_append, Name.ofPoints_ofString]

/-- Different texts have different texts made of them. -/
theorem eq_of_append_ending {s t a b : String} (ha : a ∈ endings) (hb : b ∈ endings)
    (h : s ++ a = t ++ b) : s = t ∧ a = b := by
  have hchars : s.toList ++ a.toList = t.toList ++ b.toList := by
    rw [← String.toList_append, ← String.toList_append, h]
  have hlast := congrArg List.getLast? hchars
  simp only [endings, List.mem_cons, List.not_mem_nil, or_false] at ha hb
  rcases ha with rfl | rfl <;> rcases hb with rfl | rfl
  · exact ⟨String.toList_inj.mp (List.append_cancel_right hchars), rfl⟩
  · simp at hlast
  · simp at hlast
  · exact ⟨String.toList_inj.mp (List.append_cancel_right hchars), rfl⟩

/-- **Derived names.** Names made of distinct texts are distinct. -/
theorem distinct_derivedNames {outputs : List Name} (hd : Name.Distinct outputs)
    (htexts : ∀ output ∈ outputs, ∃ s, output = .text s) :
    Name.Distinct (outputs.flatMap derivedNames) := by
  have hpart (s : String) : derivedNames (.text s) = endings.map fun e => .text (s ++ e) :=
    List.map_congr_left fun ending _ => derivedName_text s ending
  induction outputs with
  | nil => exact Name.distinct_nil
  | cons output rest ih =>
    rw [Name.distinct_cons] at hd
    rw [List.forall_mem_cons] at htexts
    obtain ⟨s, rfl⟩ := htexts.1
    rw [List.flatMap_cons, Name.distinct_append]
    refine ⟨?_, ih hd.2 htexts.2, ?_⟩
    · rw [hpart]
      simp [Name.Distinct, endings]
    · intro name hname hrest
      rw [hpart, List.mem_map] at hname
      obtain ⟨a, ha, rfl⟩ := hname
      obtain ⟨other, hother, hkey⟩ := List.mem_map.mp hrest
      obtain ⟨output, houtput, hderived⟩ := List.mem_flatMap.mp hother
      obtain ⟨t, rfl⟩ := htexts.2 output houtput
      rw [hpart, List.mem_map] at hderived
      obtain ⟨b, hb, rfl⟩ := hderived
      rw [Name.key_text, Name.key_text, Name.text.injEq] at hkey
      -- A name that is made of both would make them one output.
      obtain ⟨rfl, _⟩ := eq_of_append_ending hb ha hkey
      exact hd.1 (List.mem_map_of_mem houtput)

/-! ## §3 Pieces -/

namespace Piece

variable {p : Piece} {n : Node} {bound : List Name}

/-- What a piece brings is what it declares. -/
theorem names_eq (p : Piece) : p.names = p.declared.map Prod.fst ++ p.emitted := by
  cases p <;> simp [names, nodes, Graph.allOutputs, declared, emitted, GraphShapes.Node.fixed]

/-- The nodes of a piece meet their operands if the model's node does. -/
theorem Of.ordered (h : p.Of n) (hin : ∀ name ∈ n.givenInputs, name.isAmong bound = true) :
    Graph.Ordered bound p.nodes := by
  cases h with
  | node becomes operands => exact ⟨fun name hname => hin name (operands name hname), trivial⟩
  | @pair ending output data value op listed first operand plain =>
    refine ⟨nofun, ?_, trivial⟩
    intro name hname
    rw [Node.tracked_fixed, Name.isAmong_append]
    rcases List.mem_cons.mp hname with rfl | hderived
    · exact Or.inl (hin name operand)
    · exact Or.inr (Name.isAmong_of_mem hderived)
  | constant => exact ⟨nofun, trivial⟩
  | target => exact ⟨nofun, trivial⟩

/-- A type that is shown as a text is that text. -/
theorem eq_of_toDatum_eq_text {name : Name} {s : String} (h : name.toDatum = .text s) :
    name = .text s := by
  have hname := Name.ofDatum?_toDatum name
  rw [h] at hname
  exact (Option.some.inj hname).symm

theorem op_fixed_ne (name : Name) (value : Datum) :
    (GraphShapes.Node.fixed name value).op ≠ .text "aten::embedding_bag" := by
  simp [GraphShapes.Node.fixed]

/-- No embedding bag is made of a node of another type. -/
theorem Of.plain (h : p.Of n) (hbag : n.op ≠ .text "aten::embedding_bag") :
    ∀ node ∈ p.nodes, node.op ≠ .text "aten::embedding_bag" := by
  have hoperator {op : Operator} (hop : op ≠ .embeddingBag) :
      Datum.text op.tag ≠ .text "aten::embedding_bag" := by
    intro htag
    have hsame := Operator.ofTag?_tag op
    rw [htag] at hsame
    exact hop (Option.some.inj hsame).symm
  cases h with
  | node becomes operands =>
    rw [nodes, List.forall_mem_singleton]
    rcases becomes with rfl | ⟨op, rfl, hop⟩
    · exact fun htype => hbag (eq_of_toDatum_eq_text htype)
    · exact hoperator hop
  | pair listed first operand plain =>
    rw [nodes, List.forall_mem_cons, List.forall_mem_singleton]
    exact ⟨op_fixed_ne _ _, hoperator plain⟩
  | constant => exact List.forall_mem_singleton.mpr (op_fixed_ne _ _)
  | target => exact List.forall_mem_singleton.mpr (op_fixed_ne _ _)

/-- A node brings its outputs, and maybe a name made of the first of them. -/
theorem Of.names (h : p.Of n) (hone : n.op = .text "Constant" → n.outputs.length = 1) :
    p.names = n.outputs ∨
      ∃ output ∈ n.outputs, ∃ derived ∈ derivedNames output, p.names = derived :: n.outputs := by
  have hsingle {name : Name} (hop : n.op = .text "Constant")
      (hfirst : n.outputs.head? = some name) : n.outputs = [name] := by
    obtain ⟨only, honly⟩ := List.length_eq_one_iff.mp (hone hop)
    rw [honly] at hfirst ⊢
    cases hfirst
    rfl
  cases h with
  | node => exact Or.inl (List.append_nil _)
  | @pair ending output data value op listed first operand plain =>
    refine Or.inr ⟨output, List.mem_of_mem_head? first, _, List.mem_map_of_mem listed, ?_⟩
    exact congrArg _ (List.append_nil _)
  | constant literal first => exact Or.inl (hsingle literal first).symm
  | target literal first => exact Or.inl (hsingle literal first).symm

/-- The outputs are among what a node brings. -/
theorem Of.isAmong_names (h : p.Of n) (hone : n.op = .text "Constant" → n.outputs.length = 1)
    {name : Name} (hname : name.isAmong n.outputs = true) : name.isAmong p.names = true := by
  rcases h.names hone with hplain | ⟨output, _, derived, _, hpair⟩
  · rwa [hplain]
  · rw [hpair, Name.isAmong_iff]
    exact List.mem_cons_of_mem _ (Name.isAmong_iff.mp hname)

/-- What a node brings is listed no more often than its outputs and the names made of them. -/
theorem Of.count_names_le (h : p.Of n) (hone : n.op = .text "Constant" → n.outputs.length = 1)
    (name : Name) :
    p.names.count name ≤ n.outputs.count name + (n.outputs.flatMap derivedNames).count name := by
  rcases h.names hone with hplain | ⟨output, houtput, derived, hderived, hpair⟩
  · rw [hplain]
    exact Nat.le_add_right _ _
  · have hmem : derived ∈ n.outputs.flatMap derivedNames :=
      List.mem_flatMap.mpr ⟨output, houtput, hderived⟩
    have hle := (List.singleton_sublist.mpr hmem).count_le name
    rw [hpair, ← List.singleton_append, List.count_append]
    omega

end Piece

namespace Conversion

variable {c : Conversion} {p : Piece} {n : Node}

theorem scope_add (c : Conversion) (p : Piece) :
    (c.add p).graph.scope = c.graph.scope ++ p.names := by
  simp [Graph.scope, Graph.allOutputs, Piece.names]

/-- What is declared after a piece is what was, and what the piece brings. -/
theorem declares_add (c : Conversion) (p : Piece) (name : Name) :
    (c.add p).graph.declares name = (c.graph.declares name || name.isAmong p.names) := by
  have hanew : (lookup? p.declared name).isSome = name.isAmong (p.declared.map Prod.fst) := by
    rw [Bool.eq_iff_iff, Option.isSome_iff_exists, exists_lookup?_iff]
  have hemitted : (if name.isAmong p.emitted then some ({} : Value) else none).isSome
      = name.isAmong p.emitted := by
    cases name.isAmong p.emitted <;> rfl
  have hnames : name.isAmong p.names
      = (name.isAmong (p.declared.map Prod.fst) || name.isAmong p.emitted) := by
    rw [Piece.names_eq, Name.isAmong, List.any_append]
    rfl
  rw [Graph.declares, value?_add, Option.isSome_or, Option.isSome_or, hanew, hemitted, hnames,
    Bool.or_comm (name.isAmong _) (c.graph.value? name).isSome, Bool.or_assoc, Graph.declares]

/-- **One piece.** A piece that brings new names and consumes what is in scope keeps a
graph scoped. -/
theorem isScoped_add (h : c.graph.IsScoped) (hd : Name.Distinct (c.graph.scope ++ p.names))
    (ho : Graph.Ordered c.graph.scope p.nodes)
    (hplain : ∀ node ∈ p.nodes, node.op ≠ .text "aten::embedding_bag") :
    (c.add p).graph.IsScoped where
  distinct := by rwa [scope_add]
  ordered := by
    rw [inputs_add, nodes_add, Graph.ordered_append, Graph.trackedNames_eq_allOutputs h.plain]
    exact ⟨h.ordered, ho⟩
  plain := by
    rw [nodes_add, List.forall_mem_append]
    exact ⟨h.plain, hplain⟩
  declared := by
    intro name hname
    rw [declares_add]
    rw [scope_add] at hname
    rcases List.mem_append.mp hname with hold | hnew
    · rw [h.declared name hold, Bool.true_or]
    · rw [Name.isAmong_of_mem hnew, Bool.or_true]

end Conversion

/-- Every name that a node takes in is bound, or an output of an earlier node. -/
def OperandsFirst : List Name → List Node → Prop
  | _, [] => True
  | bound, n :: rest =>
    (∀ name ∈ n.givenInputs, name.isAmong bound = true) ∧ OperandsFirst (bound ++ n.outputs) rest

instance decidableOperandsFirst : (bound : List Name) → (ns : List Node) →
    Decidable (OperandsFirst bound ns)
  | _, [] => isTrue trivial
  | bound, n :: rest =>
    have := decidableOperandsFirst (bound ++ n.outputs) rest
    inferInstanceAs (Decidable (_ ∧ _))

/-- Operands stay first when more is bound. -/
theorem OperandsFirst.mono {bound bound' : List Name} {ns : List Node}
    (h : OperandsFirst bound ns)
    (hbound : ∀ name : Name, name.isAmong bound = true → name.isAmong bound' = true) :
    OperandsFirst bound' ns := by
  induction ns generalizing bound bound' with
  | nil => trivial
  | cons n rest ih =>
    refine ⟨fun name hname => hbound name (h.1 name hname), ih h.2 fun name hname => ?_⟩
    rw [Name.isAmong_append] at hname ⊢
    exact hname.imp_left (hbound name)

/-- Distinct are also fewer names in another order. -/
theorem distinct_of_subperm {as bs : List Name} (h : as.Subperm bs) (hd : Name.Distinct bs) :
    Name.Distinct as := by
  obtain ⟨names, hperm, hsub⟩ := h
  exact (hd.sublist hsub).perm hperm

namespace Conversion

variable {c : Conversion} {ps : List Piece} {ns : List Node}

/-- **Pieces.** The pieces of nodes keep a graph scoped, if operands come first and the
names of outputs and those made of them are new. By induction on the nodes. -/
theorem isScoped_addAll (h : List.Forall₂ Piece.Of ns ps) (hc : c.graph.IsScoped)
    (hin : OperandsFirst c.graph.scope ns)
    (hd : Name.Distinct (c.graph.scope ++ (ns.flatMap Node.outputs
      ++ (ns.flatMap Node.outputs).flatMap derivedNames)))
    (hone : ∀ n ∈ ns, n.op = .text "Constant" → n.outputs.length = 1)
    (hbags : ∀ n ∈ ns, n.op ≠ .text "aten::embedding_bag") :
    (c.addAll ps).graph.IsScoped ∧
      ∀ name : Name, name.isAmong (c.graph.scope ++ ns.flatMap Node.outputs) = true →
        name.isAmong (c.addAll ps).graph.scope = true := by
  induction h generalizing c with
  | nil => exact ⟨hc, fun name hname => by simpa using hname⟩
  | @cons n p ns ps hp hps ih =>
    rw [List.forall_mem_cons] at hone hbags
    -- What the piece brings leaves the other names new.
    have hnew : (c.graph.scope ++ p.names ++ (ns.flatMap Node.outputs
        ++ (ns.flatMap Node.outputs).flatMap derivedNames)).Subperm
          (c.graph.scope ++ ((n :: ns).flatMap Node.outputs
            ++ ((n :: ns).flatMap Node.outputs).flatMap derivedNames)) := by
      rw [List.subperm_ext_iff]
      intro name _
      have hbrings := hp.count_names_le hone.1 name
      simp only [List.flatMap_cons, List.flatMap_append, List.count_append]
      omega
    have hrest := distinct_of_subperm hnew hd
    have hadd : (c.add p).graph.IsScoped :=
      isScoped_add hc (Name.distinct_append.mp hrest).1 (hp.ordered hin.1) (hp.plain hbags.1)
    have houtputs (name : Name) (hname : name.isAmong (c.graph.scope ++ n.outputs) = true) :
        name.isAmong (c.add p).graph.scope = true := by
      rw [Name.isAmong_append] at hname
      rw [scope_add, Name.isAmong_append]
      exact hname.imp_right (hp.isAmong_names hone.1)
    rw [← scope_add] at hrest
    obtain ⟨hscoped, hall⟩ := ih hadd (hin.2.mono houtputs) hrest hone.2 hbags.2
    refine ⟨hscoped, fun name hname => hall name ?_⟩
    rw [List.flatMap_cons, ← List.append_assoc, Name.isAmong_append] at hname
    rw [Name.isAmong_append]
    exact hname.imp_left (houtputs name)

end Conversion

/-! ## §4 Models -/

namespace Model

variable {m : Model}

/-- The names of the inputs that are no initializers. -/
def graphInputs (m : Model) : List Name := (inputsOf m (m.initializers.map Prod.fst)).map (·.name)

/-- The names that the nodes output. -/
def produced (m : Model) : List Name := m.nodes.flatMap Node.outputs

/-- The names of a model's values. -/
def names (m : Model) : List Name := m.initializers.map Prod.fst ++ m.graphInputs ++ m.produced

/-- The names of the model's values are distinct, also from those made of outputs, and
every operand is an initializer, an input or an output of an earlier node. -/
structure IsOrdered (m : Model) : Prop where
  distinct : Name.Distinct m.names
  texts : ∀ output ∈ m.produced, ∃ s, output = .text s
  underived : ∀ output ∈ m.produced, ∀ derived ∈ derivedNames output,
    derived.isAmong m.names = false
  operands : OperandsFirst (m.initializers.map Prod.fst ++ m.graphInputs) m.nodes
  outputs : ∀ v ∈ m.outputs, v.name.isAmong m.names = true
  literals : ∀ n ∈ m.nodes, n.op = .text "Constant" → n.outputs.length = 1
  bags : ∀ n ∈ m.nodes, n.op ≠ .text "aten::embedding_bag"

/-- An entry is put under a fresh name at the end. -/
theorem putEntry_of_fresh {α : Type} {entries : List (Name × α)} {name : Name} (a : α)
    (hfresh : lookup? entries name = none) : putEntry entries name a = entries ++ [(name, a)] := by
  rw [lookup?, Option.map_eq_none_iff, List.find?_eq_none] at hfresh
  exact if_neg (by simpa using hfresh)

/-- Distinct initializers are read each under its name. -/
theorem map_fst_constants {constants : List (Name × Constant)} (h : m.constants = .ok constants)
    (hd : Name.Distinct (m.initializers.map Prod.fst)) :
    constants.map Prod.fst = m.initializers.map Prod.fst := by
  -- By induction on the initializers, behind those that are read already.
  have hread (tensors : List (Name × Tensor)) (acc : List (Name × Constant))
      (hd : Name.Distinct (acc.map Prod.fst ++ tensors.map Prod.fst))
      (h : tensors.foldlM (fun acc entry => do return putEntry acc entry.1 (← entry.2.read)) acc
        = .ok constants) :
      constants.map Prod.fst = acc.map Prod.fst ++ tensors.map Prod.fst := by
    induction tensors generalizing acc with
    | nil =>
      cases h
      simp
    | cons entry rest ih =>
      obtain ⟨name, t⟩ := entry
      simp only [List.foldlM_cons, bind_eq_ok_iff, pure_eq_ok_iff] at h
      obtain ⟨_, ⟨k, _, rfl⟩, hrest⟩ := h
      rw [List.map_cons, List.append_cons] at hd
      have hfresh : lookup? acc name = none := by
        have hfront := (Name.distinct_append.mp hd).1
        rw [← List.map_singleton (f := Prod.fst) (a := (name, k)), ← List.map_append] at hfront
        exact (distinct_append_singleton.mp hfront).2
      rw [putEntry_of_fresh k hfresh] at hrest
      have hnames := ih (acc ++ [(name, k)]) (by simpa using hd) hrest
      simpa using hnames
  simpa using hread m.initializers [] (by simpa using hd) h

/-- The names of the model are distinct along with those made of outputs. -/
theorem IsOrdered.distinct_derived (h : m.IsOrdered) :
    Name.Distinct (m.names ++ m.produced.flatMap derivedNames) := by
  have hproduced : Name.Distinct m.produced := (Name.distinct_append.mp h.distinct).2.1
  refine Name.distinct_append.mpr ⟨h.distinct, distinct_derivedNames hproduced h.texts, ?_⟩
  intro name hname hmade
  obtain ⟨derived, hderived, hkey⟩ := List.mem_map.mp hmade
  obtain ⟨output, houtput, hlisted⟩ := List.mem_flatMap.mp hderived
  have hfree := h.underived output houtput derived hlisted
  rw [Name.isAmong_congr hkey, Name.isAmong_of_mem hname] at hfree
  cases hfree

end Model

namespace Conversion

variable {c : Conversion} {m : Model} {targets : List Name} {constants : List (Name × Constant)}
  {front : List Piece}

/-- Initializers keep a graph scoped if their names are new. -/
theorem isScoped_initializers (h : List.Forall₂ (Piece.OfInitializer targets) constants front)
    (hc : c.graph.IsScoped) (hd : Name.Distinct (c.graph.scope ++ constants.map Prod.fst)) :
    (c.addAll front).graph.IsScoped ∧
      (c.addAll front).graph.scope = c.graph.scope ++ constants.map Prod.fst := by
  induction h generalizing c with
  | nil => exact ⟨hc, (List.append_nil _).symm⟩
  | @cons entry p constants front hp hps ih =>
    have hpiece : p.names = [entry.1] ∧ Graph.Ordered c.graph.scope p.nodes ∧
        ∀ node ∈ p.nodes, node.op ≠ .text "aten::embedding_bag" := by
      cases hp with
      | constant =>
        exact ⟨rfl, ⟨nofun, trivial⟩, List.forall_mem_singleton.mpr (Piece.op_fixed_ne _ _)⟩
      | target =>
        exact ⟨rfl, ⟨nofun, trivial⟩, List.forall_mem_singleton.mpr (Piece.op_fixed_ne _ _)⟩
    obtain ⟨hnames, ho, hplain⟩ := hpiece
    rw [List.map_cons, List.append_cons, ← hnames, ← scope_add] at hd
    have hfront := (Name.distinct_append.mp hd).1
    rw [scope_add] at hfront
    obtain ⟨hscoped, hscope⟩ := ih (isScoped_add hc hfront ho hplain) hd
    refine ⟨hscoped, hscope.trans ?_⟩
    simp [scope_add, hnames]

/-- Declaring the model's inputs keeps a graph without inputs scoped if their names are
new. -/
theorem isScoped_declareModel {initializers : List Name} (h : c.graph.IsScoped)
    (hnone : c.graph.inputs = [])
    (hd : Name.Distinct ((inputsOf m initializers).map (·.name) ++ c.graph.scope)) :
    (c.declareModel m initializers).graph.IsScoped where
  distinct := by
    rw [Graph.scope, inputs_declareModel, nodes_declareModel, hnone]
    rwa [Graph.scope, hnone] at hd
  ordered := by
    rw [inputs_declareModel, nodes_declareModel]
    refine h.ordered.mono fun name hname => ?_
    rw [Name.isAmong_append]
    exact Or.inl hname
  plain := by
    rw [nodes_declareModel]
    exact h.plain
  declared := by
    intro name hname
    rw [Graph.scope, inputs_declareModel, nodes_declareModel, hnone, List.nil_append,
      List.mem_append] at hname
    rw [Graph.declares, value?_declareModel, Option.isSome_or, Option.isSome_or]
    rcases hname with hinput | hold
    · have hdeclared : (lookup? ((inputsOf m initializers).map entryOf).reverse name).isSome := by
        rw [Option.isSome_iff_exists, exists_lookup?_iff, Name.isAmong_iff]
        obtain ⟨v, hv, rfl⟩ := List.mem_map.mp hinput
        simp only [List.map_reverse, List.map_map, List.mem_reverse, List.mem_map]
        exact ⟨v, hv, rfl⟩
      rw [hdeclared, Bool.true_or, Bool.true_or]
    · have hdeclared : (c.graph.value? name).isSome = true :=
        h.declared name (List.mem_append_right _ hold)
      rw [hdeclared, Bool.or_true, Bool.true_or]

end Conversion

/-- **Conversion keeps names in scope.** Initializers, inputs and nodes bring the names
of the model, in this order, and nothing else but names made of outputs. -/
theorem isScoped_of_convert {m : Model} {g : Graph} (hm : m.IsOrdered) (h : m.convert = .ok g) :
    g.IsScoped ∧ ∀ name ∈ g.outputs, name.isAmong g.scope = true := by
  obtain ⟨c, @⟨constants, front, hconstants, hfront, hnodes⟩, rfl⟩ := convert_eq_ok_iff.mp h
  obtain ⟨ps, hps, rfl⟩ := exists_pieces_of_addNodes hnodes
  have hswap : (m.initializers.map Prod.fst ++ m.graphInputs).Perm
      (m.graphInputs ++ m.initializers.map Prod.fst) := List.perm_append_comm
  have hsources := (Name.distinct_append.mp hm.distinct).1
  have hinitializers := (Name.distinct_append.mp hsources).1
  have hread := Model.map_fst_constants hconstants hinitializers
  -- Initializers come first, and then the inputs.
  have hempty : (start m).graph.IsScoped := ⟨Name.distinct_nil, trivial, nofun, nofun⟩
  rw [← hread] at hinitializers
  obtain ⟨hfirst, hscope⟩ := isScoped_initializers hfront hempty hinitializers
  change ((start m).addAll front).graph.scope = constants.map Prod.fst at hscope
  rw [hread] at hscope hnodes ⊢
  have hinputs : ((start m).addAll front).graph.inputs = [] := inputs_addAll
  have hfresh : Name.Distinct (m.graphInputs ++ ((start m).addAll front).graph.scope) := by
    rw [hscope]
    exact hsources.perm hswap
  have hsecond := isScoped_declareModel hfirst hinputs hfresh
  have hdeclared : (((start m).addAll front).declareModel m
      (m.initializers.map Prod.fst)).graph.scope
        = m.graphInputs ++ m.initializers.map Prod.fst := by
    rw [Graph.scope, hinputs, List.nil_append] at hscope
    rw [Graph.scope, inputs_declareModel, nodes_declareModel, hinputs, hscope]
    rfl
  -- The nodes come last, and find their operands.
  have hoperands : OperandsFirst (((start m).addAll front).declareModel m
      (m.initializers.map Prod.fst)).graph.scope m.nodes := by
    rw [hdeclared]
    exact hm.operands.mono fun name => (Name.isAmong_perm hswap).mp
  have hnew : Name.Distinct ((((start m).addAll front).declareModel m
      (m.initializers.map Prod.fst)).graph.scope
        ++ (m.produced ++ m.produced.flatMap derivedNames)) := by
    rw [hdeclared, ← List.append_assoc]
    exact hm.distinct_derived.perm ((hswap.append_right _).append_right _)
  obtain ⟨hall, hkept⟩ := isScoped_addAll hps hsecond hoperands hnew hm.literals hm.bags
  refine ⟨hall, fun name hname => hkept name ?_⟩
  rw [outputs_addAll, outputs_declareModel] at hname
  obtain ⟨v, hv, rfl⟩ := List.mem_map.mp hname
  rw [hdeclared]
  exact (Name.isAmong_perm (hswap.append_right _)).mp (hm.outputs v hv)

/-- A product that is transposed and then reshaped, its second size copied. The weights
are listed among the inputs too. -/
def Model.projecting : Model where
  initializers := [(.text "w", { sizes := [3, 4], type := 1, floats := List.replicate 12 0 })]
  inputs := [⟨.text "x", some [some 2, some 3]⟩, ⟨.text "w", some [some 3, some 4]⟩]
  outputs := [⟨.text "y", none⟩]
  values := [⟨.text "q", some [some 4, some 2]⟩]
  nodes :=
    [{ op := .text "MatMul", name := .text "", inputs := ["x", "w"].map .text,
       outputs := [.text "p"], attributes := [] },
     { op := .text "Transpose", name := .text "", inputs := [.text "p"],
       outputs := [.text "q"], attributes := [(.text "perm", .ints [1, 0])] },
     { op := .text "Constant", name := .text "", inputs := [], outputs := [.text "s"],
       attributes := [(.text "value", .tensor { sizes := [3], type := 7, longs := [2, 0, 2] })] },
     { op := .text "Reshape", name := .text "", inputs := ["q", "s"].map .text,
       outputs := [.text "y"], attributes := [] }]

/-- **Conversion keeps the contract of runs.** Let the names of a model's initializers,
inputs and outputs of nodes be distinct texts, none of them made of another one with the
ending of a permutation or target, and let every node take in only what comes in front
of it. If the model is converted without validation, then its graph is valid, and no run
over it meets a value too early, too late or twice, whatever its inputs. -/
theorem consistent_of_toGraph {m : Model} {g : Graph} (hm : m.IsOrdered)
    (h : m.toGraph false = .ok g) :
    g.validate = .ok () ∧
      ∀ (e : Engine) (c : ConsistencyError), (Engine.run g e).result ≠ .error (.consistency c) := by
  obtain ⟨hscoped, houtputs⟩ := isScoped_of_convert hm (toGraph_eq_ok_iff.mp h).1
  exact ⟨hscoped.validate houtputs, hscoped.result_run_ne_consistency houtputs⟩

/-- The product keeps it, with two names made of outputs. -/
theorem consistent_projecting :
    ∃ g, Model.projecting.toGraph false = .ok g ∧
      Graph.allOutputs g.nodes = ["w", "p", "q__perm", "q", "s", "y__shape", "y"].map .text ∧
      g.validate = .ok () ∧
      ∀ (e : Engine) (c : ConsistencyError), (Engine.run g e).result ≠ .error (.consistency c) := by
  have hm : Model.projecting.IsOrdered := {
    distinct := by decide +kernel
    texts := by
      have hproduced : Model.projecting.produced = ["p", "q", "s", "y"].map .text := rfl
      rw [hproduced, List.forall_mem_map]
      exact fun s _ => ⟨s, rfl⟩
    underived := by decide +kernel
    operands := by decide +kernel
    outputs := by decide +kernel
    literals := by decide +kernel
    bags := by decide +kernel }
  have hnames : (Model.projecting.toGraph false).toOption.map (fun g => Graph.allOutputs g.nodes)
      = some (["w", "p", "q__perm", "q", "s", "y__shape", "y"].map .text) := by decide +kernel
  obtain ⟨g, hg, houtputs⟩ := Option.map_eq_some_iff.mp hnames
  have hgraph := eq_ok_of_toOption hg
  exact ⟨g, hgraph, houtputs, consistent_of_toGraph hm hgraph⟩

end Onnx

end GraphShapes
