/-
GraphShapes.Proofs.FreshnessTheorems — when the names of a converted model are fresh.

A conversion binds the initializers, the inputs, what the nodes output, and the names
that it makes: one for the permutation of a transposition, one for a target whose zeros
are replaced (`Conversion.made?`). A made name is an output with an ending, and nothing
keeps the model from using that name elsewhere; an output that is left out has the empty
name, and nothing keeps two nodes from leaving one out. These are the only ways in which
a graph can bind a name twice (`fresh_iff_of_toGraph`).

What one node binds is read off the node and the targets so far (`binds_addNode`). By
induction a conversion binds what its nodes bind, in some order (`perm_of_addNodes`).

  §1 Bindings — what a node binds.
  §2 Nodes    — one node, case by case, and nodes in a row.
  §3 Graphs   — what validation says of names that are bound twice.
  §4 Models   — what a model binds, and when its names are fresh.
-/
import GraphShapes.Proofs.DefectTheorems
import GraphShapes.Proofs.ScopeTheorems

namespace GraphShapes

/-- A name with the key of a text is that text. -/
theorem Name.eq_text_of_key {name : Name} {s : String} (h : name.key = .text s) :
    name = .text s := by
  have hnumber (x : Binary) : Name.numberKey x ≠ .text s := by
    unfold Name.numberKey
    split <;> exact Name.noConfusion
  cases name with
  | float x => exact absurd h (hnumber x)
  | elementFloat x => exact absurd h (hnumber x)
  | text t => exact h
  | _ => cases h

namespace Onnx

/-! ## §1 Bindings -/

/-- The setting of a node under a name, if the attributes can be read. -/
def Node.setting? (n : Node) (name : String) : Option Setting :=
  n.settings.toOption.bind (lookup? · (.text name))

/-- Is a setting given and true? -/
def Node.sets (n : Node) (name : String) : Bool :=
  (n.setting? name).any fun s => s.isTrue.toOption.getD false

/-- The outputs that a node binds. A constant that is held has no other than the first. -/
def Node.bound (n : Node) : List Name :=
  if n.op = .text "Constant" ∧ (n.setting? "value").isSome then n.outputs.take 1 else n.outputs

namespace Conversion

/-- Is the second operand of a reshape a target whose zeros are replaced? -/
def copies (c : Conversion) (n : Node) : Bool :=
  match n.givenInputs with
  | [_, shape] => (lookup? c.targets shape).any (·.contains 0) && !n.sets "allowzero"
  | _ => false

/-- The ending of the name that is made for a node, if one is. -/
def ending? (c : Conversion) (n : Node) : Option String :=
  if n.op = .text "Transpose" then if (n.setting? "perm").isSome then some "__perm" else none
  else if n.op = .text "Reshape" then if c.copies n then some "__shape" else none
  else none

/-- The names that are made for a node: at most one, of its first output. -/
def made (c : Conversion) (n : Node) : List Name :=
  match c.ending? n, n.outputs with
  | some ending, output :: _ => [derivedName output ending]
  | _, _ => []

/-- The names that are made for nodes on the way. -/
def madeAll (targets : List Name) : Conversion → Nat → List Node → List Name
  | _, _, [] => []
  | c, index, n :: rest =>
    c.made n ++
      match c.addNode targets index n with
      | .ok d => madeAll targets d (index + 1) rest
      | .error _ => []

/-! ## §2 Nodes -/

/-- A conversion with more names bound by its nodes. -/
structure Binds (c d : Conversion) (names : List Name) : Prop where
  inputs : d.graph.inputs = c.graph.inputs
  outputs : Graph.allOutputs d.graph.nodes = Graph.allOutputs c.graph.nodes ++ names

variable {c c' d : Conversion} {n : Node} {settings : Settings} {targets : List Name} {index : Nat}

theorem Binds.trans {front rest : List Name} (h : Binds c d front) (h' : Binds d c' rest) :
    Binds c c' (front ++ rest) where
  inputs := h'.inputs.trans h.inputs
  outputs := by rw [h'.outputs, h.outputs, List.append_assoc]

theorem binds_emit (c : Conversion) (op : Datum) (inputs outputs : List Name)
    (attributes : List (Name × Datum)) : Binds c (c.emit op inputs outputs attributes) outputs where
  inputs := Graph.inputs_declareAll c.graph outputs
  outputs := by simp [emit, Graph.addNode, Graph.allOutputs]

theorem binds_addConstant (c : Conversion) (name : Name) (type : String) (value : Datum) :
    Binds c (c.addConstant name type value) [name] where
  inputs := rfl
  outputs := by simp [addConstant, Graph.addNode, Graph.addValue, Graph.allOutputs]

theorem binds_addTarget (c : Conversion) (name : Name) (ns : List Int) :
    Binds c (c.addTarget name ns) [name] :=
  ⟨(binds_addConstant c name _ _).inputs, (binds_addConstant c name _ _).outputs⟩

theorem binds_addGeneralProduct (h : c.addGeneralProduct n settings = .ok c') :
    Binds c c' n.outputs := by
  obtain ⟨first, -, h⟩ := bind_eq_ok_iff.mp h
  cases first with
  | true =>
    cases h
    exact binds_emit c _ _ _ _
  | false =>
    obtain ⟨second, -, h⟩ := bind_eq_ok_iff.mp h
    cases second with
    | true =>
      cases h
      exact binds_emit c _ _ _ _
    | false =>
      rw [if_neg Bool.false_ne_true, addProduct] at h
      split at h <;> cases h
      · exact binds_emit c _ _ _ _
      · exact binds_emit c _ _ _ _

theorem firstOf_eq_ok_iff_cons {names : List Name} {name : Name} :
    firstOf names = .ok name ↔ ∃ rest, names = name :: rest := by
  cases names <;> simp [firstOf]

theorem binds_addTransposition {axes : Datum} (h : c.addTransposition n axes = .ok c') :
    ∃ output rest, n.outputs = output :: rest ∧
      Binds c c' ([derivedName output "__perm"] ++ n.outputs) := by
  simp only [addTransposition, bind_eq_ok_iff] at h
  obtain ⟨output, houtput, data, -, h⟩ := h
  cases h
  obtain ⟨rest, hrest⟩ := firstOf_eq_ok_iff_cons.mp houtput
  exact ⟨output, rest, hrest, (binds_addConstant c _ _ _).trans (binds_emit _ _ _ _ _)⟩

theorem setting?_of_settings (h : n.settings = .ok settings) (name : String) :
    n.setting? name = lookup? settings (.text name) := by
  rw [Node.setting?, h]
  rfl

theorem sets_of_isSet {name : String} {b : Bool} (h : n.settings = .ok settings)
    (hset : isSet settings name = .ok b) : n.sets name = b := by
  rw [Node.sets, setting?_of_settings h]
  unfold isSet at hset
  cases hfound : lookup? settings (.text name) with
  | none =>
    rw [hfound] at hset
    cases hset
    rfl
  | some s =>
    rw [hfound] at hset
    rw [Option.any_some, mapError_eq_ok_iff.mp hset]
    rfl

/-- A reshape makes a name where it copies sizes. -/
theorem binds_addReshape {data shape : Name} {target : List Int}
    (hgiven : n.givenInputs = [data, shape]) (htarget : lookup? c.targets shape = some target)
    (hsettings : n.settings = .ok settings)
    (h : c.addReshape n settings index data shape target = .ok c') :
    if c.copies n then
      ∃ output rest, n.outputs = output :: rest ∧
        Binds c c' ([derivedName output "__shape"] ++ n.outputs)
    else Binds c c' n.outputs := by
  have hcopies : c.copies n = (target.contains 0 && !n.sets "allowzero") := by
    simp only [copies, hgiven, htarget, Option.any_some]
  rw [addReshape] at h
  cases hzero : target.contains 0 with
  | false =>
    rw [hcopies, hzero, if_neg (by simp)]
    simp only [hzero, Bool.not_false, if_true] at h
    cases h
    exact binds_emit c _ _ _ _
  | true =>
    simp only [hzero, Bool.not_true, Bool.false_eq_true, if_false] at h
    obtain ⟨kept, hkept, h⟩ := bind_eq_ok_iff.mp h
    rw [hcopies, hzero, sets_of_isSet hsettings hkept, Bool.true_and]
    cases kept with
    | true =>
      cases h
      exact binds_emit c _ _ _ _
    | false =>
      simp only [Bool.false_eq_true, if_false, bind_eq_ok_iff] at h
      obtain ⟨resolved, -, output, houtput, h⟩ := h
      cases h
      obtain ⟨rest, hrest⟩ := firstOf_eq_ok_iff_cons.mp houtput
      exact ⟨output, rest, hrest, (binds_addConstant c _ _ _).trans (binds_emit _ _ _ _ _)⟩

theorem binds_addSplit (c : Conversion) (n : Node) (settings : Settings) :
    Binds c (c.addSplit n settings) n.outputs := by
  unfold addSplit
  split
  · exact binds_emit c _ _ _ _
  · exact binds_emit c _ _ _ _

theorem binds_addLiteral {value : Setting} (h : c.addLiteral targets n value = .ok c') :
    Binds c c' (n.outputs.take 1) := by
  obtain ⟨name, hname, h⟩ := bind_eq_ok_iff.mp h
  obtain ⟨rest, hrest⟩ := firstOf_eq_ok_iff_cons.mp hname
  rw [hrest, List.take_succ_cons, List.take_zero]
  split at h
  · cases value with
    | constant k =>
      obtain ⟨ns, -, h⟩ := bind_eq_ok_iff.mp h
      cases h
      exact binds_addTarget c name ns
    | plain _ => cases h
  · cases h
    exact binds_addConstant c name _ _

theorem made_of_ending?_eq_none (h : c.ending? n = none) : c.made n = [] := by
  rw [made, h]

theorem made_of_ending?_eq_some {ending : String} {output : Name} {rest : List Name}
    (h : c.ending? n = some ending) (houtputs : n.outputs = output :: rest) :
    c.made n = [derivedName output ending] := by
  rw [made, h, houtputs]

theorem made_of_ne (htranspose : n.op ≠ .text "Transpose") (hreshape : n.op ≠ .text "Reshape") :
    c.made n = [] := by
  refine made_of_ending?_eq_none ?_
  rw [ending?, if_neg htranspose, if_neg hreshape]

theorem bound_of_ne (h : n.op ≠ .text "Constant") : n.bound = n.outputs :=
  if_neg fun hconstant => h hconstant.1

theorem binds_addAnyReshape (hop : n.op = .text "Reshape") (hsettings : n.settings = .ok settings)
    (h : c.addAnyReshape n settings index = .ok c') : Binds c c' (c.made n ++ n.outputs) := by
  have hending : c.ending? n = if c.copies n then some "__shape" else none := by
    rw [ending?, hop, if_neg (by decide), if_pos rfl]
  have hplain (hcopies : c.copies n = false) : c.made n = [] := by
    refine made_of_ending?_eq_none ?_
    rw [hending, hcopies, if_neg Bool.false_ne_true]
  unfold addAnyReshape at h
  split at h
  · next data shape hgiven =>
    split at h
    · next target htarget =>
      have hbinds := binds_addReshape hgiven htarget hsettings h
      cases hcopies : c.copies n with
      | true =>
        rw [hcopies, if_pos rfl] at hbinds hending
        obtain ⟨output, rest, houtputs, hbinds⟩ := hbinds
        rwa [made_of_ending?_eq_some hending houtputs]
      | false =>
        rw [hcopies, if_neg Bool.false_ne_true] at hbinds
        rwa [hplain hcopies]
    · next htarget =>
      cases h
      rw [hplain (by simp [copies, hgiven, htarget])]
      exact binds_emit c _ _ _ _
  · next hother =>
    cases h
    have hcopies : c.copies n = false := by
      unfold copies
      split
      · next data shape hgiven => exact absurd hgiven (hother data shape)
      · rfl
    rw [hplain hcopies]
    exact binds_emit c _ _ _ _

theorem binds_addAnyTransposition (hop : n.op = .text "Transpose")
    (hsettings : n.settings = .ok settings)
    (h : (match lookup? settings (.text "perm") with
      | some axes => c.addTransposition n axes.toDatum
      | none => return c.emitAsIs n settings) = .ok c') : Binds c c' (c.made n ++ n.outputs) := by
  have hending : c.ending? n
      = if (lookup? settings (.text "perm")).isSome then some "__perm" else none := by
    rw [ending?, hop, if_pos rfl, setting?_of_settings hsettings]
  split at h
  · next axes haxes =>
    obtain ⟨output, rest, houtputs, hbinds⟩ := binds_addTransposition h
    rw [haxes, Option.isSome_some, if_pos rfl] at hending
    rwa [made_of_ending?_eq_some hending houtputs]
  · next hnone =>
    cases h
    rw [hnone, Option.isSome_none, if_neg Bool.false_ne_true] at hending
    rw [made_of_ending?_eq_none hending]
    exact binds_emit c _ _ _ _

theorem binds_addAnyLiteral (hop : n.op = .text "Constant") (hsettings : n.settings = .ok settings)
    (h : (match lookup? settings (.text "value") with
      | some value => c.addLiteral targets n value
      | none => return c.emitAsIs n settings) = .ok c') : Binds c c' n.bound := by
  rw [Node.bound, setting?_of_settings hsettings]
  split at h
  · next value hvalue =>
    rw [hvalue, if_pos ⟨hop, rfl⟩]
    exact binds_addLiteral h
  · next hnone =>
    cases h
    rw [hnone, if_neg fun hconstant => Bool.false_ne_true hconstant.2]
    exact binds_emit c _ _ _ _

/-- **One node.** A node that is converted binds the name that is made for it and its
outputs. -/
theorem binds_addNode (h : c.addNode targets index n = .ok c') :
    Binds c c' (c.made n ++ n.bound) := by
  obtain ⟨settings, hsettings, h⟩ := bind_eq_ok_iff.mp h
  rw [Fault.ofMisuse, mapError_eq_ok_iff] at hsettings
  -- Most nodes bind their outputs and nothing else.
  have hplain (htranspose : n.op ≠ .text "Transpose") (hreshape : n.op ≠ .text "Reshape")
      (hconstant : n.op ≠ .text "Constant") (hbinds : Binds c c' n.outputs) :
      Binds c c' (c.made n ++ n.bound) := by
    rwa [made_of_ne htranspose hreshape, bound_of_ne hconstant]
  split at h
  · next op hdirect =>
    cases h
    have hother {name : String} (hnone : direct? (.text name) = none) : n.op ≠ .text name := by
      intro hop
      rw [hop, hnone] at hdirect
      cases hdirect
    exact hplain (hother rfl) (hother rfl) (hother rfl) (binds_emit c _ _ _ _)
  · split at h
    · next hop =>
      refine hplain ?_ ?_ ?_ (binds_addGeneralProduct h) <;> rw [hop] <;> decide
    · next hop =>
      cases h
      refine hplain ?_ ?_ ?_ (binds_emit c _ _ _ _) <;> rw [hop] <;> decide
    · next hop =>
      rw [bound_of_ne (by rw [hop]; decide)]
      exact binds_addAnyTransposition hop hsettings h
    · next hop =>
      rw [bound_of_ne (by rw [hop]; decide)]
      exact binds_addAnyReshape hop hsettings h
    · next hop =>
      cases h
      refine hplain ?_ ?_ ?_ (binds_addSplit c n settings) <;> rw [hop] <;> decide
    · next hop =>
      rw [made_of_ne (by rw [hop]; decide) (by rw [hop]; decide), List.nil_append]
      exact binds_addAnyLiteral hop hsettings h
    · next hproduct hconcat htranspose hreshape hsplit hconstant =>
      cases h
      exact hplain htranspose hreshape hconstant (binds_emit c _ _ _ _)

/-- **Nodes in a row.** Nodes that are converted bind their outputs and the names that are
made for them, in some order. By induction on the nodes. -/
theorem perm_of_addNodes {ns : List Node} (h : addNodes targets c index ns = .ok c') :
    c'.graph.inputs = c.graph.inputs ∧
      (Graph.allOutputs c'.graph.nodes).Perm
        (Graph.allOutputs c.graph.nodes ++
          (ns.flatMap Node.bound ++ madeAll targets c index ns)) := by
  induction ns generalizing c index with
  | nil =>
    cases h
    exact ⟨rfl, by simp [madeAll]⟩
  | cons n ns ih =>
    obtain ⟨d, hd, hrest⟩ := addNodes_cons_eq_ok_iff.mp h
    obtain ⟨hinputs, houtputs⟩ := binds_addNode hd
    obtain ⟨hinputs', hperm⟩ := ih hrest
    refine ⟨hinputs'.trans hinputs, hperm.trans ?_⟩
    rw [houtputs, madeAll, hd, List.flatMap_cons, List.perm_iff_count]
    intro name
    simp only [List.count_append]
    omega

/-- Initializers bind their names. -/
theorem binds_addAll_initializers {constants : List (Name × Constant)} {front : List Piece}
    (h : List.Forall₂ (Piece.OfInitializer targets) constants front) (c : Conversion) :
    Binds c (c.addAll front) (constants.map Prod.fst) := by
  induction h generalizing c with
  | nil => exact ⟨rfl, (List.append_nil _).symm⟩
  | @cons entry p constants front hp hps ih =>
    have hpiece : Binds c (c.add p) [entry.1] := by
      cases hp with
      | constant => exact binds_addConstant c _ _ _
      | target => exact binds_addTarget c _ _
    exact hpiece.trans (ih (c.add p))

end Conversion

end Onnx

/-! ## §3 Graphs -/

namespace Graph

variable {g : Graph} {e : ValidationError}

/-- Where no name is bound twice, validation reports something else. -/
theorem code_ne_of_distinct (hd : Name.Distinct g.scope) (h : g.validate = .error e) :
    e.code ≠ "EDUP_PRODUCER" := by
  obtain ⟨-, houtputs, hapart⟩ := Name.distinct_append.mp hd
  have hfirst := firstDefect_of_validate h
  generalize e.code = code, e.node? = node at hfirst ⊢
  cases hfirst with
  | repeatedOutput least =>
    obtain ⟨n, hn, -⟩ := least.1
    have hbelow := (List.getElem?_eq_some_iff.mp hn).1
    exact absurd least.1 (not_repeatsOutput (List.append_nil _).symm houtputs hbelow)
  | @producedInput name _ _ _ _ _ first =>
    have hamong : name.isAmong (allOutputs g.nodes) = true := by
      simpa using List.find?_some first
    exact absurd (Name.isAmong_iff.mp hamong) (hapart name (List.mem_of_find?_eq_some first))
  | _ => decide

/-- An output that repeats is reported whatever else is wrong. -/
theorem exists_of_not_distinct (h : ¬ Name.Distinct (allOutputs g.nodes)) :
    ∃ e, g.validate = .error e ∧ e.code = "EDUP_PRODUCER" := by
  cases hproducers : g.producers with
  | ok ps => exact absurd (producers_eq_ok_iff.mp hproducers).1 h
  | error e =>
    obtain ⟨name, i, earlier, rfl, -⟩ := isLeast_of_producers_eq_error hproducers
    refine ⟨.manyProducers name i earlier, ?_, rfl⟩
    rw [validate, hproducers]
    rfl

/-- A valid graph with distinct inputs binds no name twice. -/
theorem distinct_scope_of_validate (hd : Name.Distinct g.inputs) (h : g.validate = .ok ()) :
    Name.Distinct g.scope := by
  have hvalid := validate_eq_ok_iff_wellFormed.mp h
  refine Name.distinct_append.mpr ⟨hd, hvalid.distinct, fun name hname hmem => ?_⟩
  have hfree := hvalid.free name hname
  rw [Name.isAmong_iff.mpr hmem] at hfree
  cases hfree

end Graph

/-! ## §4 Models -/

namespace Onnx

/-- A name that stands for none is spelled in one way. -/
theorem isLeftOut_iff {name : Name} : isLeftOut name = true ↔ name = .text "" := by
  rw [isLeftOut, beq_iff_eq]

/-- Names are distinct if those that stand for something are, and one at most stands for
none. -/
theorem distinct_iff_of_leftOut {names : List Name}
    (hd : Name.Distinct (names.filter (!isLeftOut ·))) :
    Name.Distinct names ↔ (names.filter isLeftOut).length ≤ 1 := by
  have hsplit : names.Perm (names.filter isLeftOut ++ names.filter (!isLeftOut ·)) :=
    (List.filter_append_perm isLeftOut names).symm
  have hsame : names.filter isLeftOut
      = List.replicate (names.filter isLeftOut).length (.text "") :=
    List.eq_replicate_of_mem fun name hname => isLeftOut_iff.mp (List.mem_filter.mp hname).2
  have happart : ∀ name ∈ names.filter isLeftOut,
      name.key ∉ (names.filter (!isLeftOut ·)).map Name.key := by
    intro name hname hmem
    obtain ⟨other, hother, hkey⟩ := List.mem_map.mp hmem
    rw [isLeftOut_iff.mp (List.mem_filter.mp hname).2, Name.key_text] at hkey
    have hgiven := (List.mem_filter.mp hother).2
    rw [Name.eq_text_of_key hkey] at hgiven
    cases hgiven
  have hone : Name.Distinct (names.filter isLeftOut) ↔ (names.filter isLeftOut).length ≤ 1 := by
    rw [hsame, Name.Distinct, List.map_replicate, List.nodup_replicate, List.length_replicate]
  have hperm : Name.Distinct names
      ↔ Name.Distinct (names.filter isLeftOut ++ names.filter (!isLeftOut ·)) :=
    ⟨.perm hsplit, .perm hsplit.symm⟩
  rw [hperm, Name.distinct_append, ← hone]
  exact ⟨And.left, fun h => ⟨h, hd, happart⟩⟩

namespace Model

open Conversion

variable {m : Model} {g : Graph}

/-- The conversion in front of the nodes: initializers and what the model declares. -/
def prepared (m : Model) : Except Fault Conversion := do
  let constants ← Fault.ofMisuse m.constants
  let c ← addInitializers m.targets (start m) constants
  return c.declareModel m (constants.map Prod.fst)

/-- The names that the conversion of a model makes. -/
def made (m : Model) : List Name :=
  match m.prepared with
  | .ok c => madeAll m.targets c 0 m.nodes
  | .error _ => []

/-- The names of its own that a model binds: initializers, inputs and outputs of nodes. -/
def bound (m : Model) : List Name :=
  m.initializers.map Prod.fst ++ m.graphInputs ++ m.nodes.flatMap Node.bound

/-- The names that a model gives its values are distinct. An output that is left out has
no name. -/
def HasDistinctNames (m : Model) : Prop :=
  Name.Distinct (m.initializers.map Prod.fst ++ m.graphInputs ++ m.produced.filter (!isLeftOut ·))

instance (m : Model) : Decidable m.HasDistinctNames :=
  inferInstanceAs (Decidable (Name.Distinct _))

/-- The graph of a model binds the names of the model and those that are made. -/
theorem perm_scope (hd : Name.Distinct (m.initializers.map Prod.fst)) (h : m.convert = .ok g) :
    g.inputs = m.graphInputs ∧ g.scope.Perm (m.bound ++ m.made) := by
  obtain ⟨c, @⟨constants, front, hconstants, hfront, hnodes⟩, rfl⟩ := convert_eq_ok_iff.mp h
  have hread := map_fst_constants hconstants hd
  rw [hread] at hnodes
  have hprepared : m.prepared
      = .ok (((start m).addAll front).declareModel m (m.initializers.map Prod.fst)) := by
    rw [prepared, hconstants, ← hread]
    exact bind_eq_ok_iff.mpr ⟨_, rfl, bind_eq_ok_iff.mpr
      ⟨_, addInitializers_eq_ok_iff.mpr ⟨front, hfront, rfl⟩, rfl⟩⟩
  obtain ⟨hinputs, houtputs⟩ := binds_addAll_initializers hfront (start m)
  obtain ⟨hkept, hperm⟩ := perm_of_addNodes hnodes
  rw [inputs_declareModel, hinputs] at hkept
  rw [nodes_declareModel, houtputs, hread] at hperm
  have hscope : c.graph.scope = m.graphInputs ++ Graph.allOutputs c.graph.nodes := by
    rw [Graph.scope, hkept]
    rfl
  refine ⟨hkept, ?_⟩
  rw [hscope, made, hprepared, bound]
  refine (hperm.append_left _).trans (List.perm_iff_count.mpr fun name => ?_)
  have hnone : Graph.allOutputs (start m).graph.nodes = [] := rfl
  simp only [hnone, List.count_append, List.count_nil]
  omega

/-- The names that a node binds are outputs of it, so those that are given are distinct. -/
theorem distinct_given_bound (hd : m.HasDistinctNames) :
    Name.Distinct (m.bound.filter (!isLeftOut ·)) := by
  have hnode (n : Node) : n.bound.Sublist n.outputs := by
    unfold Node.bound
    split
    · exact List.take_sublist 1 _
    · exact List.Sublist.refl _
  have hnodes (ns : List Node) : (ns.flatMap Node.bound).Sublist (ns.flatMap Node.outputs) := by
    induction ns with
    | nil => exact List.Sublist.refl []
    | cons n ns ih =>
      rw [List.flatMap_cons, List.flatMap_cons]
      exact (hnode n).append ih
  refine hd.sublist ?_
  rw [bound, List.filter_append]
  exact List.Sublist.append List.filter_sublist ((hnodes m.nodes).filter _)

/-- A name is bound twice when two are left out, when a name is made twice, or when a name
is made that the model uses itself. -/
theorem distinct_scope_iff (hd : m.HasDistinctNames) (h : m.convert = .ok g) :
    Name.Distinct g.scope ↔ (m.bound.filter isLeftOut).length ≤ 1 ∧ Name.Distinct m.made ∧
      ∀ name ∈ m.made, name.isAmong m.bound = false := by
  have hinitializers : Name.Distinct (m.initializers.map Prod.fst) :=
    (Name.distinct_append.mp (Name.distinct_append.mp hd).1).1
  obtain ⟨-, hperm⟩ := perm_scope hinitializers h
  have hscope : Name.Distinct g.scope ↔ Name.Distinct (m.bound ++ m.made) :=
    ⟨.perm hperm, .perm hperm.symm⟩
  have hapart : (∀ name ∈ m.bound, name.key ∉ m.made.map Name.key) ↔
      ∀ name ∈ m.made, name.isAmong m.bound = false := by
    simp only [← Bool.not_eq_true, Name.isAmong_iff, List.mem_map, not_exists, not_and]
    exact ⟨fun hnone name hname other hother hkey => hnone other hother name hname hkey.symm,
      fun hnone name hname other hother hkey => hnone other hother name hname hkey.symm⟩
  rw [hscope, Name.distinct_append, distinct_iff_of_leftOut (distinct_given_bound hd), hapart]

theorem toGraph_true_of_convert (h : m.convert = .ok g) :
    m.toGraph true = (Fault.ofValidation g.validate).map fun _ => g := by
  rw [toGraph, h, ok_bind]
  cases Fault.ofValidation g.validate with
  | ok u => rfl
  | error f => rfl

/-- **Freshness.** Let the names that a model gives its values be distinct. Its graph binds
no name twice just if at most one is left out, the made names are distinct, and none of
them is one of the model's. Then validation never reports a name that is bound twice.
Where an output repeats it does, and a graph that binds any name twice is refused. -/
theorem fresh_iff_of_toGraph (hd : m.HasDistinctNames) (h : m.toGraph false = .ok g) :
    (Name.Distinct g.scope ↔ (m.bound.filter isLeftOut).length ≤ 1 ∧ Name.Distinct m.made ∧
        ∀ name ∈ m.made, name.isAmong m.bound = false) ∧
      (Name.Distinct g.scope → ∀ e, m.toGraph true = .error (.validation e) →
        e.code ≠ "EDUP_PRODUCER") ∧
      (¬ Name.Distinct (Graph.allOutputs g.nodes) → ∃ e,
        m.toGraph true = .error (Fault.validation e).settled ∧ e.code = "EDUP_PRODUCER") ∧
      (¬ Name.Distinct g.scope → ∃ f, m.toGraph true = .error f) := by
  have hconvert := (toGraph_eq_ok_iff.mp h).1
  have htrue := toGraph_true_of_convert hconvert
  have hsources := (Name.distinct_append.mp hd).1
  obtain ⟨hinputs, -⟩ := perm_scope (Name.distinct_append.mp hsources).1 hconvert
  refine ⟨distinct_scope_iff hd hconvert, fun hscope e he => ?_, fun houtputs => ?_,
    fun hscope => ?_⟩
  · cases hcheck : g.validate with
    | ok _ =>
      rw [htrue, hcheck] at he
      cases he
    | error e' =>
      rw [htrue, hcheck] at he
      have hsettled : (Fault.validation e').settled = .validation e := Except.error.inj he
      unfold Fault.settled at hsettled
      split at hsettled <;> cases hsettled
      exact Graph.code_ne_of_distinct hscope hcheck
  · obtain ⟨e, hcheck, hcode⟩ := Graph.exists_of_not_distinct houtputs
    refine ⟨e, ?_, hcode⟩
    rw [htrue, hcheck]
    rfl
  · cases hcheck : g.validate with
    | ok _ =>
      refine absurd (Graph.distinct_scope_of_validate ?_ hcheck) hscope
      rw [hinputs]
      exact (Name.distinct_append.mp hsources).2.1
    | error e =>
      rw [htrue, hcheck]
      exact ⟨_, rfl⟩

/-- A transposition, and what becomes of it; the second output of the last node is left
out. -/
def masking : Model where
  inputs := [⟨.text "x", some [some 2, some 3]⟩]
  outputs := [⟨.text "z", none⟩]
  nodes :=
    [{ op := .text "Transpose", name := .text "", inputs := [.text "x"], outputs := [.text "y"],
       attributes := [(.text "perm", .ints [1, 0])] },
     { op := .text "Dropout", name := .text "", inputs := [.text "y"],
       outputs := [.text "z", .text ""], attributes := [] }]

/-- One name is made and one is left out, and nothing is bound twice. -/
theorem fresh_masking :
    ∃ g, masking.toGraph false = .ok g ∧ masking.made = [.text "y__perm"] ∧
      (masking.bound.filter isLeftOut).length = 1 ∧ Name.Distinct g.scope ∧
      ∀ e, masking.toGraph true = .error (.validation e) → e.code ≠ "EDUP_PRODUCER" := by
  have hmade : masking.made = [.text "y__perm"] := by decide +kernel
  have hleftOut : (masking.bound.filter isLeftOut).length = 1 := by decide +kernel
  have hnames : (masking.toGraph false).toOption.isSome = true := by decide +kernel
  obtain ⟨g, hg⟩ := Option.isSome_iff_exists.mp hnames
  have hgraph := eq_ok_of_toOption hg
  obtain ⟨hiff, hcode, -, -⟩ := fresh_iff_of_toGraph (by decide +kernel) hgraph
  have hscope : Name.Distinct g.scope := by
    rw [hiff, hmade, hleftOut]
    exact ⟨Nat.le_refl 1, by decide, by decide +kernel⟩
  exact ⟨g, hgraph, hmade, hleftOut, hscope, hcode hscope⟩

/-- A model that uses the name of a permutation for a value of its own. -/
def shadowing : Model where
  inputs := [⟨.text "x", some [some 2, some 3]⟩]
  outputs := [⟨.text "y__perm", none⟩]
  nodes :=
    [{ op := .text "Transpose", name := .text "", inputs := [.text "x"], outputs := [.text "y"],
       attributes := [(.text "perm", .ints [1, 0])] },
     { op := .text "Relu", name := .text "", inputs := [.text "y"],
       outputs := [.text "y__perm"], attributes := [] }]

/-- A model in which two nodes leave out an output. -/
def omitting : Model where
  inputs := [⟨.text "x", some [some 2, some 3]⟩]
  outputs := [⟨.text "z", none⟩]
  nodes :=
    [{ op := .text "Dropout", name := .text "", inputs := [.text "x"],
       outputs := [.text "y", .text ""], attributes := [] },
     { op := .text "Dropout", name := .text "", inputs := [.text "y"],
       outputs := [.text "z", .text ""], attributes := [] }]

/-- **Distinct names do not make a graph valid.** A made name can be one of the model's, and
two outputs that are left out are one name. -/
theorem not_distinct_of_toGraph :
    (¬ ∀ (m : Model) (g : Graph), m.HasDistinctNames → (m.bound.filter isLeftOut).length = 0 →
        m.toGraph false = .ok g → Name.Distinct (Graph.allOutputs g.nodes)) ∧
      ¬ ∀ (m : Model) (g : Graph), m.HasDistinctNames → m.made = [] →
        m.toGraph false = .ok g → Name.Distinct (Graph.allOutputs g.nodes) := by
  have hrefuted {m : Model} (houtputs : ((m.toGraph false).toOption.map fun g =>
      decide (Name.Distinct (Graph.allOutputs g.nodes))) = some false) :
      ∃ g, m.toGraph false = .ok g ∧ ¬ Name.Distinct (Graph.allOutputs g.nodes) := by
    obtain ⟨g, hg, hrepeats⟩ := Option.map_eq_some_iff.mp houtputs
    exact ⟨g, eq_ok_of_toOption hg, of_decide_eq_false hrepeats⟩
  refine ⟨fun h => ?_, fun h => ?_⟩
  · obtain ⟨g, hg, hrepeats⟩ := hrefuted (m := shadowing) (by decide +kernel)
    exact hrepeats (h shadowing g (by decide +kernel) (by decide +kernel) hg)
  · obtain ⟨g, hg, hrepeats⟩ := hrefuted (m := omitting) (by decide +kernel)
    exact hrepeats (h omitting g (by decide +kernel) (by decide +kernel) hg)

end Model

end Onnx

end GraphShapes
