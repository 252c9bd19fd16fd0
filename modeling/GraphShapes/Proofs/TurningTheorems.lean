/-
GraphShapes.Proofs.TurningTheorems — conversion with one more target.

Which names are targets of reshapes is known before a model is converted. With one more
such name its constant is a list of integers, and no more a tensor: it turns
(`Piece.Turns`). Nothing else of the graph changes (`exists_converts`). Step by step, the
two conversions agree on all other names (`Conversion.Agrees`), and a node that is converted
looks at no other name, unless it is a reshape that takes in the constant.

That the constant can turn is a matter of its integers, and of it being the only thing of
its name: where names are written once, it is (`Model.Converts.owns`).

  §1 Nodes      — constant nodes that turn, and the names that a graph uses.
  §2 Agreement  — pieces that turn, and conversions that agree.
  §3 Conversion — a model with one more target.
  §4 Owners     — the constant is all that the model has under its name.
-/
import GraphShapes.Proofs.LiteralTheorems
import GraphShapes.Proofs.ScopeTheorems

namespace GraphShapes

/-! ## §1 Nodes -/

/-- A node stays what it is, or is a constant that turns into a list of integers. -/
inductive Node.Turns (s : Name) (t : List Int) : Node → Node → Prop
  | same (node : Node) : Turns s t node node
  | integers (v : Datum) : Turns s t (.fixed s v) (.fixed s (.list (t.map .int)))

section Turns

variable {s : Name} {t : List Int} {nodes nodes' : List Node}

/-- Nodes that turn consume, output and track what they did. -/
theorem Node.Turns.names {node node' : Node} (h : node.Turns s t node') :
    node'.inputs = node.inputs ∧ node'.outputs = node.outputs ∧ node'.tracked = node.tracked := by
  cases h <;> exact ⟨rfl, rfl, rfl⟩

theorem trackedNames_turns (h : List.Forall₂ (Node.Turns s t) nodes nodes') :
    Graph.trackedNames nodes' = Graph.trackedNames nodes := by
  induction h with
  | nil => rfl
  | cons hnode _ ih => rw [Graph.trackedNames_cons, Graph.trackedNames_cons, hnode.names.2.2, ih]

theorem allOutputs_turns (h : List.Forall₂ (Node.Turns s t) nodes nodes') :
    Graph.allOutputs nodes' = Graph.allOutputs nodes := by
  induction h with
  | nil => rfl
  | cons hnode _ ih =>
    simp only [Graph.allOutputs, List.flatMap_cons] at ih ⊢
    rw [hnode.names.2.1, ih]

theorem ordered_turns {bound : List Name} (h : List.Forall₂ (Node.Turns s t) nodes nodes')
    (ho : Graph.Ordered bound nodes) : Graph.Ordered bound nodes' := by
  induction h generalizing bound with
  | nil => trivial
  | cons hnode _ ih =>
    rw [Graph.Ordered, hnode.names.1, hnode.names.2.2]
    exact ⟨ho.1, ih ho.2⟩

/-- A node that does not track the constant was there before. -/
theorem mem_of_turns {node : Node} (h : List.Forall₂ (Node.Turns s t) nodes nodes')
    (hnode : node ∈ nodes') (hfree : s.isAmong node.tracked = false) : node ∈ nodes := by
  obtain ⟨before, hbefore, hturn⟩ := exists_of_forall₂_of_mem h hnode
  cases hturn with
  | same => exact hbefore
  | integers v =>
    rw [Node.isAmong_tracked_fixed] at hfree
    cases hfree

/-- A node that consumes something is still there. -/
theorem mem_of_turns_of_inputs {node : Node} {name : Name}
    (h : List.Forall₂ (Node.Turns s t) nodes nodes') (hnode : node ∈ nodes)
    (hin : name.isAmong node.inputs = true) : node ∈ nodes' := by
  obtain ⟨behind, hbehind, hturn⟩ := exists_of_forall₂_of_mem h.flip hnode
  cases hturn with
  | same => exact hbehind
  | integers v => cases hin

end Turns

namespace Onnx

open Conversion

/-! ## §2 Agreement -/

variable {c d : Conversion} {m : Model} {n : Node} {ns : List Node} {targets others : List Name}
  {index : Nat} {s name : Name} {k : Constant} {t : List Int} {p p' : Piece}
  {ps ps' front : List Piece} {constants : List (Name × Constant)}

/-- A piece stays what it is, or turns from a tensor into a list of integers as its name
becomes a target. -/
inductive Piece.Turns (targets : List Name) (s : Name) (t : List Int) : Piece → Piece → Prop
  | same (p : Piece) : Turns targets s t p p
  | integers (v : Datum) (plain : targets.contains s = false) :
      Turns targets s t (.constant s v) (.target s t)

/-- A constant of integers turns as its name becomes a target. -/
theorem Piece.turns_ofConstant (targets : List Name) (s : Name) (k : Constant) (t : List Int) :
    Turns targets s t (.ofConstant targets s k t) (.target s t) := by
  unfold ofConstant
  split
  · exact .same _
  · next plain => exact .integers _ (Bool.not_eq_true _ ▸ plain)

/-- The names in the place of targets are those of before and one more. -/
def Adds (targets others : List Name) (s : Name) : Prop :=
  ∀ name, others.contains name = (targets.contains name || name == s)

namespace Conversion

/-- The conversions agree on every name but one, and on that too if it is a target. -/
structure Agrees (targets : List Name) (s : Name) (c d : Conversion) : Prop where
  declares : ∀ name, d.graph.declares name = c.graph.declares name
  values : ∀ name, (s.same name = true → targets.contains s = true) →
    d.graph.value? name = c.graph.value? name
  targets : ∀ name, (s.same name = true → targets.contains s = true) →
    lookup? d.targets name = lookup? c.targets name

namespace Agrees

theorem refl (targets : List Name) (s : Name) (c : Conversion) : c.Agrees targets s c :=
  ⟨fun _ => rfl, fun _ _ => rfl, fun _ _ => rfl⟩

theorem add (h : c.Agrees targets s d) (hp : p.Turns targets s t p') :
    (c.add p).Agrees targets s (d.add p') := by
  cases hp with
  | same p =>
    refine ⟨fun name => ?_, fun name hname => ?_, fun name hname => ?_⟩
    · rw [declares_add, declares_add, h.declares]
    · rw [value?_add, value?_add, h.values name hname]
    · rw [lookup?_targets_add, lookup?_targets_add, h.targets name hname]
  | integers v plain =>
    have hother (name : Name) (hname : s.same name = true → targets.contains s = true) :
        s.same name = false := by
      rw [← Bool.not_eq_true]
      intro hsame
      rw [plain] at hname
      cases hname hsame
    refine ⟨fun name => ?_, fun name hname => ?_, fun name hname => ?_⟩
    · rw [declares_add, declares_add, h.declares]
      rfl
    · simp only [value?_add, Piece.declared, lookup?_cons, hother name hname, lookup?_nil,
        h.values name hname]
      rfl
    · simp only [lookup?_targets_add, Piece.kept, lookup?_cons, hother name hname, lookup?_nil,
        h.targets name hname]
      rfl

theorem addAll (h : c.Agrees targets s d) (hps : List.Forall₂ (Piece.Turns targets s t) ps ps') :
    (c.addAll ps).Agrees targets s (d.addAll ps') := by
  induction hps generalizing c d with
  | nil => exact h
  | cons hp _ ih => exact ih (h.add hp)

theorem declareModel (h : c.Agrees targets s d) (m : Model) (initializers : List Name) :
    (c.declareModel m initializers).Agrees targets s (d.declareModel m initializers) where
  declares name := by
    have hname : (d.graph.value? name).isSome = (c.graph.value? name).isSome := h.declares name
    simp only [Graph.declares, value?_declareModel, Option.isSome_or, hname]
  values name hname := by rw [value?_declareModel, value?_declareModel, h.values name hname]
  targets := h.targets

end Agrees

end Conversion

/-! ## §3 Conversion -/

/-- What the model has under the name are constants of the integers. -/
structure Model.Owns (m : Model) (s : Name) (t : List Int) : Prop where
  initializers : ∀ constants, m.constants = .ok constants → ∀ k, (s, k) ∈ constants →
    k.integers = .ok t
  nodes : ∀ n ∈ m.nodes, n.outputs.head? = some s →
    n.op = .text "Constant" ∧ ∃ k, n.literal? = some k ∧ k.integers = .ok t

/-- No reshape of the model takes in the name, unless it is a target. -/
def Model.Reserves (m : Model) (targets : List Name) (s : Name) : Prop :=
  ∀ n ∈ m.nodes, n.op = .text "Reshape" → ∀ name ∈ n.givenInputs, s.same name = true →
    targets.contains s = true

/-- Initializers turn with one more target. -/
theorem exists_turns_initializers (h : List.Forall₂ (Piece.OfInitializer targets) constants front)
    (hadds : Adds targets others s) (hown : ∀ k, (s, k) ∈ constants → k.integers = .ok t) :
    ∃ front', List.Forall₂ (Piece.OfInitializer others) constants front' ∧
      List.Forall₂ (Piece.Turns targets s t) front front' := by
  induction h with
  | nil => exact ⟨[], .nil, .nil⟩
  | @cons entry p constants front hp _ ih =>
    obtain ⟨front', hfront, hturns⟩ := ih fun k hk => hown k (List.mem_cons_of_mem _ hk)
    obtain ⟨name, k⟩ := entry
    have hcontains := hadds name
    by_cases hname : name = s
    · subst hname
      have ht := hown k List.mem_cons_self
      cases (Piece.ofInitializer_iff ht).mp hp
      rw [beq_self_eq_true, Bool.or_true] at hcontains
      exact ⟨_, .cons (.target hcontains ht) hfront, .cons (Piece.turns_ofConstant ..) hturns⟩
    · rw [beq_eq_false_iff_ne.mpr hname, Bool.or_false] at hcontains
      refine ⟨p :: front', .cons ?_ hfront, .cons (.same p) hturns⟩
      cases hp with
      | constant plain => exact .constant (hcontains.trans plain)
      | target used integers => exact .target (hcontains.trans used) integers

namespace Conversion

/-- **One node.** With one more target a node adds the same piece, or its constant turns,
unless it is a reshape that takes in the new target. -/
theorem exists_turns_of_addNode {c' : Conversion} (h : c.addNode targets index n = .ok c')
    (hd : c.Agrees targets s d) (hadds : Adds targets others s)
    (hown : n.outputs.head? = some s →
      n.op = .text "Constant" ∧ ∃ k, n.literal? = some k ∧ k.integers = .ok t)
    (hfree : n.op = .text "Reshape" → ∀ name ∈ n.givenInputs, s.same name = true →
      targets.contains s = true) :
    ∃ p p', p.Turns targets s t p' ∧ c' = c.add p ∧ d.addNode others index n = .ok (d.add p') := by
  by_cases hhead : n.outputs.head? = some s
  · obtain ⟨hop, k, hheld, ht⟩ := hown hhead
    have hcontains : others.contains s = true := by
      rw [hadds, beq_self_eq_true, Bool.or_true]
    rw [addNode_of_literal c targets index hop hhead hheld ht] at h
    refine ⟨_, _, Piece.turns_ofConstant targets s k t, (Except.ok.inj h).symm, ?_⟩
    rw [addNode_of_literal d others index hop hhead hheld ht, Piece.ofConstant, hcontains,
      if_pos rfl]
  · obtain ⟨p, _, hp, _, hadd⟩ := exists_piece_of_addNode h
    refine ⟨p, p, .same p, hp, hadd d others ?_ ?_⟩
    · intro name hname
      have hne : name ≠ s := fun hsame => hhead (hsame ▸ hname)
      rw [hadds, beq_eq_false_iff_ne.mpr hne, Bool.or_false]
    · intro hop name hname
      have hsame := hfree hop name hname
      exact ⟨hd.targets name hsame, by rw [declaredSizes?, declaredSizes?, hd.values name hsame]⟩

/-- **Nodes.** By induction, with the two conversions in agreement. -/
theorem exists_turns_of_addNodes {c' : Conversion} (h : addNodes targets c index ns = .ok c')
    (hd : c.Agrees targets s d) (hadds : Adds targets others s)
    (hown : ∀ n ∈ ns, n.outputs.head? = some s →
      n.op = .text "Constant" ∧ ∃ k, n.literal? = some k ∧ k.integers = .ok t)
    (hfree : ∀ n ∈ ns, n.op = .text "Reshape" → ∀ name ∈ n.givenInputs, s.same name = true →
      targets.contains s = true) :
    ∃ ps ps', List.Forall₂ (Piece.Turns targets s t) ps ps' ∧ c' = c.addAll ps ∧
      addNodes others d index ns = .ok (d.addAll ps') := by
  induction ns generalizing c d index with
  | nil =>
    cases h
    exact ⟨[], [], .nil, rfl, rfl⟩
  | cons n ns ih =>
    rw [List.forall_mem_cons] at hown hfree
    obtain ⟨_, hfirst, hrest⟩ := addNodes_cons_eq_ok_iff.mp h
    obtain ⟨p, p', hp, rfl, hadd⟩ := exists_turns_of_addNode hfirst hd hadds hown.1 hfree.1
    obtain ⟨ps, ps', hps, rfl, hall⟩ := ih hrest (hd.add hp) hown.2 hfree.2
    exact ⟨p :: ps, p' :: ps', .cons hp hps, rfl, addNodes_cons_eq_ok_iff.mpr ⟨_, hadd, hall⟩⟩

end Conversion

/-- The nodes of pieces that turn. -/
theorem Piece.nodes_turns (h : List.Forall₂ (Turns targets s t) ps ps') :
    List.Forall₂ (Node.Turns s t) (ps.flatMap nodes) (ps'.flatMap nodes) := by
  induction h with
  | nil => exact .nil
  | cons hp _ ih =>
    rw [List.flatMap_cons, List.flatMap_cons]
    refine List.rel_append ?_ ih
    cases hp with
    | same p => exact List.forall₂_same.mpr fun node _ => .same node
    | integers v => exact .cons (.integers v) .nil

/-- What is left of a conversion with one more target: the same graph but for the constant,
which has turned. -/
structure Conversion.Turns (targets : List Name) (s : Name) (t : List Int) (c d : Conversion) :
    Prop where
  agrees : c.Agrees targets s d
  nodes : List.Forall₂ (Node.Turns s t) c.graph.nodes d.graph.nodes
  inputs : d.graph.inputs = c.graph.inputs
  outputs : d.graph.outputs = c.graph.outputs

/-- **Models.** A model that is converted is also converted with one more target, if what it
has under that name are constants of integers and no reshape takes it in otherwise. -/
theorem exists_converts (h : m.Converts targets c) (hadds : Adds targets others s)
    (hown : m.Owns s t) (hfree : m.Reserves targets s) :
    ∃ d, m.Converts others d ∧ c.Turns targets s t d := by
  obtain @⟨constants, front, hconstants, hfront, hnodes⟩ := h
  obtain ⟨front', hfront', hturns⟩ :=
    exists_turns_initializers hfront hadds (hown.initializers constants hconstants)
  have hagrees : (((start m).addAll front).declareModel m (constants.map (·.1))).Agrees targets s
      (((start m).addAll front').declareModel m (constants.map (·.1))) :=
    ((Agrees.refl targets s (start m)).addAll hturns).declareModel m _
  obtain ⟨ps, ps', hps, rfl, hall⟩ :=
    exists_turns_of_addNodes hnodes hagrees hadds hown.nodes hfree
  refine ⟨_, ⟨hconstants, hfront', hall⟩, hagrees.addAll hps, ?_, ?_, ?_⟩
  · simp only [nodes_addAll, nodes_declareModel]
    exact List.rel_append (Piece.nodes_turns hturns) (Piece.nodes_turns hps)
  · simp only [inputs_addAll, inputs_declareModel]
  · simp only [outputs_addAll, outputs_declareModel]

/-! ## §4 Owners -/

/-- The first output of a node is always tracked. -/
theorem mem_tracked_of_head? {node : GraphShapes.Node} (h : node.outputs.head? = some name) :
    name ∈ node.tracked := by
  obtain ⟨rest, hrest⟩ := List.head?_eq_some_iff.mp h
  unfold Node.tracked Operator.tracked
  rw [hrest]
  repeat' split
  all_goals exact List.mem_cons_self

namespace Piece

/-- A piece tracks the first output of the model's node. -/
theorem Of.isAmong_tracked (h : p.Of n) (hfirst : n.outputs.head? = some name) :
    name.isAmong (Graph.trackedNames p.nodes) = true := by
  have hlast {node : GraphShapes.Node} (houtputs : node.outputs = n.outputs) :
      name ∈ Graph.trackedNames [node] := by
    rw [← houtputs] at hfirst
    simpa using mem_tracked_of_head? hfirst
  apply Name.isAmong_iff.mpr
  apply List.mem_map_of_mem
  cases h with
  | node => exact hlast rfl
  | pair =>
    rw [nodes, Graph.trackedNames_cons]
    exact List.mem_append_right _ (hlast rfl)
  | constant literal first =>
    cases first.symm.trans hfirst
    exact List.mem_cons_self
  | target literal first =>
    cases first.symm.trans hfirst
    exact List.mem_cons_self

theorem OfInitializer.isAmong_tracked (h : OfInitializer targets (name, k) p) :
    name.isAmong (Graph.trackedNames p.nodes) = true := by
  cases h <;> exact Name.isAmong_of_mem List.mem_cons_self

theorem trackedNames_subset (hp : p ∈ ps) :
    Graph.trackedNames p.nodes ⊆ Graph.trackedNames (ps.flatMap nodes) := by
  intro name hname
  obtain ⟨node, hnode, htracked⟩ := List.mem_flatMap.mp hname
  exact List.mem_flatMap.mpr ⟨node, List.mem_flatMap.mpr ⟨p, hp, hnode⟩, htracked⟩

/-- Where names are written once, one source has a piece that tracks a name. -/
theorem eq_of_forall₂ {α : Type} {R : α → Piece → Prop} {as : List α} {a b : α}
    (h : List.Forall₂ R as ps) (hd : Name.Distinct (Graph.trackedNames (ps.flatMap nodes)))
    (ha : a ∈ as) (hb : b ∈ as)
    (htracked : ∀ p, R a p → name.isAmong (Graph.trackedNames p.nodes) = true)
    (htracked' : ∀ p, R b p → name.isAmong (Graph.trackedNames p.nodes) = true) : a = b := by
  induction h with
  | nil => cases ha
  | @cons first p as ps hp hps ih =>
    rw [List.flatMap_cons, Graph.trackedNames_append] at hd
    -- What the first piece tracks is tracked by none of the others.
    have hfirst {other : α} (hother : other ∈ as)
        (hin : name.isAmong (Graph.trackedNames p.nodes) = true)
        (hin' : ∀ p, R other p → name.isAmong (Graph.trackedNames p.nodes) = true) : False := by
      obtain ⟨p', hp', hof⟩ := exists_of_forall₂_of_mem hps.flip hother
      have hrest := Name.isAmong_of_subset (trackedNames_subset hp') (hin' p' hof)
      rw [hd.not_isAmong hin] at hrest
      cases hrest
    rcases List.mem_cons.mp ha with rfl | harest <;> rcases List.mem_cons.mp hb with rfl | hbrest
    · rfl
    · exact (hfirst hbrest (htracked p hp) htracked').elim
    · exact (hfirst harest (htracked' p hp) htracked).elim
    · exact ih (Name.distinct_append.mp hd).2.1 harest hbrest

end Piece

/-- **Owners.** Where names are written once, what a model has under the name of a constant
of integers is that constant. -/
theorem Model.Converts.owns (h : m.Converts targets c)
    (hd : Name.Distinct (Graph.trackedNames c.graph.nodes)) (hheld : m.Holds s k)
    (ht : k.integers = .ok t) : m.Owns s t := by
  obtain @⟨constants, front, hconstants, hfront, hnodes⟩ := h
  obtain ⟨ps, hps, rfl⟩ := exists_pieces_of_addNodes hnodes
  have hnone : (start m).graph.nodes = [] := rfl
  rw [nodes_addAll, nodes_declareModel, nodes_addAll, hnone, List.nil_append,
    Graph.trackedNames_append] at hd
  have hinitializer (k : Constant) (p : Piece) (hof : Piece.OfInitializer targets (s, k) p) :
      s.isAmong (Graph.trackedNames p.nodes) = true := hof.isAmong_tracked
  have hnode (n : Node) (hfirst : n.outputs.head? = some s) (p : Piece) (hof : p.Of n) :
      s.isAmong (Graph.trackedNames p.nodes) = true := hof.isAmong_tracked hfirst
  -- The name is not that of an initializer and of a node.
  have hapart {k : Constant} (hk : (s, k) ∈ constants) {n : Node} (hn : n ∈ m.nodes)
      (hfirst : n.outputs.head? = some s) : False := by
    obtain ⟨p, hp, hof⟩ := exists_of_forall₂_of_mem hfront.flip hk
    obtain ⟨p', hp', hof'⟩ := exists_of_forall₂_of_mem hps.flip hn
    have hbehind := Name.isAmong_of_subset (Piece.trackedNames_subset hp') (hnode n hfirst p' hof')
    rw [hd.not_isAmong (Name.isAmong_of_subset (Piece.trackedNames_subset hp)
      (hinitializer k p hof))] at hbehind
    cases hbehind
  have hd := Name.distinct_append.mp hd
  cases hheld with
  | initializer read mem =>
    cases hconstants.symm.trans read
    refine ⟨fun constants' hconstants' k' hk' => ?_, fun n hn hfirst => (hapart mem hn hfirst).elim⟩
    cases hconstants.symm.trans hconstants'
    cases Piece.eq_of_forall₂ hfront hd.1 mem hk' (hinitializer k) (hinitializer k')
    exact ht
  | @node n mem literal first held =>
    refine ⟨fun constants' hconstants' k' hk' => ?_, fun n' hn' hfirst => ?_⟩
    · cases hconstants.symm.trans hconstants'
      exact (hapart hk' mem first).elim
    · cases Piece.eq_of_forall₂ hps hd.2.1 mem hn' (hnode n first) (hnode n' hfirst)
      exact ⟨literal, k, held, ht⟩

end Onnx

end GraphShapes
