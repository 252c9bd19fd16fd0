/-
GraphShapes.Proofs.ValidityTheorems — what validation checks.

`validate_eq_ok_iff` reads the checks as statements about the graph: no value is
output twice, every name in use is declared, no graph input is output by a
node, and there is an order. Each check has its own lemma, in the order in
which the checks run.
-/
import GraphShapes.Graph.Validity
import GraphShapes.Proofs.OrderTheorems

namespace GraphShapes.Graph

variable {g : Graph} {ps : Producers}

/-- A node uses declared names when none of them is missing. -/
theorem undeclaredAt?_eq_none_iff {i : Nat} {node : Node} :
    g.undeclaredAt? i node = none ↔
      ∀ name ∈ node.inputs ++ node.outputs, g.declares name = true := by
  unfold undeclaredAt?
  cases hin : node.inputs.find? (!g.declares ·) with
  | some name =>
    have hmissing : g.declares name = false := by simpa using List.find?_some hin
    have hmem : name ∈ node.inputs ++ node.outputs :=
      List.mem_append_left _ (List.mem_of_find?_eq_some hin)
    constructor
    · intro h
      cases h
    · intro hall
      rw [hall name hmem] at hmissing
      cases hmissing
  | none =>
    have hinputs : ∀ name ∈ node.inputs, g.declares name = true := by
      simpa using List.find?_eq_none.mp hin
    rw [Option.map_eq_none_iff, List.find?_eq_none, List.forall_mem_append]
    simpa using fun _ => hinputs

theorem checkNodes_eq_ok_iff :
    g.checkNodes = .ok () ↔
      ∀ node ∈ g.nodes, ∀ name ∈ node.inputs ++ node.outputs, g.declares name = true := by
  rw [checkNodes]
  split
  · next e he =>
    obtain ⟨⟨node, i⟩, hmem, hat⟩ := List.exists_of_findSome?_eq_some he
    constructor
    · intro h
      cases h
    · intro hall
      have hnode : g.undeclaredAt? i node = none :=
        undeclaredAt?_eq_none_iff.mpr (hall node (List.fst_mem_of_mem_zipIdx hmem))
      cases hnode.symm.trans hat
  · next hnone =>
    rw [List.findSome?_eq_none_iff] at hnone
    constructor
    · intro _ node hnode
      obtain ⟨i, hi⟩ := List.getElem?_of_mem hnode
      exact undeclaredAt?_eq_none_iff.mp (hnone (node, i) (List.mem_zipIdx_iff_getElem?.mpr hi))
    · intro _
      rfl

theorem checkEnds_eq_ok_iff :
    g.checkEnds = .ok () ↔ ∀ name ∈ g.inputs ++ g.outputs, g.declares name = true := by
  have hall : (g.inputs.find? (!g.declares ·) = none ∧ g.outputs.find? (!g.declares ·) = none) ↔
      ∀ name ∈ g.inputs ++ g.outputs, g.declares name = true := by
    rw [List.forall_mem_append, List.find?_eq_none, List.find?_eq_none]
    simp
  rw [← hall, checkEnds]
  split <;> simp_all

theorem checkInputs_eq_ok_iff (hps : g.producers = .ok ps) :
    g.checkInputs ps = .ok () ↔
      ∀ name ∈ g.inputs, name.isAmong (allOutputs g.nodes) = false := by
  have hall : (g.inputs.findSome? fun name => (lookup? ps name).map (name, ·)) = none ↔
      ∀ name ∈ g.inputs, name.isAmong (allOutputs g.nodes) = false := by
    simp only [List.findSome?_eq_none_iff, Option.map_eq_none_iff, lookup?_producers_eq_none hps]
  rw [← hall, checkInputs]
  split
  · next he => simp [he]
  · next hnone => simp [hnone]

/-- **Validation.** A graph is accepted when its producers exist, all names are
declared, no graph input is produced and the nodes have an order. -/
theorem validate_eq_ok_iff :
    g.validate = .ok () ↔
      ∃ ps, g.producers = .ok ps ∧
        (∀ node ∈ g.nodes, ∀ name ∈ node.inputs ++ node.outputs, g.declares name = true) ∧
        (∀ name ∈ g.inputs ++ g.outputs, g.declares name = true) ∧
        (∀ name ∈ g.inputs, name.isAmong (allOutputs g.nodes) = false) ∧
        ∃ order, g.orderFrom ps = .ok order := by
  simp only [← checkNodes_eq_ok_iff, ← checkEnds_eq_ok_iff, validate, bind_eq_ok_iff,
    pure_eq_ok_iff]
  constructor
  · rintro ⟨ps, hps, _, hnodes, _, hends, _, hfree, order, horder, _⟩
    exact ⟨ps, hps, hnodes, hends, (checkInputs_eq_ok_iff hps).mp hfree, order, horder⟩
  · rintro ⟨ps, hps, hnodes, hends, hfree, order, horder⟩
    exact ⟨ps, hps, (), hnodes, (), hends, (), (checkInputs_eq_ok_iff hps).mpr hfree, order,
      horder, trivial⟩

end GraphShapes.Graph
