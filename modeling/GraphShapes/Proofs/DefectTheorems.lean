/-
GraphShapes.Proofs.DefectTheorems — which defect of a graph validation reports.

A graph is `WellFormed` when no value is output twice, every name in use is
declared, no graph input is output by a node, and no node feeds itself.
Validation accepts exactly the well-formed graphs (`validate_eq_ok_iff_wellFormed`).
Of any other graph it reports one defect, and `FirstDefect` says which: the
checks come in a fixed order, a check of the nodes answers with the least index
at which it fails, and where a node has undeclared names on both sides its
inputs come first.

Each check has one lemma that reads its error as a statement about the graph;
`firstDefect_of_validate` puts them behind one another.

A defect is told by naming a value. Where the names in use have texts, so has
every defect (`isWritable_of_validate`).

  §1 Defects   — `WellFormed`, `FirstDefect`.
  §2 Checks    — the error of each check.
  §3 Texts     — `NamesWritable`, and the names that errors show.
  §4 Verdicts  — acceptance, and the first defect.
-/
import GraphShapes.Proofs.SortTheorems
import GraphShapes.Proofs.ValidityTheorems
import Mathlib.Order.Bounds.Defs

namespace GraphShapes.Graph

variable {g : Graph} {ps : Producers} {e : ValidationError} {i j : Nat}

/-! ## §1 Defects -/

/-- All names that nodes consume and output are declared. -/
def NodesDeclared (g : Graph) : Prop :=
  ∀ node ∈ g.nodes, ∀ name ∈ node.inputs ++ node.outputs, g.declares name = true

/-- All graph inputs and graph outputs are declared. -/
def EndsDeclared (g : Graph) : Prop := ∀ name ∈ g.inputs ++ g.outputs, g.declares name = true

/-- No graph input is output by a node. -/
def InputsFree (g : Graph) : Prop :=
  ∀ name ∈ g.inputs, name.isAmong (allOutputs g.nodes) = false

/-- The graphs that make sense. -/
structure WellFormed (g : Graph) : Prop where
  distinct : Name.Distinct (allOutputs g.nodes)
  nodes : g.NodesDeclared
  ends : g.EndsDeclared
  free : g.InputsFree
  acyclic : ¬ g.Cyclic

/-- Node `i` outputs a name twice, or one that a node in front of it outputs. -/
def RepeatsOutput (g : Graph) (i : Nat) : Prop :=
  ∃ node, g.nodes[i]? = some node ∧
    (¬ Name.Distinct node.outputs ∨
      ∃ name ∈ node.outputs, name.isAmong (allOutputs (g.nodes.take i)) = true)

/-- Node `i` consumes a name that is not declared. -/
def ConsumesUndeclared (g : Graph) (i : Nat) : Prop :=
  ∃ node, g.nodes[i]? = some node ∧ ∃ name ∈ node.inputs, g.declares name = false

/-- Node `i` outputs a name that is not declared. -/
def OutputsUndeclared (g : Graph) (i : Nat) : Prop :=
  ∃ node, g.nodes[i]? = some node ∧ ∃ name ∈ node.outputs, g.declares name = false

/-- The code and the node of the defect that comes first. Every case asks that
what is checked in front of it is in order. -/
inductive FirstDefect (g : Graph) : String → Option Nat → Prop
  | repeatedOutput {i : Nat} (least : IsLeast {i | g.RepeatsOutput i} i) :
      FirstDefect g "EDUP_PRODUCER" (some i)
  | undeclaredInput {i : Nat} (distinct : Name.Distinct (allOutputs g.nodes))
      (least : IsLeast {i | g.ConsumesUndeclared i ∨ g.OutputsUndeclared i} i)
      (consumes : g.ConsumesUndeclared i) :
      FirstDefect g "EINPUT_MISSING" (some i)
  | undeclaredOutput {i : Nat} (distinct : Name.Distinct (allOutputs g.nodes))
      (least : IsLeast {i | g.ConsumesUndeclared i ∨ g.OutputsUndeclared i} i)
      (consumes : ¬ g.ConsumesUndeclared i) :
      FirstDefect g "EOUTPUT_MISSING" (some i)
  | graphInput {name : Name} (distinct : Name.Distinct (allOutputs g.nodes))
      (nodes : g.NodesDeclared) (mem : name ∈ g.inputs) (undeclared : g.declares name = false) :
      FirstDefect g "EGRAPH_INPUT" none
  | graphOutput {name : Name} (distinct : Name.Distinct (allOutputs g.nodes))
      (nodes : g.NodesDeclared) (inputs : ∀ name ∈ g.inputs, g.declares name = true)
      (mem : name ∈ g.outputs) (undeclared : g.declares name = false) :
      FirstDefect g "EGRAPH_OUTPUT" none
  | producedInput {name : Name} {i : Nat} {node : Node}
      (distinct : Name.Distinct (allOutputs g.nodes)) (nodes : g.NodesDeclared)
      (ends : g.EndsDeclared)
      (first : g.inputs.find? (·.isAmong (allOutputs g.nodes)) = some name)
      (producer : g.nodes[i]? = some node) (outputs : name.isAmong node.outputs = true) :
      FirstDefect g "EDUP_PRODUCER" (some i)
  | cycle (distinct : Name.Distinct (allOutputs g.nodes)) (nodes : g.NodesDeclared)
      (ends : g.EndsDeclared) (free : g.InputsFree) (cyclic : g.Cyclic) :
      FirstDefect g "ECYCLE" none

/-! ## §2 Checks -/

/-- Outputs repeat behind distinct ones when a name of theirs does. -/
theorem repeats_of_not_distinct {as bs : List Name} (has : Name.Distinct as)
    (h : ¬ Name.Distinct (as ++ bs)) :
    ¬ Name.Distinct bs ∨ ∃ name ∈ bs, name.isAmong as = true := by
  by_contra hnone
  push Not at hnone
  obtain ⟨hbs, hfresh⟩ := hnone
  refine h (Name.distinct_append.mpr ⟨has, hbs, fun a ha hmem => ?_⟩)
  obtain ⟨b, hb, hkey⟩ := List.mem_map.mp hmem
  exact hfresh b hb (Name.isAmong_iff.mpr (hkey ▸ List.mem_map_of_mem ha))

/-- Among nodes whose outputs are distinct none repeats one. -/
theorem not_repeatsOutput {front rest : List Node} (hnodes : g.nodes = front ++ rest)
    (hd : Name.Distinct (allOutputs front)) (hj : j < front.length) : ¬ g.RepeatsOutput j := by
  rintro ⟨node, hnode, hrepeats⟩
  rw [hnodes, List.getElem?_append_left hj] at hnode
  have hsplit : front = front.take j ++ node :: front.drop (j + 1) := by
    rw [← (List.getElem?_eq_some_iff.mp hnode).2, List.getElem_cons_drop, List.take_append_drop]
  have houtputs : allOutputs front
      = allOutputs (front.take j) ++ (node.outputs ++ allOutputs (front.drop (j + 1))) := by
    conv_lhs => rw [hsplit]
    simp [allOutputs]
  rw [houtputs, Name.distinct_append, Name.distinct_append] at hd
  obtain ⟨_, ⟨hnode', _⟩, hfresh⟩ := hd
  rcases hrepeats with htwice | ⟨name, hname, hamong⟩
  · exact htwice hnode'
  · rw [hnodes, List.take_append_of_le_length (Nat.le_of_lt hj), Name.isAmong_iff] at hamong
    obtain ⟨n, hn, hkey⟩ := List.mem_map.mp hamong
    apply hfresh n hn
    rw [hkey, List.map_append]
    exact List.mem_append_left _ (List.mem_map_of_mem hname)

/-- There are no producers because of the first node that repeats an output. -/
theorem isLeast_of_producers_eq_error (h : g.producers = .error e) :
    ∃ name i earlier, e = .manyProducers name i earlier ∧ IsLeast {i | g.RepeatsOutput i} i := by
  obtain ⟨front, node, rest, name, earlier, hnodes, rfl, hfront, hrepeats⟩ :=
    exists_of_producers_eq_error h
  refine ⟨name, front.length, earlier, rfl, ?_, ?_⟩
  · refine ⟨node, by simp [hnodes], ?_⟩
    rw [hnodes, List.take_left]
    exact repeats_of_not_distinct hfront hrepeats
  · intro j hj
    by_contra hlt
    exact not_repeatsOutput hnodes hfront (Nat.lt_of_not_le hlt) hj

/-- A search through numbered members finds the first one that has an answer. -/
theorem findSome?_zipIdx_eq_some {α β : Type} {xs : List α} {f : α × Nat → Option β} {b : β}
    (h : xs.zipIdx.findSome? f = some b) :
    ∃ i x, xs[i]? = some x ∧ f (x, i) = some b ∧
      ∀ j < i, ∀ y, xs[j]? = some y → f (y, j) = none := by
  obtain ⟨front, ⟨x, i⟩, rest, hsplit, hfound, hnone⟩ := List.findSome?_eq_some_iff.mp h
  have hx : xs.zipIdx[front.length]? = some (x, i) := by simp [hsplit]
  rw [List.getElem?_zipIdx, Option.map_eq_some_iff] at hx
  obtain ⟨x', hx', heq⟩ := hx
  cases heq
  refine ⟨front.length, x, hx', by simpa using hfound, fun j hj y hy => hnone (y, j) ?_⟩
  have hat : (front ++ (x, 0 + front.length) :: rest)[j]? = some (y, j) := by
    rw [← hsplit, List.getElem?_zipIdx, hy]
    simp
  rw [List.getElem?_append_left hj] at hat
  exact List.mem_of_getElem? hat

/-- The first undeclared name of a node is an input if an input is undeclared, and
an output otherwise. -/
theorem of_undeclaredAt?_eq_some {node : Node} (h : g.undeclaredAt? i node = some e) :
    (∃ name ∈ node.inputs, g.declares name = false ∧ e = .undeclaredNodeInput i name) ∨
      ((∀ name ∈ node.inputs, g.declares name = true) ∧
        ∃ name ∈ node.outputs, g.declares name = false ∧ e = .undeclaredNodeOutput i name) := by
  unfold undeclaredAt? at h
  split at h
  · next name hname =>
    cases h
    exact Or.inl ⟨name, List.mem_of_find?_eq_some hname, by simpa using List.find?_some hname, rfl⟩
  · next hnone =>
    obtain ⟨name, hname, rfl⟩ := Option.map_eq_some_iff.mp h
    exact Or.inr ⟨by simpa using List.find?_eq_none.mp hnone, name,
      List.mem_of_find?_eq_some hname, by simpa using List.find?_some hname, rfl⟩

/-- A node has an undeclared name if the check finds one. -/
theorem undeclaredAt?_ne_none_iff {node : Node} (hnode : g.nodes[i]? = some node) :
    g.undeclaredAt? i node ≠ none ↔ g.ConsumesUndeclared i ∨ g.OutputsUndeclared i := by
  simp only [ne_eq, undeclaredAt?_eq_none_iff, ConsumesUndeclared, OutputsUndeclared, hnode,
    Option.some.injEq, exists_eq_left', List.mem_append]
  push Not
  simp only [Bool.not_eq_true]
  constructor
  · rintro ⟨name, hin | hout, hundeclared⟩
    · exact Or.inl ⟨name, hin, hundeclared⟩
    · exact Or.inr ⟨name, hout, hundeclared⟩
  · rintro (⟨name, hin, hundeclared⟩ | ⟨name, hout, hundeclared⟩)
    · exact ⟨name, Or.inl hin, hundeclared⟩
    · exact ⟨name, Or.inr hout, hundeclared⟩

/-- Names of nodes are refused at the first node with an undeclared one. -/
theorem isLeast_of_checkNodes_eq_error (h : g.checkNodes = .error e) :
    ∃ i, IsLeast {i | g.ConsumesUndeclared i ∨ g.OutputsUndeclared i} i ∧
      ((g.ConsumesUndeclared i ∧ ∃ name, e = .undeclaredNodeInput i name) ∨
        (¬ g.ConsumesUndeclared i ∧ ∃ name, e = .undeclaredNodeOutput i name)) := by
  unfold checkNodes at h
  split at h
  · next e' hfound =>
    cases h
    obtain ⟨i, node, hnode, hat, hfirst⟩ := findSome?_zipIdx_eq_some hfound
    refine ⟨i, ⟨?_, ?_⟩, ?_⟩
    · exact (undeclaredAt?_ne_none_iff hnode).mp (by simp [hat])
    · intro j hj
      by_contra hlt
      have hbefore : ∃ earlier, g.nodes[j]? = some earlier := by
        rcases hj with ⟨earlier, hearlier, _⟩ | ⟨earlier, hearlier, _⟩
        · exact ⟨earlier, hearlier⟩
        · exact ⟨earlier, hearlier⟩
      obtain ⟨earlier, hearlier⟩ := hbefore
      exact (undeclaredAt?_ne_none_iff hearlier).mpr hj
        (hfirst j (Nat.lt_of_not_le hlt) earlier hearlier)
    · rcases of_undeclaredAt?_eq_some hat with ⟨name, hname, hundeclared, rfl⟩
        | ⟨hinputs, name, _, _, rfl⟩
      · exact Or.inl ⟨⟨node, hnode, name, hname, hundeclared⟩, name, rfl⟩
      · refine Or.inr ⟨?_, name, rfl⟩
        rintro ⟨node', hnode', n, hn, hundeclared⟩
        rw [hnode] at hnode'
        cases hnode'
        rw [hinputs n hn] at hundeclared
        cases hundeclared
  · cases h

/-- Graph inputs are refused before graph outputs. -/
theorem of_checkEnds_eq_error (h : g.checkEnds = .error e) :
    (∃ name ∈ g.inputs, g.declares name = false ∧ e = .undeclaredGraphInput name) ∨
      ((∀ name ∈ g.inputs, g.declares name = true) ∧
        ∃ name ∈ g.outputs, g.declares name = false ∧ e = .undeclaredGraphOutput name) := by
  unfold checkEnds at h
  split at h
  · next _ name hname =>
    cases h
    exact Or.inl ⟨name, List.mem_of_find?_eq_some hname, by simpa using List.find?_some hname, rfl⟩
  · next name hnone hname =>
    cases h
    exact Or.inr ⟨by simpa using List.find?_eq_none.mp hnone, name,
      List.mem_of_find?_eq_some hname, by simpa using List.find?_some hname, rfl⟩
  · cases h

/-- The first graph input that a node outputs is refused, with its producer. -/
theorem of_checkInputs_eq_error (hps : g.producers = .ok ps) (h : g.checkInputs ps = .error e) :
    ∃ name i node, e = .producedInput name i ∧
      g.inputs.find? (·.isAmong (allOutputs g.nodes)) = some name ∧
      g.nodes[i]? = some node ∧ name.isAmong node.outputs = true := by
  unfold checkInputs at h
  split at h
  · next name i hfound =>
    cases h
    obtain ⟨front, name', rest, hsplit, hat, hnone⟩ := List.findSome?_eq_some_iff.mp hfound
    obtain ⟨i', hi, heq⟩ := Option.map_eq_some_iff.mp hat
    cases heq
    obtain ⟨node, hnode, hamong⟩ := (lookup?_producers hps).mp hi
    refine ⟨name, i, node, rfl, List.find?_eq_some_iff_append.mpr ⟨?_, front, rest, hsplit, ?_⟩,
      hnode, hamong⟩
    · exact Name.isAmong_flatMap.mpr ⟨node, List.mem_of_getElem? hnode, hamong⟩
    · intro n hn
      have hfree := (lookup?_producers_eq_none hps).mp (Option.map_eq_none_iff.mp (hnone n hn))
      simp [hfree]
  · cases h

/-! ## §3 Texts -/

/-- Every name that the nodes, the graph inputs and the graph outputs use has a
text. All that code points spell do; a name that is a number may have too many
digits to be written. -/
structure NamesWritable (g : Graph) : Prop where
  nodes : ∀ node ∈ g.nodes, ∀ name ∈ node.inputs ++ node.outputs, name.isWritable = true
  ends : ∀ name ∈ g.inputs ++ g.outputs, name.isWritable = true

theorem isWritable_of_enterOutputs_eq_error {names : List Name}
    (hnames : ∀ name ∈ names, name.isWritable = true) (h : enterOutputs i ps names = .error e) :
    e.isWritable = true := by
  induction names generalizing ps with
  | nil => cases h
  | cons name rest ih =>
    rw [List.forall_mem_cons] at hnames
    rw [enterOutputs] at h
    split at h
    · cases h
      exact hnames.1
    · exact ih hnames.2 h

theorem isWritable_of_enterNodes_eq_error {nodes : List Node}
    (hnodes : ∀ node ∈ nodes, ∀ name ∈ node.outputs, name.isWritable = true)
    (h : enterNodes i ps nodes = .error e) : e.isWritable = true := by
  induction nodes generalizing i ps with
  | nil => cases h
  | cons node rest ih =>
    rw [List.forall_mem_cons] at hnodes
    rw [enterNodes, bind_eq_error_iff] at h
    rcases h with hnode | ⟨_, _, hrest⟩
    · exact isWritable_of_enterOutputs_eq_error hnodes.1 hnode
    · exact ih hnodes.2 hrest

theorem isWritable_of_checkNodes_eq_error (hg : g.NamesWritable) (h : g.checkNodes = .error e) :
    e.isWritable = true := by
  unfold checkNodes at h
  split at h
  · next hfound =>
    cases h
    obtain ⟨⟨node, i⟩, hmem, hat⟩ := List.exists_of_findSome?_eq_some hfound
    have hnames := hg.nodes node (List.fst_mem_of_mem_zipIdx hmem)
    rcases of_undeclaredAt?_eq_some hat with ⟨name, hname, _, rfl⟩ | ⟨_, name, hname, _, rfl⟩
    · exact hnames name (List.mem_append_left _ hname)
    · exact hnames name (List.mem_append_right _ hname)
  · cases h

/-- **Texts.** Where the names in use have texts, the defect that validation reports
has one. -/
theorem isWritable_of_validate (hg : g.NamesWritable) (h : g.validate = .error e) :
    e.isWritable = true := by
  simp only [validate, bind_eq_error_iff] at h
  rcases h with hproducers | ⟨ps, hps, hcheck | ⟨_, _, hcheck | ⟨_, _, hcheck | ⟨_, _, hrest⟩⟩⟩⟩
  · refine isWritable_of_enterNodes_eq_error (fun node hnode name hname => ?_) hproducers
    exact hg.nodes node hnode name (List.mem_append_right _ hname)
  · exact isWritable_of_checkNodes_eq_error hg hcheck
  · rcases of_checkEnds_eq_error hcheck with ⟨name, hname, _, rfl⟩ | ⟨_, name, hname, _, rfl⟩
    · exact hg.ends name (List.mem_append_left _ hname)
    · exact hg.ends name (List.mem_append_right _ hname)
  · obtain ⟨name, i, node, rfl, hfirst, _⟩ := of_checkInputs_eq_error hps hcheck
    exact hg.ends name (List.mem_append_left _ (List.mem_of_find?_eq_some hfirst))
  · rcases hrest with hcheck | ⟨_, _, hdone⟩
    · obtain ⟨_, _, ⟨_, horder⟩ | ⟨_, horder⟩⟩ := orderFrom_cases hps
      · rw [horder] at hcheck
        cases hcheck
      · rw [horder] at hcheck
        cases hcheck
        rfl
    · cases hdone

/-! ## §4 Verdicts -/

/-- **Acceptance.** Validation accepts exactly the well-formed graphs. -/
theorem validate_eq_ok_iff_wellFormed : g.validate = .ok () ↔ g.WellFormed := by
  rw [validate_eq_ok_iff]
  constructor
  · rintro ⟨ps, hps, hnodes, hends, hfree, order, horder⟩
    obtain ⟨_, _, ⟨hsorted, _⟩ | ⟨_, hcycle⟩⟩ := orderFrom_cases hps
    · exact ⟨(producers_eq_ok_iff.mp hps).1, hnodes, hends, hfree, hsorted.not_cyclic⟩
    · rw [horder] at hcycle
      cases hcycle
  · intro h
    have hps : g.producers = .ok (produced 0 g.nodes) := producers_eq_ok_iff.mpr ⟨h.distinct, rfl⟩
    obtain ⟨order, _, ⟨_, horder⟩ | ⟨hcyclic, _⟩⟩ := orderFrom_cases hps
    · exact ⟨_, hps, h.nodes, h.ends, h.free, order, horder⟩
    · exact absurd hcyclic h.acyclic

/-- **Refusal.** What validation reports is the first defect. -/
theorem firstDefect_of_validate (h : g.validate = .error e) : g.FirstDefect e.code e.node? := by
  simp only [validate, bind_eq_error_iff] at h
  rcases h with hproducers | ⟨ps, hps, h⟩
  · obtain ⟨_, i, _, rfl, hleast⟩ := isLeast_of_producers_eq_error hproducers
    exact .repeatedOutput hleast
  have hd := (producers_eq_ok_iff.mp hps).1
  rcases h with hcheck | ⟨_, hnodes, h⟩
  · obtain ⟨i, hleast, ⟨hconsumes, _, rfl⟩ | ⟨hconsumes, _, rfl⟩⟩ :=
      isLeast_of_checkNodes_eq_error hcheck
    · exact .undeclaredInput hd hleast hconsumes
    · exact .undeclaredOutput hd hleast hconsumes
  have hnodes := checkNodes_eq_ok_iff.mp hnodes
  rcases h with hcheck | ⟨_, hends, h⟩
  · rcases of_checkEnds_eq_error hcheck with ⟨name, hname, hundeclared, rfl⟩
      | ⟨hinputs, name, hname, hundeclared, rfl⟩
    · exact .graphInput hd hnodes hname hundeclared
    · exact .graphOutput hd hnodes hinputs hname hundeclared
  have hends := checkEnds_eq_ok_iff.mp hends
  rcases h with hcheck | ⟨_, hfree, h⟩
  · obtain ⟨name, i, node, rfl, hfirst, hnode, houtputs⟩ := of_checkInputs_eq_error hps hcheck
    exact .producedInput hd hnodes hends hfirst hnode houtputs
  have hfree := (checkInputs_eq_ok_iff hps).mp hfree
  rcases h with hcheck | ⟨_, _, h⟩
  · obtain ⟨_, _, ⟨_, horder⟩ | ⟨hcyclic, horder⟩⟩ := orderFrom_cases hps
    · rw [horder] at hcheck
      cases hcheck
    · rw [horder] at hcheck
      cases hcheck
      exact .cycle hd hnodes hends hfree hcyclic
  · cases h

/-- **Validation accepts the well-formed graphs and reports the first defect of
every other.** -/
theorem validate_spec (g : Graph) :
    (g.validate = .ok () ↔ g.WellFormed) ∧
      (¬ g.WellFormed → ∃ e, g.validate = .error e ∧ g.FirstDefect e.code e.node?) := by
  refine ⟨validate_eq_ok_iff_wellFormed, fun hdefect => ?_⟩
  cases h : g.validate with
  | ok _ => exact absurd (validate_eq_ok_iff_wellFormed.mp h) hdefect
  | error e => exact ⟨e, rfl, firstDefect_of_validate h⟩

end GraphShapes.Graph
