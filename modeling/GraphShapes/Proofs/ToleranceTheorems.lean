/-
GraphShapes.Proofs.ToleranceTheorems — names that may be known as something else.

What is known of a name can change without a change in anything else if the nodes that
consume the name answer as they did (`Graph.Tolerates`). A graph tolerates a list of integers
in the place of a tensor exactly if no rule looks at the name, wherever it is an operand
(`tolerates_iff_unread`).

  §1 Equations — assignments with a name known as something else.
  §2 Tolerance — nodes that answer as they did.
  §3 Places    — where a tensor may turn into a list of integers.
-/
import GraphShapes.Proofs.OperandTheorems
import GraphShapes.Proofs.WalkTheorems

namespace GraphShapes

variable {A B : Assignment} {g g' : Graph} {config : Config} {node : Node} {names : List Name}
  {s name other : Name} {m : Meta} {metas metas' : List Meta} {t : List Int}

/-! ## §1 Equations -/

namespace Assignment

/-- The assignment with a name known as something else. -/
def set (A : Assignment) (name : Name) (m : Meta) : Assignment where
  meta? n := if name.same n then some m else A.meta? n
  congr {a b} h := by
    have hsame : name.same a = name.same b := by
      rw [Name.same, Name.same, Name.same_iff.mp h]
    rw [hsame, A.congr h]

theorem meta?_set_self (h : name.same other = true) : (A.set name m).meta? other = some m :=
  if_pos h

theorem meta?_set_of_ne (h : name.same other = false) :
    (A.set name m).meta? other = A.meta? other :=
  if_neg (h ▸ Bool.false_ne_true)

/-- Names that are all others are known as before. -/
theorem map_meta?_set (h : name.isAmong names = false) :
    names.map (A.set name m).meta? = names.map A.meta? :=
  List.map_congr_left fun _ hother =>
    meta?_set_of_ne (Name.same_eq_false h (Name.isAmong_of_mem hother))

/-- What holds of all that is known still does if it holds of what a name is known as now. -/
theorem forall_set {P : Meta → Prop} (hA : ∀ name m, A.meta? name = some m → P m) (hm : P m) :
    ∀ other m', (A.set name m).meta? other = some m' → P m' := by
  intro other m' hother
  cases hsame : name.same other with
  | true =>
    rw [meta?_set_self hsame] at hother
    cases hother
    exact hm
  | false =>
    rw [meta?_set_of_ne hsame] at hother
    exact hA other m' hother

/-- The equation of a node is about what is known of its operands and tracked outputs, and
about the types that these are declared with. -/
theorem Solves.congr (h : A.Solves g config node)
    (hknown : ∀ name ∈ node.inputs ++ node.tracked, B.meta? name = A.meta? name)
    (htypes : ∀ name ∈ node.tracked, g'.valueType name = g.valueType name) :
    B.Solves g' config node := by
  obtain ⟨results, ⟨op, metas, htag, hmetas, hrule⟩, hresults⟩ := h
  rw [List.forall_mem_append] at hknown
  refine ⟨results, ⟨op, metas, htag, ?_, ?_⟩, ?_⟩
  · rw [List.map_congr_left hknown.1, hmetas]
  · by_cases hop : op = .constant
    · subst hop
      -- All outputs of a constant are tracked.
      have htracked : node.tracked = node.outputs := Node.tracked_of_ofTag? htag
      rw [htracked] at htypes
      have hcontext : g'.context config node = g.context config node :=
        congrArg (Context.mk config.endOffset) (List.map_congr_left htypes)
      rw [hcontext, hrule]
    · have hoffset : (g'.context config node).endOffset = (g.context config node).endOffset := rfl
      rw [Rule.apply_congr hop hoffset, hrule]
  · rw [List.map_congr_left hknown.2, hresults]

end Assignment

/-! ## §2 Tolerance -/

namespace Graph

/-- In a graph in order, no node consumes what it tracks. -/
theorem not_isAmong_tracked_of_inputs {bound : List Name} {nodes : List Node}
    (hd : Name.Distinct (bound ++ trackedNames nodes)) (ho : Ordered bound nodes)
    (hnode : node ∈ nodes) (hin : s.isAmong node.inputs = true) :
    s.isAmong node.tracked = false := by
  induction nodes generalizing bound with
  | nil => cases hnode
  | cons first rest ih =>
    rw [trackedNames_cons, ← List.append_assoc] at hd
    rcases List.mem_cons.mp hnode with rfl | hrest
    · obtain ⟨name, hname, hkey⟩ := List.mem_map.mp (Name.isAmong_iff.mp hin)
      have hbound : s.isAmong bound = true := by
        rw [← Name.isAmong_congr hkey]
        exact ho.1 name hname
      exact (Name.distinct_append.mp hd).1.not_isAmong hbound
    · exact ih hd ho.2 hrest

/-- The nodes that consume the name answer as they do when it is known as the integers. -/
def Tolerates (g : Graph) (config : Config) (A : Assignment) (s : Name) (t : List Int) : Prop :=
  ∀ node ∈ g.nodes, s.isAmong node.inputs = true → (A.set s (.ints t)).Solves g config node

/-- A name that is known as the integers already is tolerated. -/
theorem tolerates_of_meta? (hs : A.meta? s = some (.ints t))
    (hsolved : ∀ node ∈ g.nodes, A.Solves g config node) : g.Tolerates config A s t := by
  intro node hnode _
  refine (hsolved node hnode).congr (fun name _ => ?_) fun _ _ => rfl
  cases hsame : s.same name with
  | true => rw [Assignment.meta?_set_self hsame, ← A.congr hsame, hs]
  | false => rw [Assignment.meta?_set_of_ne hsame]

/-- Where the name is tolerated, all nodes that do not track it answer to the integers. -/
theorem Tolerates.solves (h : g.Tolerates config A s t)
    (hsolved : ∀ node ∈ g.nodes, A.Solves g config node) (hnode : node ∈ g.nodes)
    (hfree : s.isAmong node.tracked = false) : (A.set s (.ints t)).Solves g config node := by
  cases hin : s.isAmong node.inputs with
  | true => exact h node hnode hin
  | false =>
    refine (hsolved node hnode).congr (fun name hname => ?_) fun _ _ => rfl
    have hother : s.same name = false := by
      rcases List.mem_append.mp hname with hmem | hmem
      · exact Name.same_eq_false hin (Name.isAmong_of_mem hmem)
      · exact Name.same_eq_false hfree (Name.isAmong_of_mem hmem)
    rw [Assignment.meta?_set_of_ne hother]

end Graph

/-! ## §3 Places -/

/-- Operands with the name among them turn. -/
theorem exists_turned (h : names.map A.meta? = metas.map some) (s : Name) (t : List Int) :
    ∃ metas', names.map (A.set s (.ints t)).meta? = metas'.map some ∧
      Rule.Turned metas metas' := by
  induction names generalizing metas with
  | nil =>
    obtain rfl := List.map_eq_nil_iff.mp h.symm
    exact ⟨[], rfl, .nil⟩
  | cons name names ih =>
    obtain ⟨m, metas, rfl, hm, hrest⟩ := List.map_eq_cons_iff.mp h.symm
    obtain ⟨metas', hmetas', hturned⟩ := ih hrest.symm
    cases hsame : s.same name with
    | true =>
      refine ⟨.ints t :: metas', ?_, .cons (.inr ⟨t, rfl⟩) hturned⟩
      rw [List.map_cons, List.map_cons, Assignment.meta?_set_self hsame, hmetas']
    | false =>
      refine ⟨m :: metas', ?_, .cons (.inl rfl) hturned⟩
      rw [List.map_cons, List.map_cons, Assignment.meta?_set_of_ne hsame, hmetas', ← hm]

namespace Graph

/-- Wherever the name is an operand, the rule does not look at it. -/
def Unread (g : Graph) (A : Assignment) (s : Name) : Prop :=
  ∀ node ∈ g.nodes, ∀ op metas, Operator.ofTag? node.op = some op →
    node.inputs.map A.meta? = metas.map some →
    ∀ i name, node.inputs[i]? = some name → s.same name = true → Rule.looksAt op metas i = false

/-- A name that no rule looks at may be known as anything. -/
theorem Unread.tolerates (h : g.Unread A s) (hsolved : ∀ node ∈ g.nodes, A.Solves g config node)
    (hfree : ∀ node ∈ g.nodes, s.isAmong node.inputs = true → s.isAmong node.tracked = false)
    (t : List Int) : g.Tolerates config A s t := by
  intro node hnode hin
  obtain ⟨results, ⟨op, metas, htag, hmetas, hrule⟩, hresults⟩ := hsolved node hnode
  obtain ⟨metas', hmetas', hturned⟩ := exists_turned hmetas s t
  refine ⟨results, ⟨op, metas', htag, hmetas', ?_⟩, ?_⟩
  · rw [Rule.apply_congr_of_looksAt hturned.length_eq.symm, hrule]
    intro i hlook
    cases hi : node.inputs[i]? with
    | none =>
      have hlength (known : Name → Option Meta) {metas : List Meta}
          (h : node.inputs.map known = metas.map some) : metas[i]? = none := by
        rw [List.getElem?_eq_none_iff] at hi ⊢
        rwa [← length_eq_of_map_eq h]
      rw [hlength _ hmetas, hlength _ hmetas']
    | some name =>
      have hother : s.same name = false := by
        rw [← Bool.not_eq_true]
        intro hsame
        rw [h node hnode op metas htag hmetas i name hi hsame] at hlook
        cases hlook
      rw [getElem?_of_map_eq hmetas hi, getElem?_of_map_eq hmetas' hi,
        Assignment.meta?_set_of_ne hother]
  · rw [Assignment.map_meta?_set (hfree node hnode hin), hresults]

/-- **Tolerance.** In a solution that knows the name as a tensor, it may turn into a list of
integers exactly if no rule looks at it. -/
theorem tolerates_iff_unread {sizes : Shape} (hs : A.meta? s = some (.tensor sizes))
    (hsolved : ∀ node ∈ g.nodes, A.Solves g config node)
    (hfree : ∀ node ∈ g.nodes, s.isAmong node.inputs = true → s.isAmong node.tracked = false) :
    g.Tolerates config A s t ↔ g.Unread A s := by
  refine ⟨fun h => ?_, fun h => h.tolerates hsolved hfree t⟩
  intro node hnode op metas htag hmetas i name hi hsame
  rw [← Bool.not_eq_true]
  intro hlook
  have hin : s.isAmong node.inputs = true := by
    rw [Name.isAmong_iff, Name.same_iff.mp hsame]
    exact List.mem_map_of_mem (List.mem_of_getElem? hi)
  obtain ⟨results, hans, hresults⟩ := hsolved node hnode
  obtain ⟨results', hans', hresults'⟩ := h node hnode hin
  obtain ⟨metas', hmetas', hturned⟩ := exists_turned hmetas s t
  -- The outputs are known as before, so the results are the same.
  rw [Assignment.map_meta?_set (hfree node hnode hin), hresults] at hresults'
  obtain rfl := (Option.some_injective Meta).list_map hresults'
  have hbefore : metas[i]? = some (.tensor sizes) := by
    rw [getElem?_of_map_eq hmetas hi, ← A.congr hsame, hs]
  have hbehind : metas'[i]? = some (.ints t) := by
    rw [getElem?_of_map_eq hmetas' hi, Assignment.meta?_set_self hsame]
  exact Rule.apply_ne_of_looksAt (hans.apply_eq htag hmetas) hlook hbefore hturned hbehind
    (hans'.apply_eq htag hmetas')

end Graph

end GraphShapes
