/-
GraphShapes.Proofs.WalkTheorems — what one pass over a graph computes.

A walk fills its store entry by entry, but what it computes can be said of the
store that it leaves. A graph is a system of equations: an `Assignment` of
values to names is a `Solution` if every graph input is known as its concrete
input and, for every node, the rule of its operator answers from what is
assigned to the operands what is assigned to the tracked outputs. A walk that
goes through leaves the solution (`walked_walk`), there is no other on the
names that it wrote (`within_walk`), and where the names are distinct, the
nodes `Ordered` and the values of a solution have texts, it does go through
(`fault_walk_eq_none`). None of the equations mentions a position in the node
list, so the order of the nodes decides only whether there is a result and
never which (`walk_perm`).

  §1 Order       — `Node.tracked`, `trackedNames`, `Ordered`.
  §2 Assignments — `Answers`, `Solves`, `Solution`, and `Within`, a store
                   that holds nothing but what is assigned.
  §3 One node    — `inferNode` as an equation about the store before it.
  §4 Nodes       — what a walk over nodes preserves, by induction on them.
  §5 Inputs      — binding, as writing the inputs' values.
  §6 Walks       — the pass as a whole, and the order of the nodes.
-/
import GraphShapes.Inference.Walk
import GraphShapes.Proofs.ResultTheorems
import GraphShapes.Proofs.StoreTheorems

namespace GraphShapes

/-! ## §1 Order -/

/-- The outputs of a node that a walk gives an entry: all of them, or the first
one where the operator tracks no more. -/
def Node.tracked (node : Node) : List Name :=
  match Operator.ofTag? node.op with
  | some op => op.tracked node.outputs
  | none => node.outputs

theorem Node.tracked_of_ofTag? {node : Node} {op : Operator}
    (h : Operator.ofTag? node.op = some op) : node.tracked = op.tracked node.outputs := by
  simp only [Node.tracked, h]

theorem Node.tracked_sublist (node : Node) : node.tracked.Sublist node.outputs := by
  unfold Node.tracked Operator.tracked
  repeat' split
  · exact List.take_sublist 1 node.outputs
  · exact List.Sublist.refl node.outputs
  · exact List.Sublist.refl node.outputs

namespace Graph

/-- The names that a walk over nodes gives an entry, in the order of writing. -/
def trackedNames (nodes : List Node) : List Name := nodes.flatMap Node.tracked

@[simp] theorem trackedNames_nil : trackedNames [] = [] := rfl

@[simp] theorem trackedNames_cons (node : Node) (rest : List Node) :
    trackedNames (node :: rest) = node.tracked ++ trackedNames rest := by
  simp [trackedNames]

theorem trackedNames_append (as bs : List Node) :
    trackedNames (as ++ bs) = trackedNames as ++ trackedNames bs :=
  List.flatMap_append

/-- Where the tracked names are distinct, a name is tracked by one node. -/
theorem eq_of_isAmong_tracked {nodes : List Node} {node node' : Node} {name : Name}
    (hd : Name.Distinct (trackedNames nodes)) (hnode : node ∈ nodes) (hnode' : node' ∈ nodes)
    (h : name.isAmong node.tracked = true) (h' : name.isAmong node'.tracked = true) :
    node = node' := by
  induction nodes with
  | nil => cases hnode
  | cons first rest ih =>
    rw [trackedNames_cons, Name.distinct_append] at hd
    -- What the first node tracks is tracked by none of the others.
    have hfirst {other : Node} (hother : other ∈ rest) (hin : name.isAmong first.tracked = true)
        (hin' : name.isAmong other.tracked = true) : False := by
      obtain ⟨n, hn, hkey⟩ := List.mem_map.mp (Name.isAmong_iff.mp hin)
      apply hd.2.2 n hn
      rw [← Name.isAmong_iff, trackedNames, Name.isAmong_flatMap]
      exact ⟨other, hother, (Name.isAmong_congr hkey).trans hin'⟩
    rcases List.mem_cons.mp hnode with rfl | hrest <;> rcases List.mem_cons.mp hnode' with
      rfl | hrest'
    · rfl
    · exact (hfirst hrest' h h').elim
    · exact (hfirst hrest h' h).elim
    · exact ih hd.2.1 hrest hrest'

/-- Every name that a node consumes is bound, or tracked by an earlier node. -/
def Ordered : List Name → List Node → Prop
  | _, [] => True
  | bound, node :: rest =>
    (∀ name ∈ node.inputs, name.isAmong bound = true) ∧ Ordered (bound ++ node.tracked) rest

instance decidableOrdered : (bound : List Name) → (nodes : List Node) →
    Decidable (Ordered bound nodes)
  | _, [] => isTrue trivial
  | bound, node :: rest =>
    have := decidableOrdered (bound ++ node.tracked) rest
    inferInstanceAs (Decidable (_ ∧ _))

/-- Nodes whose operands are bound keep to their order when more is bound. -/
theorem Ordered.mono {bound bound' : List Name} {nodes : List Node} (h : Ordered bound nodes)
    (hbound : ∀ name : Name, name.isAmong bound = true → name.isAmong bound' = true) :
    Ordered bound' nodes := by
  induction nodes generalizing bound bound' with
  | nil => trivial
  | cons node rest ih =>
    refine ⟨fun name hname => hbound name (h.1 name hname), ih h.2 fun name hname => ?_⟩
    rw [Name.isAmong_append] at hname ⊢
    exact hname.imp_left (hbound name)

theorem ordered_append {bound : List Name} {as bs : List Node} :
    Ordered bound (as ++ bs) ↔ Ordered bound as ∧ Ordered (bound ++ trackedNames as) bs := by
  induction as generalizing bound with
  | nil => simp [Ordered]
  | cons a as ih => simp [Ordered, ih, and_assoc]

end Graph

/-- The graph with its nodes replaced. -/
def Graph.withNodes (g : Graph) (nodes : List Node) : Graph := { g with nodes }

/-! ## §2 Assignments -/

/-- What is known of names, however they are spelled. -/
structure Assignment where
  meta? : Name → Option Meta
  congr : ∀ {a b : Name}, a.same b = true → meta? a = meta? b

/-- What a store holds, as an assignment. -/
def Store.assignment (s : Store) : Assignment :=
  ⟨lookup? s, fun h => lookup?_congr s (Name.same_iff.mp h)⟩

@[simp] theorem Store.meta?_assignment (s : Store) : s.assignment.meta? = lookup? s := rfl

/-- From what is known of a node's operands, the rule of its operator answers
the results. -/
def Graph.Answers (g : Graph) (config : Config) (known : Name → Option Meta) (node : Node)
    (results : List Meta) : Prop :=
  ∃ op metas, Operator.ofTag? node.op = some op ∧ node.inputs.map known = metas.map some ∧
    Rule.apply op metas node (g.context config node) = .ok results

namespace Assignment

/-- Names that are known as something else are different. -/
theorem same_eq_false_of_ne {A : Assignment} {a b : Name} {m m' : Meta} (ha : A.meta? a = some m)
    (hb : A.meta? b = some m') (hne : m ≠ m') : a.same b = false := by
  rw [← Bool.not_eq_true]
  intro hsame
  rw [A.congr hsame, hb] at ha
  exact hne (Option.some.inj ha).symm

/-- The equation of a node: from what is assigned to its operands, the rule of
its operator answers in order what is assigned to its tracked outputs. -/
def Solves (A : Assignment) (g : Graph) (config : Config) (node : Node) : Prop :=
  ∃ results, g.Answers config A.meta? node results ∧ node.tracked.map A.meta? = results.map some

/-- The equations of a graph over concrete inputs: every graph input is known as
its concrete input, and the equation of every node holds. -/
structure Solution (A : Assignment) (g : Graph) (config : Config) (inputs : List Datum) :
    Prop where
  bound : ∃ metas : List Meta, inputs.map Input.toMeta = metas.map .ok ∧
    g.inputs.map A.meta? = metas.map some
  solved : ∀ node ∈ g.nodes, A.Solves g config node

end Assignment

/-- The store holds nothing but what is assigned. -/
def Store.Within (s : Store) (A : Assignment) : Prop :=
  ∀ name m, lookup? s name = some m → A.meta? name = some m

section Within

variable {s t : Store} {A : Assignment}

theorem Store.within_nil (A : Assignment) : Store.Within [] A := nofun

theorem Store.within_of_isPrefix (h : s <+: t) : s.Within t.assignment := by
  obtain ⟨entries, rfl⟩ := h
  intro name m hm
  exact lookup?_append_of_some hm

/-- Names paired with what is assigned to them stay within the assignment. -/
theorem Store.Within.append_zip (hs : s.Within A) {names : List Name} {metas : List Meta}
    (hmap : names.map A.meta? = metas.map some) : Store.Within (s ++ names.zip metas) A := by
  intro name m hm
  cases hold : lookup? s name with
  | some m' =>
    rw [lookup?_append_of_some hold] at hm
    exact hs name m (hold.trans hm)
  | none =>
    rw [lookup?_append_of_none hold] at hm
    obtain ⟨n, hmem, hkey⟩ := exists_of_lookup? hm
    rw [← A.congr (Name.same_iff.mpr hkey)]
    exact List.forall₂_zip (map_eq_map_some_iff.mp hmap) hmem

/-- On names with entries, the store and the assignment agree. -/
theorem Store.Within.map_eq (hs : s.Within A) {names : List Name}
    (hbound : ∀ name ∈ names, name.isAmong s.names = true) :
    names.map (lookup? s) = names.map A.meta? := by
  apply List.map_congr_left
  intro name hname
  obtain ⟨m, hm⟩ := exists_lookup?_iff.mpr (hbound name hname)
  rw [hm, hs name m hm]

/-- What is known in a store is known, as it is, in whatever the store is within. -/
theorem Store.Within.map_some (hs : s.Within A) {names : List Name} {metas : List Meta}
    (h : names.map (lookup? s) = metas.map some) : names.map A.meta? = metas.map some := by
  rw [← h]
  exact (hs.map_eq (Store.isAmong_of_map_eq h)).symm

/-- Of two stores with the same names, one within the other, each holds what the
other does. -/
theorem Store.Within.lookup?_eq (hs : s.Within t.assignment)
    (hnames : ∀ n : Name, n.isAmong t.names = true → n.isAmong s.names = true) (name : Name) :
    lookup? s name = lookup? t name := by
  cases ht : lookup? t name with
  | some m =>
    obtain ⟨m', hm'⟩ := exists_lookup?_iff.mpr (hnames name (exists_lookup?_iff.mp ⟨m, ht⟩))
    have hsame : lookup? t name = some m' := hs name m' hm'
    rw [hm', ← hsame, ht]
  | none =>
    cases hs' : lookup? s name with
    | none => rfl
    | some m =>
      have hfound : lookup? t name = some m := hs name m hs'
      rw [ht] at hfound
      cases hfound

end Within

/-! ## §3 One node -/

namespace Graph

section Node

variable {g : Graph} {config : Config} {s : Store} {node : Node} {results : List Meta}

theorem operands_eq_ok_iff {tag : String} {names : List Name} {metas : List Meta} :
    operands s tag names = .ok metas ↔ names.map (lookup? s) = metas.map some := by
  rw [operands, mapM_eq_ok_iff, map_eq_map_some_iff]
  constructor
  · intro h
    refine h.imp fun name m hm => ?_
    split at hm
    · next found => rw [found, Except.ok.inj hm]
    · cases hm
  · intro h
    refine h.imp fun name m hm => ?_
    rw [hm]

/-- The operator of a node that evaluates, and its rule's answer from the store. -/
theorem evaluate_eq_ok_iff {op : Operator} :
    g.evaluate config s node = .ok (op, results) ↔
      Operator.ofTag? node.op = some op ∧ ∃ metas, node.inputs.map (lookup? s) = metas.map some ∧
        Rule.apply op metas node (g.context config node) = .ok results := by
  unfold evaluate
  split
  · next htag => simp [htag]
  · next op' htag =>
    simp only [htag, Option.some.injEq]
    split
    · next hoperands =>
      constructor
      · intro h
        cases h
      · intro ⟨hop, metas, hmetas, _⟩
        rw [operands_eq_ok_iff.mpr hmetas] at hoperands
        cases hoperands
    · next metas hoperands =>
      have hmetas := operands_eq_ok_iff.mp hoperands
      -- The operands are determined, so the rule is applied to the same ones.
      have hsame : ∀ metas', node.inputs.map (lookup? s) = metas'.map some → metas' = metas := by
        intro metas' h
        exact (Option.some_injective Meta).list_map (h.symm.trans hmetas)
      split
      · next hrule =>
        constructor
        · intro h
          cases h
        · rintro ⟨rfl, metas', hmetas', happly⟩
          rw [hsame metas' hmetas', hrule] at happly
          cases happly
      · next results' hrule =>
        constructor
        · intro h
          cases h
          exact ⟨rfl, metas, hmetas, hrule⟩
        · rintro ⟨rfl, metas', hmetas', happly⟩
          rw [hsame metas' hmetas', hrule] at happly
          rw [Except.ok.inj happly]

/-- A step that goes through writes the results of the node's rule, one for each
tracked output. -/
theorem exists_answers_of_inferNode (h : (g.inferNode config s node).fault = none) :
    ∃ results, g.Answers config (lookup? s) node results ∧
      results.length = node.tracked.length ∧
      ∃ lead, (Store.writeAll lead s (node.tracked.zip results)).fault = none ∧
        (g.inferNode config s node).store
          = (Store.writeAll lead s (node.tracked.zip results)).store := by
  unfold inferNode at h ⊢
  split at h
  · cases h
  · next op results heval =>
    obtain ⟨htag, metas, hmetas, hrule⟩ := evaluate_eq_ok_iff.mp heval
    simp only [writeResults, ← Node.tracked_of_ofTag? htag] at h ⊢
    split at h
    · next hlen =>
      refine ⟨results, ⟨op, metas, htag, hmetas, hrule⟩, hlen, op.tag ++ " -> ", h, ?_⟩
      rw [if_pos hlen]
    · cases h

/-- A node whose rule answers one result for each tracked output writes them. -/
theorem inferNode_of_answers (hans : g.Answers config (lookup? s) node results)
    (hlen : results.length = node.tracked.length) :
    ∃ lead,
      (g.inferNode config s node).fault
          = (Store.writeAll lead s (node.tracked.zip results)).fault ∧
        (g.inferNode config s node).store
          = (Store.writeAll lead s (node.tracked.zip results)).store := by
  obtain ⟨op, metas, htag, hmetas, hrule⟩ := hans
  have heval := evaluate_eq_ok_iff.mpr ⟨htag, metas, hmetas, hrule⟩
  refine ⟨op.tag ++ " -> ", ?_, ?_⟩
  all_goals simp only [inferNode, heval, writeResults, ← Node.tracked_of_ofTag? htag, if_pos hlen]

/-- **One node.** A step over a valid store goes through exactly if the node's
rule answers one result for each tracked output and the store with them is
valid. -/
theorem fault_inferNode_eq_none_iff (hs : s.Valid) :
    (g.inferNode config s node).fault = none ↔
      ∃ results, g.Answers config (lookup? s) node results ∧
        results.length = node.tracked.length ∧ Store.Valid (s ++ node.tracked.zip results) := by
  constructor
  · intro h
    obtain ⟨results, hans, hlen, lead, hwrite, _⟩ := exists_answers_of_inferNode h
    exact ⟨results, hans, hlen, (Store.fault_writeAll_eq_none_iff lead hs).mp hwrite⟩
  · intro ⟨results, hans, hlen, hvalid⟩
    obtain ⟨lead, hfault, _⟩ := inferNode_of_answers hans hlen
    rw [hfault]
    exact (Store.fault_writeAll_eq_none_iff lead hs).mpr hvalid

/-- The store that a step leaves is the one before it with the tracked outputs
behind it. -/
theorem exists_store_inferNode (h : (g.inferNode config s node).fault = none) :
    ∃ results, g.Answers config (lookup? s) node results ∧
      results.length = node.tracked.length ∧
      (g.inferNode config s node).store = s ++ node.tracked.zip results := by
  obtain ⟨results, hans, hlen, lead, hwrite, hstore⟩ := exists_answers_of_inferNode h
  exact ⟨results, hans, hlen, hstore.trans (Store.store_writeAll hwrite)⟩

/-- However a step ends, what it adds is a front of the tracked outputs with the
results of the node's rule. -/
theorem store_inferNode_cases (g : Graph) (config : Config) (s : Store) (node : Node) :
    (g.inferNode config s node).store = s ∨
      ∃ results k, g.Answers config (lookup? s) node results ∧
        (g.inferNode config s node).store = s ++ (node.tracked.zip results).take k := by
  unfold inferNode
  split
  · exact Or.inl rfl
  · next op results heval =>
    obtain ⟨htag, metas, hmetas, hrule⟩ := evaluate_eq_ok_iff.mp heval
    simp only [writeResults, ← Node.tracked_of_ofTag? htag]
    split
    · obtain ⟨k, hk⟩ := Store.exists_store_writeAll (op.tag ++ " -> ") s
        (node.tracked.zip results)
      exact Or.inr ⟨results, k, ⟨op, metas, htag, hmetas, hrule⟩, hk⟩
    · exact Or.inl rfl

/-- A node with bound operands and fresh outputs never breaks consistency. -/
theorem consistent_inferNode (hbound : ∀ name ∈ node.inputs, name.isAmong s.names = true)
    (hd : Name.Distinct (s.names ++ node.tracked)) :
    (g.inferNode config s node).Consistent := by
  unfold inferNode
  cases heval : g.evaluate config s node with
  | error f =>
    -- With all operands bound, only the operator or its rule can have failed.
    refine Progress.consistent_stopped fun c hc => ?_
    subst hc
    obtain ⟨metas, hmetas⟩ := Store.exists_metas_of_isAmong hbound
    unfold evaluate at heval
    split at heval
    · cases heval
    · rw [operands_eq_ok_iff.mpr hmetas] at heval
      dsimp only at heval
      split at heval
      · next r _ => cases r <;> cases heval
      · cases heval
  | ok answer =>
    obtain ⟨op, results⟩ := answer
    have htag := (evaluate_eq_ok_iff.mp heval).1
    dsimp only
    intro c
    simp only [writeResults, ← Node.tracked_of_ofTag? htag]
    split
    · next hlen =>
      refine Store.consistent_writeAll (op.tag ++ " -> ") ?_ c
      rw [Store.names_append_zip hlen]
      exact hd
    · refine Progress.consistent_stopped ?_ c
      exact nofun

end Node

/-! ## §4 Nodes -/

section Nodes

variable {g : Graph} {config : Config} {s t : Store} {nodes : List Node} {A : Assignment}

/-- What a walk over nodes makes of a store when it goes through. -/
structure Walked (g : Graph) (config : Config) (s : Store) (nodes : List Node) (t : Store) :
    Prop where
  valid : t.Valid
  names : t.names = s.names ++ trackedNames nodes
  grown : s <+: t
  ordered : Ordered s.names nodes
  solved : ∀ node ∈ nodes, t.assignment.Solves g config node

/-- An answer does not depend on anything but what is known of the operands. -/
theorem Answers.congr {known known' : Name → Option Meta} {node : Node} {results : List Meta}
    (h : g.Answers config known node results)
    (hsame : node.inputs.map known = node.inputs.map known') :
    g.Answers config known' node results := by
  obtain ⟨op, metas, htag, hmetas, hrule⟩ := h
  exact ⟨op, metas, htag, hsame ▸ hmetas, hrule⟩

/-- The rule of the node's operator answers from what is known of its operands. -/
theorem Answers.apply_eq {known : Name → Option Meta} {node : Node} {results metas : List Meta}
    {op : Operator} (h : g.Answers config known node results)
    (htag : Operator.ofTag? node.op = some op) (hmetas : node.inputs.map known = metas.map some) :
    Rule.apply op metas node (g.context config node) = .ok results := by
  obtain ⟨op', metas', htag', hmetas', hrule⟩ := h
  have hop : op = op' := Option.some.inj (htag.symm.trans htag')
  have hargs : metas = metas' :=
    (Option.some_injective Meta).list_map (hmetas.symm.trans hmetas')
  rw [hop, hargs, hrule]

/-- A node has one answer. -/
theorem Answers.unique {known : Name → Option Meta} {node : Node} {results results' : List Meta}
    (h : g.Answers config known node results) (h' : g.Answers config known node results') :
    results = results' := by
  obtain ⟨op, metas, htag, hmetas, hrule⟩ := h
  rw [h'.apply_eq htag hmetas] at hrule
  exact (Except.ok.inj hrule).symm

/-- A node that answers from its operands has operands with entries. -/
theorem Answers.bound {node : Node} {results : List Meta}
    (h : g.Answers config (lookup? s) node results) :
    ∀ name ∈ node.inputs, name.isAmong s.names = true := by
  obtain ⟨_, _, _, hmetas, _⟩ := h
  exact Store.isAmong_of_map_eq hmetas

/-- A node's equation holds in every later store once its results are written. -/
theorem Answers.solves {node : Node} {results : List Meta}
    (h : g.Answers config (lookup? s) node results)
    (hlen : results.length = node.tracked.length)
    (hvalid : Store.Valid (s ++ node.tracked.zip results))
    (hgrown : s ++ node.tracked.zip results <+: t) : t.assignment.Solves g config node := by
  have hs : s.Within t.assignment :=
    Store.within_of_isPrefix ((List.prefix_append s _).trans hgrown)
  refine ⟨results, h.congr (hs.map_eq h.bound), ?_⟩
  have hd := hvalid.distinct
  rw [Store.names_append_zip hlen, Name.distinct_append] at hd
  have hzip : node.tracked.map (lookup? (s ++ node.tracked.zip results)) = results.map some := by
    rw [← map_lookup?_zip hd.2.1 hlen.symm]
    apply List.map_congr_left
    intro name hname
    apply lookup?_append_of_none
    rw [lookup?_eq_none_iff]
    intro hold
    obtain ⟨n, hn, hkey⟩ := List.mem_map.mp hold
    exact hd.2.2 n hn (hkey ▸ List.mem_map_of_mem hname)
  exact (Store.within_of_isPrefix hgrown).map_some hzip

/-- **Nodes, soundness.** A walk that goes through appends the tracked names in
order, finds every operand bound, and leaves every node's equation solved. -/
theorem walked_inferNodes (hs : s.Valid) (h : (g.inferNodes config s nodes).fault = none) :
    Walked g config s nodes (g.inferNodes config s nodes).store := by
  induction nodes generalizing s with
  | nil => exact ⟨hs, by simp [inferNodes], List.prefix_refl s, trivial, nofun⟩
  | cons node rest ih =>
    rw [inferNodes, Progress.fault_andThen_eq_none_iff] at h
    obtain ⟨hstep, hrest⟩ := h
    rw [inferNodes, Progress.store_andThen hstep]
    obtain ⟨results, hans, hlen, hvalid⟩ := (fault_inferNode_eq_none_iff hs).mp hstep
    obtain ⟨results', hans', _, hstore⟩ := exists_store_inferNode hstep
    rw [← hans.unique hans'] at hstore
    rw [hstore] at hrest ⊢
    have ih := ih hvalid hrest
    have hnames : Store.names (s ++ node.tracked.zip results) = s.names ++ node.tracked :=
      Store.names_append_zip hlen
    refine ⟨ih.valid, ?_, (List.prefix_append s _).trans ih.grown, ?_, ?_⟩
    · rw [ih.names, hnames, trackedNames_cons, List.append_assoc]
    · exact ⟨hans.bound, hnames ▸ ih.ordered⟩
    · intro n hn
      rcases List.mem_cons.mp hn with rfl | hn'
      · exact hans.solves hlen hvalid ih.grown
      · exact ih.solved n hn'

/-- A step stays within every assignment that solves the node's equation. -/
theorem within_inferNode {node : Node} (h : (g.inferNode config s node).fault = none)
    (hw : s.Within A) (hA : A.Solves g config node) :
    (g.inferNode config s node).store.Within A := by
  obtain ⟨results, hans, _, hstore⟩ := exists_store_inferNode h
  obtain ⟨results', hans', htracked⟩ := hA
  have hsame : results = results' := (hans.congr (hw.map_eq hans.bound)).unique hans'
  rw [hstore, hsame]
  exact hw.append_zip htracked

/-- **Nodes, uniqueness.** A walk stays within every assignment that solves the
equations of its nodes. -/
theorem within_inferNodes (h : (g.inferNodes config s nodes).fault = none) (hw : s.Within A)
    (hA : ∀ node ∈ nodes, A.Solves g config node) :
    (g.inferNodes config s nodes).store.Within A := by
  induction nodes generalizing s with
  | nil => exact hw
  | cons node rest ih =>
    rw [inferNodes, Progress.fault_andThen_eq_none_iff] at h
    rw [inferNodes, Progress.store_andThen h.1]
    apply ih h.2
    · exact within_inferNode h.1 hw (hA node List.mem_cons_self)
    · exact fun n hn => hA n (List.mem_cons_of_mem node hn)

/-- **Nodes, completeness.** Where the names are distinct, the operands ordered
and a solution with texts is known, a walk goes through. -/
theorem fault_inferNodes_eq_none (hs : s.Valid) (hw : s.Within A)
    (hd : Name.Distinct (s.names ++ trackedNames nodes)) (ho : Ordered s.names nodes)
    (hA : ∀ node ∈ nodes, A.Solves g config node)
    (htext : ∀ name ∈ trackedNames nodes, ∀ m, A.meta? name = some m → m.isWritable = true) :
    (g.inferNodes config s nodes).fault = none := by
  induction nodes generalizing s with
  | nil => rfl
  | cons node rest ih =>
    obtain ⟨hbound, hrest⟩ := ho
    obtain ⟨results, hans, htracked⟩ := hA node List.mem_cons_self
    have hlen : results.length = node.tracked.length := (length_eq_of_map_eq htracked).symm
    have hnames : Store.names (s ++ node.tracked.zip results) = s.names ++ node.tracked :=
      Store.names_append_zip hlen
    rw [trackedNames_cons, ← List.append_assoc, ← hnames] at hd
    -- The results are values of the solution, so they can be written.
    have hvalid : Store.Valid (s ++ node.tracked.zip results) := by
      refine ⟨(Name.distinct_append.mp hd).1, ?_⟩
      intro entry he
      rcases List.mem_append.mp he with hold | hnew
      · exact hs.writable entry hold
      · apply htext entry.1 (by simp [(List.of_mem_zip hnew).1])
        exact List.forall₂_zip (map_eq_map_some_iff.mp htracked) hnew
    have hans' : g.Answers config (lookup? s) node results := hans.congr (hw.map_eq hbound).symm
    have hstep : (g.inferNode config s node).fault = none :=
      (fault_inferNode_eq_none_iff hs).mpr ⟨results, hans', hlen, hvalid⟩
    obtain ⟨results', hans'', _, hstore⟩ := exists_store_inferNode hstep
    rw [← hans'.unique hans''] at hstore
    rw [inferNodes, Progress.fault_andThen_eq_none_iff, hstore]
    refine ⟨hstep, ih hvalid (hw.append_zip htracked) hd (hnames ▸ hrest) ?_ ?_⟩
    · exact fun n hn => hA n (List.mem_cons_of_mem node hn)
    · exact fun n hn => htext n (by simp [hn])

/-- A walk over ordered nodes with fresh, distinct outputs never breaks
consistency, wherever it stops. -/
theorem consistent_inferNodes (hd : Name.Distinct (s.names ++ trackedNames nodes))
    (ho : Ordered s.names nodes) : (g.inferNodes config s nodes).Consistent := by
  induction nodes generalizing s with
  | nil => exact Progress.consistent_of_fault_eq_none rfl
  | cons node rest ih =>
    obtain ⟨hbound, hrest⟩ := ho
    rw [trackedNames_cons, ← List.append_assoc] at hd
    rw [inferNodes]
    apply (consistent_inferNode hbound (Name.distinct_append.mp hd).1).andThen
    intro hstep
    obtain ⟨results, _, hlen, hstore⟩ := exists_store_inferNode hstep
    have hnames : (g.inferNode config s node).store.names = s.names ++ node.tracked := by
      rw [hstore, Store.names_append_zip hlen]
    rw [← hnames] at hd hrest
    exact ih hd hrest

end Nodes

/-! ## §5 Inputs -/

section Inputs

variable {g : Graph} {s : Store} {A : Assignment}

/-- Inputs of known values are bound by writing the values. -/
theorem bindEach_eq_writeAll : ∀ {s : Store} {names : List Name} {inputs : List Datum}
    {metas : List Meta}, inputs.map Input.toMeta = metas.map .ok →
      bindEach s (names.zip inputs) = Store.writeAll "bind " s (names.zip metas)
  | s, [], inputs, metas, _ => rfl
  | s, name :: names, [], [], _ => rfl
  | s, name :: names, d :: inputs, m :: metas, h => by
    rw [List.map_cons, List.map_cons] at h
    obtain ⟨hd, hrest⟩ := List.cons.inj h
    rw [List.zip_cons_cons, List.zip_cons_cons, bindEach, Store.writeAll, hd]
    refine congrArg (Store.write "bind " s name m).andThen (funext fun s' => ?_)
    exact bindEach_eq_writeAll hrest

/-- Inputs that are bound have values. -/
theorem exists_metas_of_bindEach : ∀ {s : Store} {names : List Name} {inputs : List Datum},
    inputs.length = names.length → (bindEach s (names.zip inputs)).fault = none →
      ∃ metas : List Meta, inputs.map Input.toMeta = metas.map .ok
  | s, [], [], _, _ => ⟨[], rfl⟩
  | s, name :: names, d :: inputs, hlen, h => by
    rw [List.zip_cons_cons, bindEach] at h
    split at h
    · cases h
    · next m hm =>
      rw [Progress.fault_andThen_eq_none_iff] at h
      obtain ⟨metas, hmetas⟩ := exists_metas_of_bindEach (Nat.succ.inj hlen) h.2
      exact ⟨m :: metas, by rw [List.map_cons, List.map_cons, hm, hmetas]⟩

/-- **Inputs.** Binding over a valid store goes through exactly if there is a
value for every graph input and the store with them is valid. -/
theorem fault_bindInputs_eq_none_iff {inputs : List Datum} (hs : s.Valid) :
    (g.bindInputs inputs s).fault = none ↔
      ∃ metas : List Meta, inputs.map Input.toMeta = metas.map .ok ∧
        metas.length = g.inputs.length ∧ Store.Valid (s ++ g.inputs.zip metas) := by
  unfold bindInputs
  constructor
  · intro h
    split at h
    · next hlen =>
      obtain ⟨metas, hmetas⟩ := exists_metas_of_bindEach hlen h
      rw [bindEach_eq_writeAll hmetas] at h
      have hcount : metas.length = g.inputs.length :=
        (length_eq_of_map_eq hmetas).symm.trans hlen
      exact ⟨metas, hmetas, hcount, (Store.fault_writeAll_eq_none_iff "bind " hs).mp h⟩
    · cases h
  · intro ⟨metas, hmetas, hlen, hvalid⟩
    have hinputs : inputs.length = g.inputs.length := (length_eq_of_map_eq hmetas).trans hlen
    rw [if_pos hinputs, bindEach_eq_writeAll hmetas]
    exact (Store.fault_writeAll_eq_none_iff "bind " hs).mpr hvalid

/-- Bound inputs end up behind the other entries, in order. -/
theorem store_bindInputs {inputs : List Datum} {metas : List Meta}
    (h : (g.bindInputs inputs s).fault = none)
    (hmetas : inputs.map Input.toMeta = metas.map .ok) :
    (g.bindInputs inputs s).store = s ++ g.inputs.zip metas := by
  unfold bindInputs at h ⊢
  split
  · next hlen =>
    rw [if_pos hlen, bindEach_eq_writeAll hmetas] at h
    rw [bindEach_eq_writeAll hmetas]
    exact Store.store_writeAll h
  · next hlen =>
    rw [if_neg hlen] at h
    cases h

/-- However binding ends, what it adds are values of inputs. -/
theorem mem_store_bindEach {entries : List (Name × Datum)} {entry : Name × Meta}
    (h : entry ∈ (bindEach s entries).store) :
    entry ∈ s ∨ ∃ d, (entry.1, d) ∈ entries ∧ Input.toMeta d = .ok entry.2 := by
  induction entries generalizing s with
  | nil => exact Or.inl h
  | cons bound rest ih =>
    obtain ⟨name, d⟩ := bound
    rw [bindEach] at h
    split at h
    · exact Or.inl h
    · next m hm =>
      -- What is in the store after one write was there, or is that input's value.
      have hwrite {e : Name × Meta} (he : e ∈ (Store.write "bind " s name m).store) :
          e ∈ s ∨ ∃ d', (e.1, d') ∈ (name, d) :: rest ∧ Input.toMeta d' = .ok e.2 := by
        rcases Store.store_write_cases "bind " s name m with hsame | hone
        · exact Or.inl (hsame ▸ he)
        · rw [hone, List.mem_append, List.mem_singleton] at he
          rcases he with hold | rfl
          · exact Or.inl hold
          · exact Or.inr ⟨d, List.mem_cons_self, hm⟩
      cases hfault : (Store.write "bind " s name m).fault with
      | some f =>
        rw [Progress.andThen_of_fault hfault] at h
        exact hwrite h
      | none =>
        rw [Progress.store_andThen hfault] at h
        rcases ih h with hold | ⟨d', hmem, hd'⟩
        · exact hwrite hold
        · exact Or.inr ⟨d', List.mem_cons_of_mem _ hmem, hd'⟩

/-- A value is no input because it, or something in it, cannot be converted, or because
of its kind. -/
theorem toMeta_eq_error {d : Datum} {f : Fault} (h : Input.toMeta d = .error f) :
    (∃ m, f = .misuse m) ∨ f = .inference (.inputKind d.kind) := by
  have hsizes {ds : List Datum} (h : Input.sizes ds = .error f) : ∃ m, f = .misuse m := by
    unfold Input.sizes at h
    split at h
    · cases h
    · next m _ => exact ⟨m, (Except.error.inj h).symm⟩
  have hlist (h : Input.ofList d = .error f) :
      (∃ m, f = .misuse m) ∨ f = .inference (.inputKind d.kind) := by
    unfold Input.ofList at h
    split at h
    · cases h
    · split at h
      · exact Or.inl ⟨_, (Except.error.inj h).symm⟩
      · exact Or.inr (Except.error.inj h).symm
  unfold Input.toMeta at h
  split at h
  · exact Or.inl (hsizes h)
  · cases h
  · exact Or.inl (hsizes h)
  · split at h
    · cases h
    · split at h
      · exact Or.inl ⟨_, (Except.error.inj h).symm⟩
      · exact hlist h

/-- A value that is no input is a matter of the input, not of the graph. -/
theorem toMeta_ne_consistency (d : Datum) (c : ConsistencyError) :
    Input.toMeta d ≠ .error (.consistency c) := by
  intro h
  rcases toMeta_eq_error h with ⟨m, hm⟩ | hkind
  · cases hm
  · cases hkind

theorem consistent_bindEach : ∀ {s : Store} {names : List Name} {inputs : List Datum},
    Name.Distinct (s.names ++ names) → (bindEach s (names.zip inputs)).Consistent
  | s, [], inputs, _ => Progress.consistent_of_fault_eq_none rfl
  | s, name :: names, [], _ => Progress.consistent_of_fault_eq_none rfl
  | s, name :: names, d :: inputs, hd => by
    rw [List.zip_cons_cons, bindEach]
    cases hm : Input.toMeta d with
    | error f =>
      refine Progress.consistent_stopped fun c hc => ?_
      subst hc
      exact toMeta_ne_consistency d c hm
    | ok m =>
      have hsplit : s.names ++ name :: names = Store.names (s ++ [(name, m)]) ++ names := by
        simp [Store.names]
      rw [hsplit] at hd
      have hfresh : lookup? s name = none :=
        (distinct_append_singleton.mp (Name.distinct_append.mp hd).1).2
      apply (Store.consistent_write "bind " hfresh).andThen
      intro hwrite
      rw [Store.store_write hwrite]
      exact consistent_bindEach hd

/-- Binding under fresh, distinct names never breaks consistency. -/
theorem consistent_bindInputs {inputs : List Datum} (hd : Name.Distinct (s.names ++ g.inputs)) :
    (g.bindInputs inputs s).Consistent := by
  unfold bindInputs
  split
  · exact consistent_bindEach hd
  · exact Progress.consistent_stopped nofun

end Inputs

/-! ## §6 Walks -/

section Walks

variable {g : Graph} {config : Config} {inputs : List Datum} {A : Assignment}

/-- **Walks, soundness.** A walk that goes through leaves a solution of the
graph's equations, whose names are the graph inputs and the tracked outputs. -/
theorem walked_walk (h : (g.walk config inputs).fault = none) :
    let t := (g.walk config inputs).store
    t.Valid ∧ t.names = g.inputs ++ trackedNames g.nodes ∧ Ordered g.inputs g.nodes ∧
      t.assignment.Solution g config inputs := by
  unfold walk at h ⊢
  rw [Progress.fault_andThen_eq_none_iff] at h
  obtain ⟨hbind, hnodes⟩ := h
  rw [Progress.store_andThen hbind]
  obtain ⟨metas, hmetas, hlen, hvalid⟩ := (fault_bindInputs_eq_none_iff Store.valid_nil).mp hbind
  have hstore := store_bindInputs hbind hmetas
  rw [hstore, List.nil_append] at hnodes ⊢
  rw [List.nil_append] at hvalid
  have hw := walked_inferNodes hvalid hnodes
  have hnames : Store.names (g.inputs.zip metas) = g.inputs := Store.names_zip hlen
  refine ⟨hw.valid, ?_, ?_, ⟨metas, hmetas, ?_⟩, hw.solved⟩
  · rw [hw.names, hnames]
  · rw [← hnames]
    exact hw.ordered
  have hd : Name.Distinct g.inputs := hnames ▸ hvalid.distinct
  exact (Store.within_of_isPrefix hw.grown).map_some (map_lookup?_zip hd hlen.symm)

/-- **Walks, uniqueness.** What a walk leaves is within every solution. -/
theorem within_walk (h : (g.walk config inputs).fault = none)
    (hA : A.Solution g config inputs) : (g.walk config inputs).store.Within A := by
  unfold walk at h ⊢
  rw [Progress.fault_andThen_eq_none_iff] at h
  rw [Progress.store_andThen h.1]
  obtain ⟨metas, hmetas, hbound⟩ := hA.bound
  apply within_inferNodes h.2 ?_ hA.solved
  rw [store_bindInputs h.1 hmetas]
  exact (Store.within_nil A).append_zip hbound

/-- A solution that knows no other names is just what a walk leaves. -/
theorem lookup?_walk_eq (h : (g.walk config inputs).fault = none) (hA : A.Solution g config inputs)
    (hnone : ∀ name : Name, name.isAmong (g.inputs ++ trackedNames g.nodes) = false →
      A.meta? name = none) (name : Name) :
    lookup? (g.walk config inputs).store name = A.meta? name := by
  cases hfound : lookup? (g.walk config inputs).store name with
  | some m => exact (within_walk h hA name m hfound).symm
  | none =>
    refine (hnone name ?_).symm
    rw [← (walked_walk h).2.1, ← Bool.not_eq_true]
    intro hin
    obtain ⟨m, hm⟩ := exists_lookup?_iff.mpr hin
    rw [hfound] at hm
    cases hm

/-- **Walks, completeness.** Where the names are distinct, the nodes ordered and
the values of a solution have texts, the walk goes through. -/
theorem fault_walk_eq_none (hd : Name.Distinct (g.inputs ++ trackedNames g.nodes))
    (ho : Ordered g.inputs g.nodes) (hA : A.Solution g config inputs)
    (htext : ∀ name ∈ g.inputs ++ trackedNames g.nodes, ∀ m, A.meta? name = some m →
      m.isWritable = true) : (g.walk config inputs).fault = none := by
  obtain ⟨metas, hmetas, hbound⟩ := hA.bound
  have hlen : metas.length = g.inputs.length := (length_eq_of_map_eq hbound).symm
  have hnames : Store.names (g.inputs.zip metas) = g.inputs := Store.names_zip hlen
  have hvalid : Store.Valid (g.inputs.zip metas) := by
    refine ⟨hnames.symm ▸ (Name.distinct_append.mp hd).1, ?_⟩
    intro entry he
    apply htext entry.1 (List.mem_append_left _ (List.of_mem_zip he).1)
    exact List.forall₂_zip (map_eq_map_some_iff.mp hbound) he
  have hbind : (g.bindInputs inputs []).fault = none :=
    (fault_bindInputs_eq_none_iff Store.valid_nil).mpr ⟨metas, hmetas, hlen, hvalid⟩
  rw [walk, Progress.fault_andThen_eq_none_iff, store_bindInputs hbind hmetas, List.nil_append]
  refine ⟨hbind, fault_inferNodes_eq_none hvalid ?_ ?_ ?_ hA.solved ?_⟩
  · exact (Store.within_nil A).append_zip hbound
  · rw [hnames]
    exact hd
  · rw [hnames]
    exact ho
  · exact fun name hname => htext name (List.mem_append_right _ hname)

/-- A walk over a graph with distinct names and ordered nodes never breaks
consistency, whatever it is run on. -/
theorem consistent_walk (hd : Name.Distinct (g.inputs ++ trackedNames g.nodes))
    (ho : Ordered g.inputs g.nodes) : (g.walk config inputs).Consistent := by
  rw [walk]
  have hinputs : Name.Distinct (Store.names [] ++ g.inputs) := (Name.distinct_append.mp hd).1
  apply (consistent_bindInputs hinputs).andThen
  intro hbind
  obtain ⟨metas, hmetas, hlen, _⟩ := (fault_bindInputs_eq_none_iff Store.valid_nil).mp hbind
  have hnames : (g.bindInputs inputs []).store.names = g.inputs := by
    rw [store_bindInputs hbind hmetas, List.nil_append, Store.names_zip hlen]
  apply consistent_inferNodes
  · rw [hnames]
    exact hd
  · rw [hnames]
    exact ho

/-- **Other graphs.** If what a walk leaves solves the equations of another graph,
whose names are distinct and whose operands come first, then a walk over that graph
goes through as well and finds nothing else. -/
theorem walk_of_solution {g' : Graph} {inputs' : List Datum}
    (h : (g.walk config inputs).fault = none)
    (hd : Name.Distinct (g'.inputs ++ trackedNames g'.nodes)) (ho : Ordered g'.inputs g'.nodes)
    (hsol : (g.walk config inputs).store.assignment.Solution g' config inputs') :
    (g'.walk config inputs').fault = none ∧
      (g'.walk config inputs').store.names = g'.inputs ++ trackedNames g'.nodes ∧
      (g'.walk config inputs').store.Within (g.walk config inputs).store.assignment := by
  obtain ⟨hvalid, _⟩ := walked_walk h
  have hfault : (g'.walk config inputs').fault = none := by
    refine fault_walk_eq_none hd ho hsol ?_
    intro name _ m hm
    obtain ⟨n, hmem, _⟩ := exists_of_lookup? hm
    exact hvalid.writable (n, m) hmem
  exact ⟨hfault, (walked_walk hfault).2.1, within_walk hfault hsol⟩

/-- **The order of the nodes.** A walk over the same nodes in another order in
which operands come first goes through as well and finds the same values. -/
theorem walk_perm {nodes : List Node} (h : (g.walk config inputs).fault = none)
    (hperm : nodes.Perm g.nodes) (ho : Ordered g.inputs nodes) :
    ((g.withNodes nodes).walk config inputs).fault = none ∧
      ∀ name, lookup? ((g.withNodes nodes).walk config inputs).store name
        = lookup? (g.walk config inputs).store name := by
  obtain ⟨hvalid, hnames, _, hsol⟩ := walked_walk h
  have htracked : (trackedNames nodes).Perm (trackedNames g.nodes) := hperm.flatMap_right _
  have hpermNames := htracked.append_left g.inputs
  -- The equations are the same, since none of them mentions a position.
  have hsol' : Assignment.Solution (g.walk config inputs).store.assignment
      (g.withNodes nodes) config inputs :=
    ⟨hsol.bound, fun node hn => hsol.solved node (hperm.mem_iff.mp hn)⟩
  have hd : Name.Distinct (g.inputs ++ trackedNames nodes) :=
    (hnames ▸ hvalid.distinct).perm hpermNames.symm
  obtain ⟨hfault, hnames', hwithin⟩ := walk_of_solution h hd ho hsol'
  refine ⟨hfault, hwithin.lookup?_eq ?_⟩
  intro name hname
  rw [hnames] at hname
  rw [hnames']
  exact (Name.isAmong_perm hpermNames).mpr hname

end Walks

end Graph

end GraphShapes
