/-
GraphShapes.Proofs.OrderTheorems — producers, and the order that the queue
emits.

The order of the nodes comes from two tables: which node produces which value,
and which nodes supply which. `producers_eq_ok_iff` says when the first exists
and what is in it: the outputs of all nodes are distinct, and every one of them
is entered with its node.

The second drives the queue, and here nodes are bare indices. At every turn
the emitted and the queued indices are, without repetition, exactly those
whose suppliers have all been emitted; `Queued` is this invariant. It carries
through a turn (`Queued.turn`), so through all of them, and at the end it says
that the emitted indices come after their suppliers and that an index that is
missing waits for a supplier that is missing (`emitted_emit`). An order of full
length is then a rearrangement of the indices (`Emitted.perm_range`), and if
the suppliers are well founded nothing can be missing (`Emitted.mem_of_acc`).

  §1 Producers — entering outputs, and looking a producer up.
  §2 Released  — the indices that a turn adds to the queue.
  §3 Turns     — the invariant and its induction.
  §4 Orders    — full orders, and the nodes in them.
-/
import GraphShapes.Graph.Order
import GraphShapes.Proofs.NameTheorems
import GraphShapes.Proofs.ResultTheorems

namespace GraphShapes.Graph

/-! ## §1 Producers -/

/-- The outputs of nodes numbered from `i` on, each with the number of its node. -/
def produced (i : Nat) (nodes : List Node) : Producers :=
  (nodes.zipIdx i).flatMap fun (node, j) => node.outputs.map (·, j)

@[simp] theorem produced_nil (i : Nat) : produced i [] = [] := rfl

@[simp] theorem produced_cons (i : Nat) (node : Node) (rest : List Node) :
    produced i (node :: rest) = node.outputs.map (·, i) ++ produced (i + 1) rest := by
  simp [produced]

/-- The outputs of all nodes, in node order. -/
def allOutputs (nodes : List Node) : List Name := nodes.flatMap Node.outputs

theorem map_fst_produced (i : Nat) (nodes : List Node) :
    (produced i nodes).map Prod.fst = allOutputs nodes := by
  induction nodes generalizing i with
  | nil => rfl
  | cons node rest ih => simp [ih, allOutputs, Function.comp_def]

theorem mem_produced {i j : Nat} {nodes : List Node} {name : Name} :
    (name, j) ∈ produced i nodes ↔
      i ≤ j ∧ ∃ node, nodes[j - i]? = some node ∧ name ∈ node.outputs := by
  simp only [produced, List.mem_flatMap, List.mem_map, Prod.mk.injEq]
  constructor
  · rintro ⟨⟨node, k⟩, hmem, n, hn, rfl, rfl⟩
    obtain ⟨hle, hget⟩ := List.mk_mem_zipIdx_iff_le_and_getElem?_sub.mp hmem
    exact ⟨hle, node, hget, hn⟩
  · intro ⟨hle, node, hget, hn⟩
    have hmem := List.mk_mem_zipIdx_iff_le_and_getElem?_sub.mpr ⟨hle, hget⟩
    exact ⟨(node, j), hmem, name, hn, rfl, rfl⟩

section Entering

variable {ps qs : Producers} {names : List Name} {nodes : List Node} {i : Nat}

/-- Outputs of one node are entered if no name is in use or occurs twice. -/
theorem enterOutputs_eq_ok_iff (hps : Name.Distinct (ps.map Prod.fst)) :
    enterOutputs i ps names = .ok qs ↔
      Name.Distinct (ps.map Prod.fst ++ names) ∧ qs = ps ++ names.map (·, i) := by
  induction names generalizing ps with
  | nil => simp [enterOutputs, hps, eq_comm]
  | cons name rest ih =>
    rw [enterOutputs]
    have hsplit : ps.map Prod.fst ++ name :: rest
        = (ps ++ [(name, i)]).map Prod.fst ++ rest := by simp
    rw [hsplit]
    cases hname : lookup? ps name with
    | some earlier =>
      -- The name is in use, and stays so whatever follows it.
      have htwice : ¬ Name.Distinct ((ps ++ [(name, i)]).map Prod.fst ++ rest) := by
        intro hd
        have hfront := (Name.distinct_append.mp hd).1
        rw [(distinct_append_singleton.mp hfront).2] at hname
        cases hname
      simp only [htwice, false_and, reduceCtorEq]
    | none =>
      have hps' : Name.Distinct ((ps ++ [(name, i)]).map Prod.fst) :=
        distinct_append_singleton.mpr ⟨hps, hname⟩
      dsimp only
      rw [ih hps', List.map_cons, List.append_cons ps (name, i) (rest.map (·, i))]

/-- Nodes are entered if no output is in use or occurs twice. -/
theorem enterNodes_eq_ok_iff (hps : Name.Distinct (ps.map Prod.fst)) :
    enterNodes i ps nodes = .ok qs ↔
      Name.Distinct (ps.map Prod.fst ++ allOutputs nodes) ∧ qs = ps ++ produced i nodes := by
  induction nodes generalizing i ps with
  | nil => simp [enterNodes, allOutputs, hps, eq_comm]
  | cons node rest ih =>
    have hsplit : ps.map Prod.fst ++ allOutputs (node :: rest)
        = (ps.map Prod.fst ++ node.outputs) ++ allOutputs rest := by simp [allOutputs]
    rw [enterNodes, hsplit, bind_eq_ok_iff]
    have hnames : (ps ++ node.outputs.map (·, i)).map Prod.fst
        = ps.map Prod.fst ++ node.outputs := by simp [Function.comp_def]
    constructor
    · rintro ⟨ps', hnode, hrest⟩
      obtain ⟨hd, rfl⟩ := (enterOutputs_eq_ok_iff hps).mp hnode
      rw [← hnames] at hd ⊢
      rw [produced_cons, ← List.append_assoc]
      exact (ih hd).mp hrest
    · rintro ⟨hd, rfl⟩
      have hfront := (Name.distinct_append.mp hd).1
      refine ⟨ps ++ node.outputs.map (·, i), (enterOutputs_eq_ok_iff hps).mpr ⟨hfront, rfl⟩, ?_⟩
      rw [← hnames] at hd hfront
      exact (ih hfront).mpr ⟨hd, by rw [produced_cons, List.append_assoc]⟩

/-- Outputs of one node are not entered when one of them is in use. -/
theorem exists_of_enterOutputs_eq_error {e : ValidationError}
    (h : enterOutputs i ps names = .error e) :
    ∃ name earlier, e = .manyProducers name i earlier := by
  induction names generalizing ps with
  | nil => cases h
  | cons name rest ih =>
    rw [enterOutputs] at h
    split at h
    · next earlier _ =>
      cases h
      exact ⟨name, earlier, rfl⟩
    · exact ih h

/-- Nodes are not entered because of the first of them that outputs a name in
use, or a name twice. -/
theorem exists_of_enterNodes_eq_error {e : ValidationError} (hps : Name.Distinct (ps.map Prod.fst))
    (h : enterNodes i ps nodes = .error e) :
    ∃ front node rest name earlier, nodes = front ++ node :: rest ∧
      e = .manyProducers name (i + front.length) earlier ∧
      Name.Distinct (ps.map Prod.fst ++ allOutputs front) ∧
      ¬ Name.Distinct (ps.map Prod.fst ++ allOutputs front ++ node.outputs) := by
  induction nodes generalizing i ps with
  | nil => cases h
  | cons node rest ih =>
    rw [enterNodes, bind_eq_error_iff] at h
    rcases h with hnode | ⟨ps', hnode, hrest⟩
    · obtain ⟨name, earlier, rfl⟩ := exists_of_enterOutputs_eq_error hnode
      refine ⟨[], node, rest, name, earlier, rfl, rfl, by simpa [allOutputs] using hps, ?_⟩
      intro hd
      have hok := (enterOutputs_eq_ok_iff (i := i) hps).mpr ⟨by simpa [allOutputs] using hd, rfl⟩
      rw [hnode] at hok
      cases hok
    · obtain ⟨hd, rfl⟩ := (enterOutputs_eq_ok_iff hps).mp hnode
      have hnames : (ps ++ node.outputs.map (·, i)).map Prod.fst
          = ps.map Prod.fst ++ node.outputs := by simp [Function.comp_def]
      rw [← hnames] at hd
      obtain ⟨front, next, rest', name, earlier, rfl, rfl, hfront, hrepeats⟩ := ih hd hrest
      rw [hnames] at hfront hrepeats
      refine ⟨node :: front, next, rest', name, earlier, rfl, ?_, ?_, ?_⟩
      · rw [List.length_cons, Nat.add_assoc, Nat.add_comm 1]
      · simpa [allOutputs] using hfront
      · simpa [allOutputs] using hrepeats

end Entering

variable {g : Graph} {ps : Producers} {name : Name} {i : Nat}

/-- **Producers.** The table of producers exists if no value is output twice, and
then it lists the outputs of all nodes. -/
theorem producers_eq_ok_iff :
    g.producers = .ok ps ↔ Name.Distinct (allOutputs g.nodes) ∧ ps = produced 0 g.nodes :=
  enterNodes_eq_ok_iff Name.distinct_nil

/-- There is no table of producers because of the first node that outputs a name
twice, or a name that a node in front of it outputs. -/
theorem exists_of_producers_eq_error {e : ValidationError} (h : g.producers = .error e) :
    ∃ front node rest name earlier, g.nodes = front ++ node :: rest ∧
      e = .manyProducers name front.length earlier ∧ Name.Distinct (allOutputs front) ∧
      ¬ Name.Distinct (allOutputs front ++ node.outputs) := by
  have hnil : Name.Distinct (([] : Producers).map Prod.fst) := Name.distinct_nil
  simpa using exists_of_enterNodes_eq_error hnil h

/-- The producer of a value is the node that outputs it. -/
theorem lookup?_producers (h : g.producers = .ok ps) :
    lookup? ps name = some i ↔
      ∃ node, g.nodes[i]? = some node ∧ name.isAmong node.outputs = true := by
  obtain ⟨hd, rfl⟩ := producers_eq_ok_iff.mp h
  rw [lookup?_eq_some_iff (by rw [map_fst_produced]; exact hd)]
  simp only [mem_produced, Nat.zero_le, true_and, Nat.sub_zero, Name.isAmong_iff, List.mem_map]
  constructor
  · rintro ⟨n, ⟨node, hnode, hn⟩, hkey⟩
    exact ⟨node, hnode, n, hn, hkey⟩
  · rintro ⟨node, hnode, n, hn, hkey⟩
    exact ⟨n, ⟨node, hnode, hn⟩, hkey⟩

/-- A value that no node outputs has no producer. -/
theorem lookup?_producers_eq_none (h : g.producers = .ok ps) :
    lookup? ps name = none ↔ name.isAmong (allOutputs g.nodes) = false := by
  obtain ⟨_, rfl⟩ := producers_eq_ok_iff.mp h
  rw [lookup?_eq_none_iff, map_fst_produced, ← Name.isAmong_iff, Bool.not_eq_true]

/-! ## §2 Released -/

section Queue

variable {supply : List (List Nat)} {queue emitted order : List Nat} {u v turns : Nat}

/-- All suppliers of the index have been emitted. -/
def Ready (supply : List (List Nat)) (emitted : List Nat) (v : Nat) : Prop :=
  ∃ us, supply[v]? = some us ∧ ∀ u ∈ us, u ∈ emitted

theorem Ready.lt_length (h : Ready supply emitted v) : v < supply.length := by
  obtain ⟨us, hus, _⟩ := h
  exact (List.getElem?_eq_some_iff.mp hus).1

/-- The index `u` supplies the index `v`. -/
def Supplies (supply : List (List Nat)) (u v : Nat) : Prop :=
  ∃ us, supply[v]? = some us ∧ u ∈ us

theorem Ready.mem_of_supplies (h : Ready supply emitted v) (hsupplies : Supplies supply u v) :
    u ∈ emitted := by
  obtain ⟨us, hus, hall⟩ := h
  obtain ⟨us', hus', hu⟩ := hsupplies
  rw [hus] at hus'
  cases hus'
  exact hall u hu

/-- Positions picked out of a list stand in ascending order. -/
theorem pairwise_map_snd_filter_zipIdx {α : Type} (xs : List α) (p : α × Nat → Bool) :
    ((xs.zipIdx.filter p).map (·.2)).Pairwise (· < ·) := by
  have hsub : ((xs.zipIdx.filter p).map (·.2)).Sublist (xs.zipIdx.map (·.2)) :=
    List.filter_sublist.map _
  rw [List.zipIdx_map_snd] at hsub
  exact (List.pairwise_lt_range' 1).sublist hsub

theorem pairwise_released (supply : List (List Nat)) (emitted : List Nat) (u : Nat) :
    (released supply emitted u).Pairwise (· < ·) :=
  pairwise_map_snd_filter_zipIdx supply _

theorem pairwise_sources (supply : List (List Nat)) : (sources supply).Pairwise (· < ·) :=
  pairwise_map_snd_filter_zipIdx supply _

theorem nodup_released (supply : List (List Nat)) (emitted : List Nat) (u : Nat) :
    (released supply emitted u).Nodup :=
  (pairwise_released supply emitted u).imp Nat.ne_of_lt

theorem nodup_sources (supply : List (List Nat)) : (sources supply).Nodup :=
  (pairwise_sources supply).imp Nat.ne_of_lt

/-- Released are the indices that `u` supplies and that are ready. -/
theorem mem_released :
    v ∈ released supply emitted u ↔
      ∃ us, supply[v]? = some us ∧ u ∈ us ∧ ∀ w ∈ us, w ∈ emitted := by
  simp only [released, List.mem_map, List.mem_filter, List.mem_zipIdx_iff_getElem?,
    Bool.and_eq_true, List.contains_iff_mem, List.all_eq_true]
  constructor
  · rintro ⟨⟨us, w⟩, ⟨hget, hu, hall⟩, rfl⟩
    exact ⟨us, hget, hu, hall⟩
  · intro ⟨us, hget, hu, hall⟩
    exact ⟨(us, v), ⟨hget, hu, hall⟩, rfl⟩

/-- Sources are the indices that are ready from the start. -/
theorem mem_sources : v ∈ sources supply ↔ Ready supply [] v := by
  simp only [sources, List.mem_map, List.mem_filter, List.mem_zipIdx_iff_getElem?,
    List.isEmpty_iff, Ready, List.not_mem_nil]
  constructor
  · rintro ⟨⟨us, w⟩, ⟨hget, rfl⟩, rfl⟩
    exact ⟨[], hget, nofun⟩
  · intro ⟨us, hget, hnone⟩
    exact ⟨(us, v), ⟨hget, List.eq_nil_iff_forall_not_mem.mpr hnone⟩, rfl⟩

/-! ## §3 Turns -/

/-- Every listed index is ready once what is listed in front of it is emitted. -/
def InOrder (supply : List (List Nat)) : List Nat → List Nat → Prop
  | _, [] => True
  | emitted, v :: rest => Ready supply emitted v ∧ InOrder supply (emitted ++ [v]) rest

theorem inOrder_append {as bs : List Nat} :
    InOrder supply emitted (as ++ bs) ↔
      InOrder supply emitted as ∧ InOrder supply (emitted ++ as) bs := by
  induction as generalizing emitted with
  | nil => simp [InOrder]
  | cons a as ih => simp [InOrder, ih, and_assoc]

theorem InOrder.lt_length (h : InOrder supply emitted order) (hv : v ∈ order) :
    v < supply.length := by
  obtain ⟨front, rest, rfl⟩ := List.append_of_mem hv
  exact (inOrder_append.mp h).2.1.lt_length

/-- The invariant of the queue: emitted and queued are, without repetition,
exactly the ready indices, and the emitted ones stand in order. -/
structure Queued (supply : List (List Nat)) (queue emitted : List Nat) : Prop where
  nodup : (emitted ++ queue).Nodup
  ready : ∀ v, v ∈ emitted ++ queue ↔ Ready supply emitted v
  inOrder : InOrder supply [] emitted

/-- Before the first turn nothing is emitted and the sources are queued. -/
theorem queued_sources (supply : List (List Nat)) : Queued supply (sources supply) [] :=
  ⟨nodup_sources supply, fun _ => mem_sources, trivial⟩

theorem Queued.ready_head (h : Queued supply (u :: queue) emitted) : Ready supply emitted u :=
  (h.ready u).mp (List.mem_append_right _ List.mem_cons_self)

theorem Queued.head_notMem (h : Queued supply (u :: queue) emitted) : u ∉ emitted :=
  fun hmem => (List.nodup_append'.mp h.nodup).2.2 hmem List.mem_cons_self

/-- **A turn keeps the invariant.** -/
theorem Queued.turn (h : Queued supply (u :: queue) emitted) :
    Queued supply (queue ++ released supply (emitted ++ [u]) u) (emitted ++ [u]) := by
  have hsplit : emitted ++ [u] ++ (queue ++ released supply (emitted ++ [u]) u)
      = (emitted ++ u :: queue) ++ released supply (emitted ++ [u]) u := by simp
  refine ⟨?_, ?_, inOrder_append.mpr ⟨h.inOrder, h.ready_head, trivial⟩⟩
  · rw [hsplit, List.nodup_append']
    refine ⟨h.nodup, nodup_released _ _ _, ?_⟩
    -- What was ready already does not wait for `u`, so it is not released now.
    intro v hv hrel
    obtain ⟨us, hus, hsupplied, _⟩ := mem_released.mp hrel
    exact h.head_notMem (((h.ready v).mp hv).mem_of_supplies ⟨us, hus, hsupplied⟩)
  · intro v
    rw [hsplit, List.mem_append, h.ready v, mem_released]
    constructor
    · rintro (⟨us, hus, hall⟩ | ⟨us, hus, _, hall⟩)
      · exact ⟨us, hus, fun w hw => List.mem_append_left _ (hall w hw)⟩
      · exact ⟨us, hus, hall⟩
    · intro ⟨us, hus, hall⟩
      by_cases hsupplied : u ∈ us
      · exact Or.inr ⟨us, hus, hsupplied, hall⟩
      · refine Or.inl ⟨us, hus, fun w hw => ?_⟩
        rcases List.mem_append.mp (hall w hw) with hold | hlast
        · exact hold
        · rw [List.mem_singleton.mp hlast] at hw
          exact absurd hw hsupplied

/-- What the turns emit: no index twice, every index behind its suppliers, and
every index whose suppliers are all there. -/
structure Emitted (supply : List (List Nat)) (order : List Nat) : Prop where
  nodup : order.Nodup
  inOrder : InOrder supply [] order
  complete : ∀ v, Ready supply order v → v ∈ order

/-- Indices that are not repeated, as many as there are, are all of them. -/
theorem perm_range_of_length {n : Nat} (hnodup : order.Nodup) (hlt : ∀ v ∈ order, v < n)
    (hlen : n ≤ order.length) : order.Perm (List.range n) := by
  have hsub : order ⊆ List.range n := fun v hv => List.mem_range.mpr (hlt v hv)
  exact (List.subperm_of_subset hnodup hsub).perm_of_length_le (by simpa using hlen)

/-- **The turns.** With a turn for every index that is left, emitting ends with
nothing ready left out. -/
theorem emitted_emit (h : Queued supply queue emitted)
    (hturns : supply.length ≤ turns + emitted.length) :
    Emitted supply (emit supply turns queue emitted) := by
  induction turns generalizing queue emitted with
  | zero =>
    rw [emit]
    have hnodup : emitted.Nodup := (List.nodup_append'.mp h.nodup).1
    refine ⟨hnodup, h.inOrder, fun v hv => ?_⟩
    have hall : emitted.Perm (List.range supply.length) :=
      perm_range_of_length hnodup (fun w hw => h.inOrder.lt_length hw) (by omega)
    exact hall.mem_iff.mpr (List.mem_range.mpr hv.lt_length)
  | succ turns ih =>
    cases queue with
    | nil =>
      rw [emit]
      refine ⟨by simpa using h.nodup, h.inOrder, fun v hv => ?_⟩
      simpa using (h.ready v).mpr hv
    | cons u queue =>
      rw [emit]
      apply ih h.turn
      rw [List.length_append, List.length_singleton]
      omega

/-! ## §4 Orders -/

/-- An order of full length has every index once. -/
theorem Emitted.perm_range (h : Emitted supply order) (hlen : supply.length ≤ order.length) :
    order.Perm (List.range supply.length) :=
  perm_range_of_length h.nodup (fun _ hv => h.inOrder.lt_length hv) hlen

/-- An index with no endless chain of suppliers is emitted. -/
theorem Emitted.mem_of_acc (h : Emitted supply order)
    (hlt : ∀ u v, Supplies supply u v → u < supply.length) (hacc : Acc (Supplies supply) v)
    (hv : v < supply.length) : v ∈ order := by
  induction hacc with
  | intro v _ ih =>
    refine h.complete v ⟨supply[v], List.getElem?_eq_getElem hv, fun u hu => ?_⟩
    have hsupplies : Supplies supply u v := ⟨supply[v], List.getElem?_eq_getElem hv, hu⟩
    exact ih u hsupplies (hlt u v hsupplies)

/-- Where every index comes after its suppliers already, the order is full. -/
theorem Emitted.length_eq_of_lt (h : Emitted supply order)
    (hlt : ∀ u v, Supplies supply u v → u < v) : order.length = supply.length := by
  have hwf : WellFounded (Supplies supply) := Subrelation.wf (hlt _ _ ·) Nat.lt_wfRel.wf
  have hbound : ∀ u v, Supplies supply u v → u < supply.length := by
    intro u v hsupplies
    have huv := hlt u v hsupplies
    obtain ⟨us, hus, _⟩ := hsupplies
    have hv := (List.getElem?_eq_some_iff.mp hus).1
    omega
  have hall : List.range supply.length ⊆ order := by
    intro v hv
    exact h.mem_of_acc hbound (hwf.apply v) (List.mem_range.mp hv)
  have hle : supply.length ≤ order.length := by
    simpa using (List.subperm_of_subset List.nodup_range hall).length_le
  have hperm := h.perm_range hle
  simpa using hperm.length_eq

end Queue

variable {nodes : List Node}

/-- **The order of a graph.** It is what the turns emit, and it is full. -/
theorem emitted_of_orderFrom {order : List Nat} (h : g.orderFrom ps = .ok order) :
    Emitted (g.nodes.map (suppliers ps)) order ∧ order.length = g.nodes.length := by
  unfold orderFrom at h
  dsimp only at h
  split at h
  · next hlen =>
    cases h
    exact ⟨emitted_emit (queued_sources _) (by simp), hlen⟩
  · cases h

/-- Where every node comes after its suppliers already, there is an order. -/
theorem exists_orderFrom (h : ∀ u v, Supplies (g.nodes.map (suppliers ps)) u v → u < v) :
    ∃ order, g.orderFrom ps = .ok order := by
  have hemit : Emitted (g.nodes.map (suppliers ps))
      (emit (g.nodes.map (suppliers ps)) g.nodes.length
        (sources (g.nodes.map (suppliers ps))) []) :=
    emitted_emit (queued_sources _) (by simp)
  have hlen := hemit.length_eq_of_lt h
  rw [List.length_map] at hlen
  exact ⟨_, if_pos hlen⟩

/-- Sorting is picking the nodes in the order of their indices. -/
theorem toposort_eq_ok_iff :
    g.toposort = .ok nodes ↔
      ∃ ps order, g.producers = .ok ps ∧ g.orderFrom ps = .ok order ∧
        nodes = order.filterMap (g.nodes[·]?) := by
  simp only [toposort, order, bind_eq_ok_iff, pure_eq_ok_iff]
  constructor
  · rintro ⟨order, ⟨ps, hps, horder⟩, rfl⟩
    exact ⟨ps, order, hps, horder, rfl⟩
  · rintro ⟨ps, order, hps, horder, rfl⟩
    exact ⟨order, ⟨ps, hps, horder⟩, rfl⟩

/-- All indices in turn pick all members in turn. -/
theorem filterMap_getElem?_range {α : Type} (xs : List α) :
    (List.range xs.length).filterMap (xs[·]?) = xs := by
  induction xs with
  | nil => rfl
  | cons x xs ih =>
    rw [List.length_cons, List.range_succ_eq_map, List.filterMap_cons, List.filterMap_map]
    simpa [Function.comp_def] using ih

/-- A full order picks every node once. -/
theorem perm_filterMap_getElem? {order : List Nat}
    (h : order.Perm (List.range g.nodes.length)) :
    (order.filterMap (g.nodes[·]?)).Perm g.nodes := by
  have hpick := h.filterMap (g.nodes[·]?)
  rwa [filterMap_getElem?_range] at hpick

/-- Nodes that were sorted are the nodes of the graph. -/
theorem perm_of_toposort (h : g.toposort = .ok nodes) : nodes.Perm g.nodes := by
  obtain ⟨ps, order, _, horder, rfl⟩ := toposort_eq_ok_iff.mp h
  obtain ⟨hemit, hlen⟩ := emitted_of_orderFrom horder
  have hperm := hemit.perm_range (by simp [hlen])
  rw [List.length_map] at hperm
  exact perm_filterMap_getElem? hperm

end GraphShapes.Graph
