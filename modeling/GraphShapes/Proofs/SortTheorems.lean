/-
GraphShapes.Proofs.SortTheorems — the nodes can be sorted exactly where none of
them feeds itself.

What sorting has to respect is a relation between nodes: `Feeds g u v` when
node `v` consumes a value that node `u` outputs. A graph is `Cyclic` if a node
feeds itself, directly or through others. `OrderTheorems` says what the queue
emits, in terms of suppliers; here suppliers are the nodes that feed
(`supplies_iff_feeds`), and the two ways in which sorting may end are told
apart. The queue that counts what every node waits for always runs empty, and
has then emitted what the bounded queue emits (`CountTheorems`), so the bound
never cuts anything short. If these are all the nodes they are an order
(`IsSorted`), and an order leaves no room for a cycle (`IsSorted.not_cyclic`).
If some are missing there is a cycle, since a finite relation without one is
well founded (`acc_feeds`).

  §1 Feeding — the relation, and suppliers.
  §2 Orders  — orders against cycles.
  §3 Sorting — how sorting may end.
-/
import GraphShapes.Proofs.CountTheorems
import Mathlib.Data.Fintype.Basic
import Mathlib.Data.Fintype.Card
import Mathlib.Data.Fintype.EquivFin
import Mathlib.Logic.Relation

namespace GraphShapes.Graph

variable {g : Graph} {ps : Producers} {u v : Nat}

/-! ## §1 Feeding -/

/-- Node `v` consumes a value that node `u` outputs. -/
def Feeds (g : Graph) (u v : Nat) : Prop :=
  ∃ source sink, g.nodes[u]? = some source ∧ g.nodes[v]? = some sink ∧
    ∃ name ∈ sink.inputs, name.isAmong source.outputs = true

/-- Some node feeds itself, directly or through other nodes. -/
def Cyclic (g : Graph) : Prop := ∃ v, Relation.TransGen g.Feeds v v

theorem Feeds.source_lt (h : g.Feeds u v) : u < g.nodes.length := by
  obtain ⟨_, _, hu, _⟩ := h
  exact (List.getElem?_eq_some_iff.mp hu).1

theorem Feeds.sink_lt (h : g.Feeds u v) : v < g.nodes.length := by
  obtain ⟨_, _, _, hv, _⟩ := h
  exact (List.getElem?_eq_some_iff.mp hv).1

/-- The suppliers of every node. -/
def supply (g : Graph) (ps : Producers) : List (List Nat) := g.nodes.map (suppliers ps)

@[simp] theorem length_supply (g : Graph) (ps : Producers) :
    (g.supply ps).length = g.nodes.length := List.length_map _

/-- A node's suppliers are the nodes that feed it. -/
theorem supplies_iff_feeds (hps : g.producers = .ok ps) :
    Supplies (g.supply ps) u v ↔ g.Feeds u v := by
  unfold Supplies supply Feeds
  simp only [List.getElem?_map, Option.map_eq_some_iff]
  constructor
  · rintro ⟨_, ⟨sink, hsink, rfl⟩, hu⟩
    obtain ⟨name, hname, hproducer⟩ := List.mem_filterMap.mp hu
    obtain ⟨source, hsource, hamong⟩ := (lookup?_producers hps).mp hproducer
    exact ⟨source, sink, hsource, hsink, name, hname, hamong⟩
  · rintro ⟨source, sink, hsource, hsink, name, hname, hamong⟩
    have hproducer := (lookup?_producers hps).mpr ⟨source, hsource, hamong⟩
    exact ⟨_, ⟨sink, hsink, rfl⟩, List.mem_filterMap.mpr ⟨name, hname, hproducer⟩⟩

/-! ## §2 Orders -/

/-- An order of the nodes: every index once, each node in front of those that it
feeds. -/
structure IsSorted (g : Graph) (order : List Nat) : Prop where
  perm : order.Perm (List.range g.nodes.length)
  forward : ∀ u v, g.Feeds u v → order.idxOf u < order.idxOf v

/-- A graph with an order has no cycle: along one, positions would grow. -/
theorem IsSorted.not_cyclic {order : List Nat} (h : g.IsSorted order) : ¬ g.Cyclic := by
  rintro ⟨v, hcycle⟩
  have hgrows : Relation.TransGen (· < ·) (order.idxOf v) (order.idxOf v) :=
    hcycle.lift order.idxOf h.forward
  rw [Relation.transGen_eq_self] at hgrows
  exact Nat.lt_irrefl _ hgrows

/-- Without a cycle the chains of nodes that feed one another are well founded,
since there are finitely many nodes. -/
theorem wellFounded_transGen_feeds (h : ¬ g.Cyclic) :
    WellFounded fun a b : Fin g.nodes.length => Relation.TransGen g.Feeds a b := by
  have : IsTrans (Fin g.nodes.length) fun a b => Relation.TransGen g.Feeds a b :=
    ⟨fun _ _ _ => Relation.TransGen.trans⟩
  have : Std.Irrefl fun a b : Fin g.nodes.length => Relation.TransGen g.Feeds a b :=
    ⟨fun a ha => h ⟨a, ha⟩⟩
  exact Finite.wellFounded_of_trans_of_irrefl _

/-- Without a cycle no node has an endless chain of nodes behind it. -/
theorem acc_feeds (h : ¬ g.Cyclic) (v : Nat) : Acc g.Feeds v := by
  have hinside (a : Fin g.nodes.length) : Acc g.Feeds a := by
    induction a using (wellFounded_transGen_feeds h).induction with
    | _ a ih => exact Acc.intro _ fun u hu => ih ⟨u, hu.source_lt⟩ (.single hu)
  -- What feeds any index at all is one of the nodes.
  exact Acc.intro v fun u hu => hinside ⟨u, hu.source_lt⟩

/-- Of two emitted indices the one that supplies the other stands in front of it. -/
theorem Emitted.idxOf_lt_idxOf {supply : List (List Nat)} {order : List Nat}
    (h : Emitted supply order) (hsupplies : Supplies supply u v) (hv : v ∈ order) :
    order.idxOf u < order.idxOf v := by
  obtain ⟨front, rest, rfl⟩ := List.append_of_mem hv
  have hready : Ready supply front v := by simpa using (inOrder_append.mp h.inOrder).2.1
  have hfront : u ∈ front := hready.mem_of_supplies hsupplies
  have hnew : v ∉ front := by
    intro hmem
    exact (List.nodup_append'.mp h.nodup).2.2 hmem List.mem_cons_self
  rw [List.idxOf_append_of_mem hfront, List.idxOf_append_of_notMem hnew]
  exact Nat.lt_of_lt_of_le (List.idxOf_lt_length_of_mem hfront) (Nat.le_add_right _ _)

/-- What the queue emits is an order of the nodes if it is as long as one. -/
theorem isSorted_of_emitted {order : List Nat} (hps : g.producers = .ok ps)
    (h : Emitted (g.supply ps) order) (hlen : order.length = g.nodes.length) :
    g.IsSorted order := by
  have hperm : order.Perm (List.range g.nodes.length) := by
    simpa using h.perm_range (by simp [hlen])
  refine ⟨hperm, fun u v hfeeds => ?_⟩
  have hv : v ∈ order := hperm.mem_iff.mpr (List.mem_range.mpr hfeeds.sink_lt)
  exact h.idxOf_lt_idxOf ((supplies_iff_feeds hps).mpr hfeeds) hv

/-- Without a cycle the queue emits every index. -/
theorem length_eq_of_not_cyclic {order : List Nat} (hps : g.producers = .ok ps)
    (h : Emitted (g.supply ps) order) (hacyclic : ¬ g.Cyclic) :
    order.length = g.nodes.length := by
  have hall : List.range (g.supply ps).length ⊆ order := by
    intro v hv
    refine h.mem_of_acc ?_ ?_ (List.mem_range.mp hv)
    · intro u w hsupplies
      simpa using ((supplies_iff_feeds hps).mp hsupplies).source_lt
    · exact Subrelation.accessible (supplies_iff_feeds hps).mp (acc_feeds hacyclic v)
  have hle : (g.supply ps).length ≤ order.length := by
    simpa using (List.subperm_of_subset List.nodup_range hall).length_le
  simpa using (h.perm_range hle).length_eq

/-! ## §3 Sorting -/

theorem supplier_lt (hps : g.producers = .ok ps) :
    ∀ us ∈ g.supply ps, ∀ u ∈ us, u < (g.supply ps).length := by
  intro us hus u hu
  obtain ⟨v, hv⟩ := List.mem_iff_getElem?.mp hus
  simpa using ((supplies_iff_feeds hps).mp ⟨us, hv, hu⟩).source_lt

/-- The indices that the counting queue has emitted by the time it is empty. -/
def Emits (g : Graph) (ps : Producers) (order : List Nat) : Prop :=
  Drains (Tally.ofSupply (g.supply ps)) (Tally.ofSupply (g.supply ps)).free [] order

/-- The counting queue runs empty, with what the bounded queue emits. -/
theorem emits_emit (hps : g.producers = .ok ps) :
    g.Emits ps (emit (g.supply ps) g.nodes.length (sources (g.supply ps)) []) := by
  have hin := supplier_lt hps
  rw [Emits, free_ofSupply hin]
  refine (queued_sources _).drains ((Tally.holds_ofSupply hin).congr ?_) hin (by simp)
  simp [Waits]

/-- **The order of a graph.** The queue runs empty, and either what it has
emitted is an order, which is the answer, or there is a cycle, which is. -/
theorem orderFrom_cases (hps : g.producers = .ok ps) :
    ∃ order, g.Emits ps order ∧
      ((g.IsSorted order ∧ g.orderFrom ps = .ok order) ∨
        (g.Cyclic ∧ g.orderFrom ps = .error .cycle)) := by
  have hstart := queued_sources (g.supply ps)
  have hturns : (g.supply ps).length ≤ g.nodes.length + ([] : List Nat).length := by simp
  have hemitted := emitted_emit hstart hturns
  refine ⟨_, emits_emit hps, ?_⟩
  by_cases hlen : (emit (g.supply ps) g.nodes.length (sources (g.supply ps)) []).length
      = g.nodes.length
  · exact Or.inl ⟨isSorted_of_emitted hps hemitted hlen, if_pos hlen⟩
  · refine Or.inr ⟨?_, if_neg hlen⟩
    by_contra hacyclic
    exact hlen (length_eq_of_not_cyclic hps hemitted hacyclic)

/-- **Sorting is sound and complete.** Where no value is output twice the queue
runs empty, and either no node feeds itself and sorting answers an order of the
nodes, or some node does and sorting reports a cycle. Where a value is output
twice sorting reports its producers. -/
theorem toposort_spec (g : Graph) :
    (Name.Distinct (allOutputs g.nodes) →
      ∃ ps order, g.producers = .ok ps ∧ g.Emits ps order ∧
        ((¬ g.Cyclic ∧ g.IsSorted order ∧ g.toposort = .ok (order.filterMap (g.nodes[·]?))) ∨
          (g.Cyclic ∧ g.toposort = .error .cycle))) ∧
    (¬ Name.Distinct (allOutputs g.nodes) →
      ∃ name later earlier, g.toposort = .error (.manyProducers name later earlier)) := by
  constructor
  · intro hd
    have hps : g.producers = .ok (produced 0 g.nodes) := producers_eq_ok_iff.mpr ⟨hd, rfl⟩
    obtain ⟨order, hemits, hcases⟩ := orderFrom_cases hps
    refine ⟨_, order, hps, hemits, ?_⟩
    rcases hcases with ⟨hsorted, horder⟩ | ⟨hcyclic, horder⟩
    · exact Or.inl ⟨hsorted.not_cyclic, hsorted,
        toposort_eq_ok_iff.mpr ⟨_, order, hps, horder, rfl⟩⟩
    · refine Or.inr ⟨hcyclic, ?_⟩
      simp only [toposort, Graph.order, bind_eq_error_iff]
      exact Or.inl (Or.inr ⟨_, hps, horder⟩)
  · intro hd
    cases hps : g.producers with
    | ok ps => exact absurd (producers_eq_ok_iff.mp hps).1 hd
    | error e =>
      obtain ⟨front, _, _, name, earlier, _, rfl, _⟩ := exists_of_producers_eq_error hps
      refine ⟨name, front.length, earlier, ?_⟩
      simp only [toposort, Graph.order, bind_eq_error_iff]
      exact Or.inl (Or.inl hps)

end GraphShapes.Graph
