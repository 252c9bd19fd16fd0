/-
GraphShapes.Proofs.PrecedenceTheorems — which node goes first.

`SortTheorems` says that sorting answers an order in which suppliers come first.
There may be many, and this module says which it is. The queue is first in,
first out: an index is queued when its last supplier is emitted, and of those
that are queued together the lowest comes first. So the order is strictly
increasing in a key that it defines itself, the position of the last supplier
and then the index (`IsStaged`). The key of an index does not change any more
once the index is queued, which is why the emitted and the queued indices
together are increasing at every turn (`Queued.staged_turn`), hence the order at
the end (`staged_emit`).

No other order that respects the suppliers increases in its own keys
(`IsSorted.eq_of_isStaged`), and two things can be read off. A chain of nodes
that feed one another up to some node is matched by one up to any node behind it
(`Chain.of_le`), so nodes stand by depth. And the nodes are left as they are
listed exactly if every node is listed behind those that feed it and is fed no
later than the nodes behind it (`order_eq_range_iff`): to come after one's
suppliers is not enough.

  §1 Positions — where the last of some indices stands.
  §2 Turns     — keys, and the invariant of the queue.
  §3 Orders    — keys of nodes, and the one order that increases in them.
  §4 Depth     — chains, and their lengths along the order.
  §5 Sorting   — the order that sorting answers.
-/
import GraphShapes.Proofs.SortTheorems
import Mathlib.Data.List.MinMax
import Mathlib.Data.Prod.Lex
import Mathlib.Data.Nat.SuccPred

namespace GraphShapes

namespace Graph

/-! ## §1 Positions -/

section Positions

variable {order more us us' : List Nat} {u v p : Nat}

/-- Where the last of some indices stands in an order: nowhere, in front of
every position, if there are none. -/
def lastPosition (order us : List Nat) : WithBot Nat := (us.map order.idxOf).maximum

theorem lastPosition_congr (h : ∀ u, u ∈ us ↔ u ∈ us') :
    lastPosition order us = lastPosition order us' := by
  apply le_antisymm
  · exact List.maximum_mono (List.map_subset _ fun u hu => (h u).mp hu)
  · exact List.maximum_mono (List.map_subset _ fun u hu => (h u).mpr hu)

theorem le_lastPosition (h : u ∈ us) : (order.idxOf u : WithBot Nat) ≤ lastPosition order us :=
  List.le_maximum_of_mem' (List.mem_map_of_mem h)

theorem lastPosition_le_iff :
    lastPosition order us ≤ p ↔ ∀ u ∈ us, order.idxOf u ≤ p := by
  constructor
  · intro h u hu
    exact WithBot.coe_le_coe.mp ((le_lastPosition hu).trans h)
  · intro h
    apply List.maximum_le_of_forall_le
    intro q hq
    obtain ⟨u, hu, rfl⟩ := List.mem_map.mp hq
    exact WithBot.coe_le_coe.mpr (h u hu)

/-- The last position is taken by one of the indices. -/
theorem exists_lastPosition_eq (h : us ≠ []) :
    ∃ u ∈ us, lastPosition order us = order.idxOf u := by
  have hne : lastPosition order us ≠ ⊥ := by
    rw [lastPosition, Ne, List.maximum_eq_bot, List.map_eq_nil_iff]
    exact h
  obtain ⟨q, hq⟩ := WithBot.ne_bot_iff_exists.mp hne
  obtain ⟨u, hu, rfl⟩ := List.mem_map.mp (List.maximum_mem hq.symm)
  exact ⟨u, hu, hq.symm⟩

theorem lastPosition_lt (h : ∀ u ∈ us, order.idxOf u < p) : lastPosition order us < p := by
  by_cases hus : us = []
  · subst hus
    exact WithBot.bot_lt_coe p
  · obtain ⟨u, hu, heq⟩ : ∃ u ∈ us, lastPosition order us = order.idxOf u :=
      exists_lastPosition_eq hus
    rw [heq]
    exact WithBot.coe_lt_coe.mpr (h u hu)

/-- The last of some indices does not stand behind the last of others if each of them
does not stand behind one of the others. -/
theorem lastPosition_le_lastPosition_iff :
    lastPosition order us ≤ lastPosition order us' ↔
      ∀ u ∈ us, ∃ u' ∈ us', order.idxOf u ≤ order.idxOf u' := by
  have hle {u : Nat} : (order.idxOf u : WithBot Nat) ≤ lastPosition order us' ↔
      ∃ u' ∈ us', order.idxOf u ≤ order.idxOf u' := by
    refine (List.coe_le_maximum_iff (a := order.idxOf u)).trans ?_
    simp
  constructor
  · intro h u hu
    exact hle.mp ((le_lastPosition hu).trans h)
  · intro h
    apply List.maximum_le_of_forall_le
    intro q hq
    obtain ⟨u, hu, rfl⟩ := List.mem_map.mp hq
    exact hle.mpr (h u hu)

/-- Indices that have their positions keep them as the order grows. -/
theorem lastPosition_append (h : ∀ u ∈ us, u ∈ order) :
    lastPosition (order ++ more) us = lastPosition order us := by
  unfold lastPosition
  refine congrArg List.maximum (List.map_congr_left fun u hu => ?_)
  exact List.idxOf_append_of_mem (h u hu)

/-- The index that stands last is the last of any among which it is. -/
theorem lastPosition_concat (hu : u ∈ us) (hnew : u ∉ order) (h : ∀ w ∈ us, w ∈ order ++ [u]) :
    lastPosition (order ++ [u]) us = order.length := by
  have hplace : (order ++ [u]).idxOf u = order.length := by
    simp [List.idxOf_append_of_notMem hnew]
  apply le_antisymm
  · rw [lastPosition_le_iff]
    intro w hw
    have hlt := List.idxOf_lt_length_of_mem (h w hw)
    rw [List.length_append, List.length_singleton] at hlt
    exact Nat.le_of_lt_succ hlt
  · rw [← hplace]
    exact le_lastPosition hu

end Positions

/-! ## §2 Turns -/

section Queue

variable {supply : List (List Nat)} {queue emitted order : List Nat} {u v turns : Nat}

/-- The key of an index: the position of its last supplier, then the index. -/
def precedence (supply : List (List Nat)) (order : List Nat) (v : Nat) : WithBot Nat ×ₗ Nat :=
  toLex (lastPosition order (supply[v]?.getD []), v)

/-- The indices stand in the order of their keys. -/
def Staged (supply : List (List Nat)) (order vs : List Nat) : Prop :=
  vs.Pairwise fun v w => precedence supply order v < precedence supply order w

theorem Ready.mem_of_mem (h : Ready supply emitted v) :
    ∀ u ∈ supply[v]?.getD [], u ∈ emitted := by
  obtain ⟨us, hus, hall⟩ := h
  rw [hus]
  exact hall

/-- The key of an index that is ready does not change any more. -/
theorem Ready.precedence_append (h : Ready supply emitted v) (more : List Nat) :
    precedence supply (emitted ++ more) v = precedence supply emitted v := by
  rw [precedence, precedence, lastPosition_append h.mem_of_mem]

/-- The suppliers of an index that is ready have positions among the emitted ones. -/
theorem Ready.lastPosition_lt_length (h : Ready supply emitted v) :
    lastPosition emitted (supply[v]?.getD []) < emitted.length :=
  lastPosition_lt fun u hu => List.idxOf_lt_length_of_mem (h.mem_of_mem u hu)

/-- What a turn releases has the emitted index as its last supplier. -/
theorem precedence_of_mem_released (hnew : u ∉ emitted)
    (hv : v ∈ released supply (emitted ++ [u]) u) :
    precedence supply (emitted ++ [u]) v = toLex (↑emitted.length, v) := by
  obtain ⟨us, hus, hu, hall⟩ := mem_released.mp hv
  rw [precedence, hus, Option.getD_some, lastPosition_concat hu hnew hall]

/-- **A turn keeps the keys increasing.** What it releases comes behind everything
that is queued, in the order of the indices. -/
theorem Queued.staged_turn (h : Queued supply (u :: queue) emitted)
    (hstaged : Staged supply emitted (emitted ++ u :: queue)) :
    Staged supply (emitted ++ [u])
      (emitted ++ [u] ++ (queue ++ released supply (emitted ++ [u]) u)) := by
  have hsplit : emitted ++ [u] ++ (queue ++ released supply (emitted ++ [u]) u)
      = (emitted ++ u :: queue) ++ released supply (emitted ++ [u]) u := by simp
  have hready : ∀ v ∈ emitted ++ u :: queue, Ready supply emitted v :=
    fun v hv => (h.ready v).mp hv
  rw [hsplit, Staged, List.pairwise_append]
  refine ⟨?_, ?_, ?_⟩
  · apply List.Pairwise.imp_of_mem _ hstaged
    intro v w hv hw hlt
    rw [(hready v hv).precedence_append, (hready w hw).precedence_append]
    exact hlt
  · apply (pairwise_released supply (emitted ++ [u]) u).imp_of_mem
    intro v w hv hw hlt
    rw [precedence_of_mem_released h.head_notMem hv, precedence_of_mem_released h.head_notMem hw]
    exact Prod.Lex.toLex_lt_toLex.mpr (Or.inr ⟨rfl, hlt⟩)
  · intro v hv w hw
    rw [(hready v hv).precedence_append, precedence_of_mem_released h.head_notMem hw]
    exact Prod.Lex.toLex_lt_toLex.mpr (Or.inl (hready v hv).lastPosition_lt_length)

/-- Before the first turn the sources are queued, in the order of the indices. -/
theorem staged_sources (supply : List (List Nat)) : Staged supply [] (sources supply) := by
  have hnone {v : Nat} (hv : v ∈ sources supply) : supply[v]?.getD [] = [] :=
    List.eq_nil_iff_forall_not_mem.mpr fun u hu =>
      List.not_mem_nil ((mem_sources.mp hv).mem_of_mem u hu)
  apply (pairwise_sources supply).imp_of_mem
  intro v w hv hw hlt
  rw [precedence, precedence, hnone hv, hnone hw]
  exact Prod.Lex.toLex_lt_toLex.mpr (Or.inr ⟨rfl, hlt⟩)

/-- **The turns.** What is emitted stands in the order of its own keys. -/
theorem staged_emit (h : Queued supply queue emitted)
    (hstaged : Staged supply emitted (emitted ++ queue)) :
    Staged supply (emit supply turns queue emitted) (emit supply turns queue emitted) := by
  have hfront : Staged supply emitted emitted :=
    List.Pairwise.sublist (List.sublist_append_left emitted queue) hstaged
  induction turns generalizing queue emitted with
  | zero => exact hfront
  | succ turns ih =>
    cases queue with
    | nil => exact hfront
    | cons u queue =>
      have hturn := h.staged_turn hstaged
      rw [emit]
      exact ih h.turn hturn (List.Pairwise.sublist (List.sublist_append_left _ _) hturn)

end Queue

/-! ## §3 Orders -/

variable {g : Graph} {ps : Producers} {order front rest rest' : List Nat} {u v w n : Nat}

instance (g : Graph) (u v : Nat) : Decidable (g.Feeds u v) :=
  decidable_of_iff
    (g.nodes[u]?.any fun source => g.nodes[v]?.any fun sink =>
      sink.inputs.any fun name => name.isAmong source.outputs)
    (by simp [Feeds, Option.any_eq_true])

/-- The nodes that feed a node. -/
def feeders (g : Graph) (v : Nat) : List Nat :=
  (List.range g.nodes.length).filter fun u => g.Feeds u v

theorem mem_feeders : u ∈ g.feeders v ↔ g.Feeds u v := by
  rw [feeders, List.mem_filter, List.mem_range, decide_eq_true_eq]
  exact and_iff_right_of_imp Feeds.source_lt

/-- Where the last of the nodes that feed a node stands in an order. -/
def lastFeeder (g : Graph) (order : List Nat) (v : Nat) : WithBot Nat :=
  lastPosition order (g.feeders v)

theorem lastFeeder_le_iff :
    g.lastFeeder order u ≤ g.lastFeeder order v ↔
      ∀ w, g.Feeds w u → ∃ w', g.Feeds w' v ∧ order.idxOf w ≤ order.idxOf w' := by
  rw [lastFeeder, lastFeeder, lastPosition_le_lastPosition_iff]
  simp only [mem_feeders]

/-- The nodes stand in the order of their keys: where the last node that feeds them
stands, and their index among those for which that is the same. -/
def IsStaged (g : Graph) (order : List Nat) : Prop :=
  order.Pairwise fun u v => toLex (g.lastFeeder order u, u) < toLex (g.lastFeeder order v, v)

/-- A node in front of another has the lesser key. -/
theorem IsStaged.lt_of_idxOf_lt (h : g.IsStaged order) (hv : v ∈ order)
    (hlt : order.idxOf u < order.idxOf v) :
    toLex (g.lastFeeder order u, u) < toLex (g.lastFeeder order v, v) := by
  have hvlt := List.idxOf_lt_length_of_mem hv
  have hkeys := List.pairwise_iff_getElem.mp h _ _ (hlt.trans hvlt) hvlt hlt
  rwa [List.getElem_idxOf, List.getElem_idxOf] at hkeys

/-- A node in front of another, or the same, is fed no later. -/
theorem IsStaged.lastFeeder_le (h : g.IsStaged order) (hv : v ∈ order)
    (hle : order.idxOf u ≤ order.idxOf v) : g.lastFeeder order u ≤ g.lastFeeder order v := by
  rcases Nat.eq_or_lt_of_le hle with heq | hlt
  · rw [(List.idxOf_inj hv).mp heq.symm]
  · exact (Prod.Lex.toLex_lt_toLex'.mp (h.lt_of_idxOf_lt hv hlt)).1

theorem precedence_supply (hps : g.producers = .ok ps) (order : List Nat) (v : Nat) :
    precedence (g.supply ps) order v = toLex (g.lastFeeder order v, v) := by
  have hsame : ∀ u, u ∈ (g.supply ps)[v]?.getD [] ↔ u ∈ g.feeders v := by
    intro u
    rw [mem_feeders, ← supplies_iff_feeds hps, Supplies]
    cases (g.supply ps)[v]? with
    | none => simp
    | some us => simp
  rw [precedence, lastPosition_congr hsame, lastFeeder]

theorem IsSorted.nodup (h : g.IsSorted order) : order.Nodup :=
  h.perm.nodup_iff.mpr List.nodup_range

theorem IsSorted.mem_iff (h : g.IsSorted order) : v ∈ order ↔ v < g.nodes.length := by
  rw [h.perm.mem_iff, List.mem_range]

/-- Nodes that feed a node of an order stand in front of it. -/
theorem IsSorted.mem_front (h : g.IsSorted (front ++ v :: rest)) (hfeeds : g.Feeds u v) :
    u ∈ front := by
  have hv : v ∉ front := fun hmem =>
    (List.nodup_append'.mp h.nodup).2.2 hmem List.mem_cons_self
  have hlt := h.forward u v hfeeds
  rw [List.idxOf_append_of_notMem hv, List.idxOf_cons_self, Nat.add_zero] at hlt
  by_contra hu
  rw [List.idxOf_append_of_notMem hu] at hlt
  omega

/-- The key of a node depends only on what stands in front of it. -/
theorem lastFeeder_append (h : ∀ u, g.Feeds u v → u ∈ front) (rest : List Nat) :
    g.lastFeeder (front ++ rest) v = lastPosition front (g.feeders v) :=
  lastPosition_append fun u hu => h u (mem_feeders.mp hu)

/-- Orders with a common front that stand in the order of their keys go on alike. By
induction on what is behind the front: if two nodes came next, each of them would be
behind the other in one of the orders, and have the greater key. -/
theorem IsSorted.eq_rest_of_isStaged (h : g.IsSorted (front ++ rest))
    (hs : g.IsStaged (front ++ rest)) (h' : g.IsSorted (front ++ rest'))
    (hs' : g.IsStaged (front ++ rest')) : rest = rest' := by
  have hperm : (front ++ rest).Perm (front ++ rest') := h.perm.trans h'.perm.symm
  rw [List.perm_append_left_iff] at hperm
  induction rest generalizing front rest' with
  | nil => exact (List.nil_perm.mp hperm).symm
  | cons v rest ih =>
    cases rest' with
    | nil => exact List.perm_nil.mp hperm
    | cons v' rest' =>
      have hsame : v = v' := by
        by_contra hne
        have hv : v ∈ rest' :=
          (List.mem_cons.mp (hperm.mem_iff.mp List.mem_cons_self)).resolve_left hne
        have hv' : v' ∈ rest :=
          (List.mem_cons.mp (hperm.mem_iff.mpr List.mem_cons_self)).resolve_left (Ne.symm hne)
        have hlt := (List.pairwise_cons.mp (List.pairwise_append.mp hs).2.1).1 v' hv'
        have hlt' := (List.pairwise_cons.mp (List.pairwise_append.mp hs').2.1).1 v hv
        rw [lastFeeder_append fun u => h.mem_front,
          lastFeeder_append fun u => h'.mem_front] at hlt hlt'
        exact lt_asymm hlt hlt'
      subst hsame
      rw [List.append_cons] at h hs h' hs'
      rw [ih h hs h' hs' hperm.cons_inv]

/-- **One order.** Orders of the nodes that stand in the order of their keys are the
same. -/
theorem IsSorted.eq_of_isStaged {order' : List Nat} (h : g.IsSorted order)
    (hs : g.IsStaged order) (h' : g.IsSorted order') (hs' : g.IsStaged order') :
    order = order' := by
  have hfront : g.IsSorted ([] ++ order) := h
  exact hfront.eq_rest_of_isStaged hs h' hs'

/-! ## §4 Depth -/

/-- A chain of `n` links ends in node `v`: nodes of which each feeds the next. -/
inductive Chain (g : Graph) : Nat → Nat → Prop
  | none (v : Nat) : Chain g 0 v
  | link {n u v : Nat} (front : Chain g n u) (feeds : g.Feeds u v) : Chain g (n + 1) v

/-- The longest chain that ends in node `v` has `n` links. -/
def IsDepth (g : Graph) (v n : Nat) : Prop := IsGreatest {n | g.Chain n v} n

/-- Positions grow along a chain. -/
theorem Chain.le_idxOf (h : g.Chain n v) (hsorted : g.IsSorted order) : n ≤ order.idxOf v := by
  induction h with
  | none v => exact Nat.zero_le _
  | link _ hfeeds ih =>
    have hlt := hsorted.forward _ _ hfeeds
    omega

/-- If the nodes have an order, every node has a depth. -/
theorem IsSorted.exists_isDepth (h : g.IsSorted order) (v : Nat) : ∃ n, g.IsDepth v n := by
  have hbound : BddAbove {n | g.Chain n v} := ⟨order.idxOf v, fun n hn => hn.le_idxOf h⟩
  exact hbound.exists_isGreatest_of_nonempty ⟨0, Chain.none v⟩

/-- **Chains.** In the order of the keys, a chain up to a node can be matched by one
up to any node behind it. By induction on the chain: what feeds the first node last
does not stand behind what feeds the second node last. -/
theorem Chain.of_le (h : g.Chain n u) (hsorted : g.IsSorted order) (hstaged : g.IsStaged order)
    (hv : v ∈ order) (hle : order.idxOf u ≤ order.idxOf v) : g.Chain n v := by
  induction h generalizing v with
  | none u => exact .none v
  | @link n w u _ hfeeds ih =>
    obtain ⟨w', hfeeds', hlast⟩ := lastFeeder_le_iff.mp (hstaged.lastFeeder_le hv hle) w hfeeds
    exact .link (ih (hsorted.mem_iff.mpr hfeeds'.source_lt) hlast) hfeeds'

/-! ## §5 Sorting -/

/-- What the queue emits when it has gone through all nodes stands in the order of
the keys. -/
theorem isStaged_of_orderFrom (hps : g.producers = .ok ps) (h : g.orderFrom ps = .ok order) :
    g.IsStaged order := by
  have hemit : order = emit (g.supply ps) g.nodes.length (sources (g.supply ps)) [] := by
    unfold orderFrom at h
    dsimp only at h
    split at h
    · exact (Except.ok.inj h).symm
    · cases h
  have hstaged : Staged (g.supply ps) order order := by
    rw [hemit]
    exact staged_emit (queued_sources _) (staged_sources _)
  simpa only [Staged, IsStaged, precedence_supply hps] using hstaged

/-- **The order of a graph.** Sorting answers an order if no value is output twice, and
it is the one order of the nodes that stands in the order of its keys. -/
theorem order_eq_ok_iff :
    g.order = .ok order ↔
      Name.Distinct (allOutputs g.nodes) ∧ g.IsSorted order ∧ g.IsStaged order := by
  rw [Graph.order, bind_eq_ok_iff]
  constructor
  · rintro ⟨ps, hps, horder⟩
    obtain ⟨hemitted, hlen⟩ := emitted_of_orderFrom horder
    exact ⟨(producers_eq_ok_iff.mp hps).1, isSorted_of_emitted hps hemitted hlen,
      isStaged_of_orderFrom hps horder⟩
  · rintro ⟨hd, hsorted, hstaged⟩
    have hps : g.producers = .ok (produced 0 g.nodes) := producers_eq_ok_iff.mpr ⟨hd, rfl⟩
    obtain ⟨order', _, ⟨hsorted', horder'⟩ | ⟨hcyclic, _⟩⟩ := orderFrom_cases hps
    · have hsame : order = order' := hsorted.eq_of_isStaged hstaged hsorted'
        (isStaged_of_orderFrom hps horder')
      exact ⟨_, hps, hsame ▸ horder'⟩
    · exact absurd hcyclic hsorted.not_cyclic

/-- Where no value is output twice and no node feeds itself, there is an order. -/
theorem exists_order (hd : Name.Distinct (allOutputs g.nodes)) (hacyclic : ¬ g.Cyclic) :
    ∃ order, g.order = .ok order := by
  have hps : g.producers = .ok (produced 0 g.nodes) := producers_eq_ok_iff.mpr ⟨hd, rfl⟩
  obtain ⟨order, _, ⟨_, horder⟩ | ⟨hcyclic, _⟩⟩ := orderFrom_cases hps
  · exact ⟨order, bind_eq_ok_iff.mpr ⟨_, hps, horder⟩⟩
  · exact absurd hcyclic hacyclic

/-- The nodes are answered in the order of their indices. -/
theorem toposort_of_order (h : g.order = .ok order) :
    g.toposort = .ok (order.filterMap (g.nodes[·]?)) := by
  rw [toposort, h]
  rfl

/-- Of two nodes that are fed as late as each other, the one that is listed first stands
in front. -/
theorem IsSorted.idxOf_lt_of_lastFeeder_eq (h : g.IsSorted order) (hstaged : g.IsStaged order)
    (hlt : u < v) (hv : v < g.nodes.length) (heq : g.lastFeeder order u = g.lastFeeder order v) :
    order.idxOf u < order.idxOf v := by
  by_contra hle
  have hne : order.idxOf v ≠ order.idxOf u := fun hsame =>
    Nat.ne_of_gt hlt ((List.idxOf_inj (h.mem_iff.mpr hv)).mp hsame)
  have hbehind : order.idxOf v < order.idxOf u := by omega
  have hkeys := hstaged.lt_of_idxOf_lt (h.mem_iff.mpr (hlt.trans hv)) hbehind
  rw [heq, Prod.Lex.toLex_lt_toLex'] at hkeys
  exact Nat.lt_asymm hlt (hkeys.2 rfl)

end Graph

/-- A unary step. -/
def Node.step (source sink : String) : Node where
  op := .text "aten::relu"
  inputs := [.text source]
  outputs := [.text sink]

/-- A sum. -/
def Node.join (left right sink : String) : Node where
  op := .text "aten::add"
  inputs := [.text left, .text right]
  outputs := [.text sink]

/-- Five nodes: the second is listed in front of what feeds it, the fourth has no one
to wait for, and the fifth consumes one value twice. -/
def Graph.staggered : Graph where
  nodes := [.step "x" "a", .join "b" "c" "d", .step "a" "b", .step "x" "c", .join "a" "a" "e"]
  inputs := [.text "x"]

namespace Graph

variable {g : Graph} {order : List Nat} {u v w n : Nat}

/-- **Which node goes first.** Where no value is output twice and no node feeds itself,
the order that sorting answers is strictly increasing in the position of the last node
that feeds a node, then the index of the node, and it is the only order of the nodes
that increases in its own keys. So nodes that are fed as late as each other keep the
order in which they are listed, and no node stands in front of one of lesser depth. -/
theorem toposort_stages (hd : Name.Distinct (allOutputs g.nodes)) (hacyclic : ¬ g.Cyclic) :
    ∃ order, g.order = .ok order ∧ g.toposort = .ok (order.filterMap (g.nodes[·]?)) ∧
      g.IsSorted order ∧ g.IsStaged order ∧
      (∀ order', g.IsSorted order' → g.IsStaged order' → order' = order) ∧
      (∀ u v, u < v → v < g.nodes.length → g.lastFeeder order u = g.lastFeeder order v →
        order.idxOf u < order.idxOf v) ∧
      (∀ v, ∃ n, g.IsDepth v n) ∧
      order.Pairwise fun u v => ∀ m n, g.IsDepth u m → g.IsDepth v n → m ≤ n := by
  obtain ⟨order, horder⟩ := exists_order hd hacyclic
  obtain ⟨_, hsorted, hstaged⟩ := order_eq_ok_iff.mp horder
  refine ⟨order, horder, toposort_of_order horder, hsorted, hstaged, ?_, ?_, ?_, ?_⟩
  · intro order' hsorted' hstaged'
    exact hsorted'.eq_of_isStaged hstaged' hsorted hstaged
  · intro u v hlt hv heq
    exact hsorted.idxOf_lt_of_lastFeeder_eq hstaged hlt hv heq
  · exact hsorted.exists_isDepth
  · rw [List.pairwise_iff_getElem]
    intro i j hi hj hij m n hm hn
    have hle : order.idxOf order[i] ≤ order.idxOf order[j] := by
      rw [hsorted.nodup.idxOf_getElem i hi, hsorted.nodup.idxOf_getElem j hj]
      exact Nat.le_of_lt hij
    exact hn.2 (hm.1.of_le hsorted hstaged (List.getElem_mem hj) hle)

/-- The fourth node comes in front of those that wait for the first, and the second,
which waits for the third, comes last. -/
theorem toposort_staggered :
    Name.Distinct (allOutputs staggered.nodes) ∧ ¬ staggered.Cyclic ∧
      staggered.order = .ok [0, 3, 2, 4, 1] ∧ staggered.IsStaged [0, 3, 2, 4, 1] := by
  have h : staggered.order = .ok [0, 3, 2, 4, 1] := eq_ok_of_toOption (by decide +kernel)
  obtain ⟨hd, hsorted, _⟩ := order_eq_ok_iff.mp h
  obtain ⟨order, horder, _, _, hstaged, _⟩ := toposort_stages hd hsorted.not_cyclic
  rw [h] at horder
  cases horder
  exact ⟨hd, hsorted.not_cyclic, h, hstaged⟩

/-! ## §6 Listed graphs -/

theorem idxOf_range (h : u < n) : (List.range n).idxOf u = u := by
  have hu : u < (List.range n).length := by rwa [List.length_range]
  have hplace := List.nodup_range.idxOf_getElem u hu
  rwa [List.getElem_range] at hplace

/-- No node is fed later than a node that is listed behind it. -/
def FedInTurn (g : Graph) : Prop :=
  ∀ u v w, u < v → v < g.nodes.length → g.Feeds w u → ∃ w', g.Feeds w' v ∧ w ≤ w'

/-- The nodes are an order as they are listed if each is listed behind those that feed it. -/
theorem isSorted_range_iff :
    g.IsSorted (List.range g.nodes.length) ↔ ∀ u v, g.Feeds u v → u < v := by
  have hplace {u v : Nat} (h : g.Feeds u v) :
      (List.range g.nodes.length).idxOf u < (List.range g.nodes.length).idxOf v ↔ u < v := by
    rw [idxOf_range h.source_lt, idxOf_range h.sink_lt]
  constructor
  · intro h u v hfeeds
    exact (hplace hfeeds).mp (h.forward u v hfeeds)
  · intro h
    exact ⟨List.Perm.refl _, fun u v hfeeds => (hplace hfeeds).mpr (h u v hfeeds)⟩

/-- They stand in the order of the keys if they are fed in turn. -/
theorem isStaged_range_iff : g.IsStaged (List.range g.nodes.length) ↔ g.FedInTurn := by
  have hle {u v : Nat} : g.lastFeeder (List.range g.nodes.length) u
      ≤ g.lastFeeder (List.range g.nodes.length) v ↔
        ∀ w, g.Feeds w u → ∃ w', g.Feeds w' v ∧ w ≤ w' := by
    rw [lastFeeder_le_iff]
    refine forall₂_congr fun w hw => exists_congr fun w' => and_congr_right fun hw' => ?_
    rw [idxOf_range hw.source_lt, idxOf_range hw'.source_lt]
  constructor
  · intro h u v w hlt hv hfeeds
    have hbefore : (List.range g.nodes.length).idxOf u ≤ (List.range g.nodes.length).idxOf v := by
      rw [idxOf_range (hlt.trans hv), idxOf_range hv]
      exact Nat.le_of_lt hlt
    exact hle.mp (h.lastFeeder_le (List.mem_range.mpr hv) hbefore) w hfeeds
  · intro h
    apply List.Pairwise.imp_of_mem _ List.pairwise_lt_range
    intro u v _ hv hlt
    rw [List.mem_range] at hv
    exact Prod.Lex.toLex_lt_toLex'.mpr ⟨hle.mpr fun w => h u v w hlt hv, fun _ => hlt⟩

/-- Nodes in a row are fed as they are in the graph. -/
theorem feeds_iff_of_map_eq {nodes : List Node} (h : order.map (g.nodes[·]?) = nodes.map some)
    {i j : Nat} (hu : order[i]? = some u) (hv : order[j]? = some v) :
    Feeds { g with nodes } i j ↔ g.Feeds u v := by
  unfold Feeds
  rw [getElem?_of_map_eq h hu, getElem?_of_map_eq h hv]

/-- Nodes in an order of theirs are listed behind what feeds them, and fed in turn. -/
theorem IsSorted.listed {nodes : List Node} (h : g.IsSorted order) (hstaged : g.IsStaged order)
    (hmap : order.map (g.nodes[·]?) = nodes.map some) :
    (∀ i j, Feeds { g with nodes } i j → i < j) ∧ FedInTurn { g with nodes } := by
  have hlen : nodes.length = order.length := (length_eq_of_map_eq hmap).symm
  -- A node of the row is a node of the graph, and its place in the order is its place here.
  have hget {i : Nat} (hi : i < nodes.length) :
      ∃ u ∈ order, order[i]? = some u ∧ order.idxOf u = i := by
    rw [hlen] at hi
    exact ⟨order[i], List.getElem_mem hi, List.getElem?_eq_getElem hi, h.nodup.idxOf_getElem i hi⟩
  constructor
  · intro i j hfeeds
    obtain ⟨u, _, hu, rfl⟩ := hget hfeeds.source_lt
    obtain ⟨v, _, hv, rfl⟩ := hget hfeeds.sink_lt
    exact h.forward u v ((feeds_iff_of_map_eq hmap hu hv).mp hfeeds)
  · intro i j k hij hj hfeeds
    obtain ⟨u, _, hu, rfl⟩ := hget (hij.trans hj)
    obtain ⟨v, hvmem, hv, rfl⟩ := hget hj
    obtain ⟨w, _, hw, rfl⟩ := hget hfeeds.source_lt
    have hlast := hstaged.lastFeeder_le hvmem (Nat.le_of_lt hij)
    obtain ⟨w', hfeeds', hle⟩ := lastFeeder_le_iff.mp hlast w
      ((feeds_iff_of_map_eq hmap hw hu).mp hfeeds)
    have hw' := List.getElem?_idxOf (h.mem_iff.mpr hfeeds'.source_lt)
    exact ⟨order.idxOf w', (feeds_iff_of_map_eq hmap hw' hv).mpr hfeeds', hle⟩

/-- Indices of nodes pick as many nodes, in the same order. -/
theorem IsSorted.map_getElem? (h : g.IsSorted order) :
    order.map (g.nodes[·]?) = (order.filterMap (g.nodes[·]?)).map some := by
  have hsome : ∀ v ∈ order, ∃ node, g.nodes[v]? = some node := by
    intro v hv
    exact ⟨_, List.getElem?_eq_getElem (h.mem_iff.mp hv)⟩
  clear h
  induction order with
  | nil => rfl
  | cons v rest ih =>
    rw [List.forall_mem_cons] at hsome
    obtain ⟨node, hnode⟩ := hsome.1
    rw [List.map_cons, List.filterMap_cons_some hnode, List.map_cons, ih hsome.2, hnode]

/-- The order of the nodes is the one in which they are listed. -/
theorem order_eq_range_iff :
    g.order = .ok (List.range g.nodes.length) ↔
      Name.Distinct (allOutputs g.nodes) ∧ (∀ u v, g.Feeds u v → u < v) ∧ g.FedInTurn := by
  rw [order_eq_ok_iff, isSorted_range_iff, isStaged_range_iff]

theorem toposort_of_order_range (h : g.order = .ok (List.range g.nodes.length)) :
    g.toposort = .ok g.nodes := by
  rw [toposort_of_order h, filterMap_getElem?_range]

/-- **Listed graphs.** Sorting answers the nodes in the order in which they are listed
exactly if no value is output twice, every node is listed behind those that feed it and
no node is fed later than a node that is listed behind it. The nodes that sorting
answers are so listed, so sorting them again changes nothing. -/
theorem order_listed_iff (g : Graph) :
    (g.order = .ok (List.range g.nodes.length) ↔
      Name.Distinct (allOutputs g.nodes) ∧ (∀ u v, g.Feeds u v → u < v) ∧ g.FedInTurn) ∧
    (g.order = .ok (List.range g.nodes.length) → g.toposort = .ok g.nodes) ∧
    ∀ nodes, g.toposort = .ok nodes → toposort { g with nodes } = .ok nodes := by
  refine ⟨order_eq_range_iff, toposort_of_order_range, fun nodes h => ?_⟩
  obtain ⟨ps, order, hps, horder, rfl⟩ := toposort_eq_ok_iff.mp h
  obtain ⟨hd, hsorted, hstaged⟩ := order_eq_ok_iff.mp (bind_eq_ok_iff.mpr ⟨ps, hps, horder⟩)
  obtain ⟨hforward, hturn⟩ := hsorted.listed hstaged hsorted.map_getElem?
  have hd' : Name.Distinct (allOutputs (order.filterMap (g.nodes[·]?))) :=
    hd.perm ((perm_of_toposort h).flatMap_right _).symm
  exact toposort_of_order_range (order_eq_range_iff.mpr ⟨hd', hforward, hturn⟩)

/-- Three nodes, each listed behind what feeds it. The last has no one to wait for. -/
def trailing : Graph where
  nodes := [.step "x" "a", .step "a" "b", .step "x" "c"]
  inputs := [.text "x"]

/-- Listed behind what feeds it, a node may still be overtaken: the last node does not
wait for the first, and the second does. -/
theorem toposort_trailing :
    Name.Distinct (allOutputs trailing.nodes) ∧ (∀ u v, trailing.Feeds u v → u < v) ∧
      trailing.nodes = [.step "x" "a", .step "a" "b", .step "x" "c"] ∧
      trailing.toposort = .ok [.step "x" "a", .step "x" "c", .step "a" "b"] ∧
      trailing.toposort ≠ .ok trailing.nodes := by
  have horder : trailing.order = .ok [0, 2, 1] := eq_ok_of_toOption (by decide +kernel)
  have hsorted := toposort_of_order horder
  have hforward : ∀ u < 3, ∀ v < 3, trailing.Feeds u v → u < v := by decide +kernel
  refine ⟨(order_eq_ok_iff.mp horder).1, ?_, rfl, hsorted, ?_⟩
  · intro u v hfeeds
    exact hforward u hfeeds.source_lt v hfeeds.sink_lt hfeeds
  · rw [hsorted]
    intro hlisted
    have houtputs := congrArg allOutputs (Except.ok.inj hlisted)
    exact absurd houtputs (by decide +kernel)

end Graph

end GraphShapes
