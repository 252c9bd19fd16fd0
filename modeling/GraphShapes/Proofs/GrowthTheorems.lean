/-
GraphShapes.Proofs.GrowthTheorems — a store only grows.

A step that writes to a store may stop half way, and what it leaves then is
neither the store before it nor the one it was to make. But it is a store that
the one before `Grows` into: the old entries stay in front, as they were and in
order, and no name has two entries if none had. Growing is reflexive and
transitive, so it is enough to look at the writing of one entry (`grows_write`);
everything that an engine does to its store is a sequence of such writes.

  §1 Growing — the relation, and steps in sequence.
  §2 Steps   — writing, binding, one node, nodes, and the walk as a whole.
-/
import GraphShapes.Proofs.WalkTheorems

namespace GraphShapes

namespace Store

variable {s t u : Store} {name : Name} {m : Meta}

/-! ## §1 Growing -/

/-- The store `t` is `s` with entries behind it, none of them under a name in
use. -/
structure Grows (s t : Store) : Prop where
  kept : s <+: t
  distinct : Name.Distinct s.names → Name.Distinct t.names

theorem Grows.refl (s : Store) : s.Grows s := ⟨List.prefix_refl s, id⟩

theorem Grows.trans (hst : s.Grows t) (htu : t.Grows u) : s.Grows u :=
  ⟨hst.kept.trans htu.kept, fun hs => htu.distinct (hst.distinct hs)⟩

/-- A store grows through two steps, also if the first one stops. -/
theorem Grows.andThen {p : Progress} {next : Store → Progress} (hp : s.Grows p.store)
    (hnext : p.store.Grows (next p.store).store) : s.Grows (p.andThen next).store := by
  cases h : p.fault with
  | some f => rwa [Progress.andThen_of_fault h]
  | none =>
    rw [Progress.store_andThen h]
    exact hp.trans hnext

/-- What is found before a store grows is found afterwards. -/
theorem Grows.lookup? (h : s.Grows t) (hname : GraphShapes.lookup? s name = some m) :
    GraphShapes.lookup? t name = some m := by
  obtain ⟨entries, rfl⟩ := h.kept
  exact lookup?_append_of_some hname

/-! ## §2 Steps -/

theorem grows_write (lead : String) (s : Store) (name : Name) (m : Meta) :
    s.Grows (write lead s name m).store := by
  unfold write
  split
  · split
    · exact Grows.refl s
    · next hfresh =>
      exact ⟨List.prefix_append s _, fun hs => distinct_append_singleton.mpr ⟨hs, hfresh⟩⟩
  · exact Grows.refl s

theorem grows_writeAll (lead : String) (s : Store) (entries : List (Name × Meta)) :
    s.Grows (writeAll lead s entries).store := by
  induction entries generalizing s with
  | nil => exact Grows.refl s
  | cons entry rest ih =>
    obtain ⟨name, m⟩ := entry
    rw [writeAll]
    exact (grows_write lead s name m).andThen (ih _)

end Store

namespace Graph

theorem grows_bindEach (s : Store) (entries : List (Name × Datum)) :
    s.Grows (bindEach s entries).store := by
  induction entries generalizing s with
  | nil => exact Store.Grows.refl s
  | cons entry rest ih =>
    obtain ⟨name, d⟩ := entry
    rw [bindEach]
    split
    · exact Store.Grows.refl s
    · next m _ => exact (Store.grows_write "bind " s name m).andThen (ih _)

theorem grows_bindInputs (g : Graph) (inputs : List Datum) (s : Store) :
    s.Grows (g.bindInputs inputs s).store := by
  unfold bindInputs
  split
  · exact grows_bindEach s _
  · exact Store.Grows.refl s

theorem grows_inferNode (g : Graph) (config : Config) (s : Store) (node : Node) :
    s.Grows (g.inferNode config s node).store := by
  unfold inferNode
  split
  · exact Store.Grows.refl s
  · next op results _ =>
    dsimp only [writeResults]
    split
    · exact Store.grows_writeAll _ s _
    · exact Store.Grows.refl s

theorem grows_inferNodes (g : Graph) (config : Config) (s : Store) (nodes : List Node) :
    s.Grows (g.inferNodes config s nodes).store := by
  induction nodes generalizing s with
  | nil => exact Store.Grows.refl s
  | cons node rest ih =>
    rw [inferNodes]
    exact (grows_inferNode g config s node).andThen (ih _)

/-- **Walks.** No name has two entries in what a walk leaves, wherever it stops. -/
theorem distinct_walk (g : Graph) (config : Config) (inputs : List Datum) :
    Name.Distinct (g.walk config inputs).store.names := by
  have hgrows : Store.Grows [] (g.walk config inputs).store :=
    (grows_bindInputs g inputs []).andThen (grows_inferNodes g config _ g.nodes)
  exact hgrows.distinct Name.distinct_nil

end Graph

end GraphShapes
