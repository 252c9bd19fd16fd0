/-
GraphShapes.Proofs.ReorderTheorems — axes in another order, and in the first one again.

A list of axes that is taken looks up a size for each of its members (`permute_eq_reorder`),
and nothing but the rank decides whether it is taken (`AreAxes`). A list of axes is a list of
integers like a shape, so its members can be looked up by other axes in the same way. That is
how one reordering after another becomes one: axes of the second are looked up in the first
(`reorder_reorder`), not the other way round. Each axis of a list without repetition has one
place in it; the list of these places (`places`) looks up all axes in order, so it leads back
to the shape (`reorder_places`).

  §1 Reading     — reordered shapes, and which lists of axes are taken.
  §2 Composition — one order after another.
  §3 Inverses    — back to the first order.
-/
import GraphShapes.Proofs.PermutationTheorems

namespace GraphShapes.Shape

variable {shape : Shape} {axes p q p' : List Int} {rank : Nat}

/-! ## §1 Reading -/

/-- The entries of a list in the places that axes name, in the order of the axes. -/
def reorder (shape : Shape) (axes : List Int) : Shape :=
  axes.map fun axis => shape.getD axis.toNat 0

@[simp] theorem length_reorder (shape : Shape) (axes : List Int) :
    (reorder shape axes).length = axes.length := by
  simp [reorder]

/-- Axes for a rank: as many as it says, and each of them below it. -/
structure AreAxes (rank : Nat) (axes : List Int) : Prop where
  length_eq : axes.length = rank
  subset : axes ⊆ allAxes rank

theorem permute_eq_reorder (h : AreAxes shape.length axes) :
    permute shape axes = .ok (reorder shape axes) :=
  permute_eq_ok_iff_map.mpr ⟨h.length_eq, h.subset, rfl⟩

/-- Axes are taken when they are axes for the rank. -/
theorem exists_permute_iff : (∃ out, permute shape axes = .ok out) ↔ AreAxes shape.length axes := by
  constructor
  · rintro ⟨out, hout⟩
    obtain ⟨hlength, hsubset, _⟩ := permute_eq_ok_iff_map.mp hout
    exact ⟨hlength, hsubset⟩
  · intro h
    exact ⟨_, permute_eq_reorder h⟩

/-- All axes in order look up the shape itself. -/
theorem reorder_allAxes (hlength : shape.length = rank) : reorder shape (allAxes rank) = shape := by
  rw [← hlength]
  exact map_getD_allAxes shape

/-! ## §2 Composition -/

/-- **Composition.** What a second list of axes finds in a reordered shape, the axes that it
finds in the first list find in the shape. -/
theorem reorder_reorder (hq : q ⊆ allAxes p.length) (shape : Shape) :
    reorder (reorder shape p) q = reorder shape (reorder p q) := by
  unfold reorder
  rw [List.map_map]
  apply List.map_congr_left
  intro j hj
  obtain ⟨hnonneg, hlt⟩ := mem_allAxes.mp (hq hj)
  have hplace : j.toNat < p.length := by omega
  simp [hplace]

theorem AreAxes.reorder (hp : AreAxes rank p) (hq : AreAxes rank q) :
    AreAxes rank (reorder p q) := by
  refine ⟨by rw [length_reorder, hq.length_eq], ?_⟩
  intro axis haxis
  obtain ⟨j, hj, rfl⟩ := List.mem_map.mp haxis
  obtain ⟨hnonneg, hlt⟩ := mem_allAxes.mp (hq.subset hj)
  have hplace : j.toNat < p.length := by
    rw [hp.length_eq]
    omega
  apply hp.subset
  simp [hplace]

/-- One order after another is a single one, looked up in the first by the second. -/
theorem permute_reorder (hp : AreAxes shape.length p) (hq : AreAxes shape.length q) :
    (do permute (← permute shape p) q) = permute shape (reorder p q) := by
  have hrank : (reorder shape p).length = shape.length := by rw [length_reorder, hp.length_eq]
  rw [permute_eq_reorder hp, ok_bind, permute_eq_reorder (hrank.symm ▸ hq),
    permute_eq_reorder (hp.reorder hq), reorder_reorder (hp.length_eq.symm ▸ hq.subset)]

/-! ## §3 Inverses -/

/-- Axes that lead back: as many, with the place of each axis of the list in the place that
this axis names. -/
structure IsInverse (p p' : List Int) : Prop where
  length_eq : p'.length = p.length
  place : ∀ (i : Nat) (axis : Int), p[i]? = some axis → p'[axis.toNat]? = some (i : Int)

/-- The place of every axis in a list of axes. -/
def places (p : List Int) : List Int := (allAxes p.length).map fun axis => (p.idxOf axis : Int)

@[simp] theorem length_places (p : List Int) : (places p).length = p.length := by simp [places]

/-- Axes without repetition are all axes, so each of them has a place. -/
theorem AreAxes.mem_iff (hp : AreAxes rank p) (hnodup : p.Nodup) {axis : Int} :
    axis ∈ p ↔ axis ∈ allAxes rank :=
  ((perm_allAxes_iff hp.length_eq hp.subset).mpr hnodup).mem_iff

theorem getElem?_places {i : Nat} (hi : i < p.length) :
    (places p)[i]? = some (p.idxOf (i : Int) : Int) := by
  simp [places, allAxes, hi]

/-- The places lead back, and no other axes do. -/
theorem isInverse_iff (hp : AreAxes rank p) (hnodup : p.Nodup) :
    IsInverse p p' ↔ p' = places p := by
  constructor
  · rintro ⟨hlength, hplace⟩
    apply List.ext_getElem?
    intro j
    by_cases hj : j < p.length
    · have hmem : (j : Int) ∈ p := (hp.mem_iff hnodup).mpr (mem_allAxes.mpr (by
        rw [← hp.length_eq]
        omega))
      rw [getElem?_places hj]
      exact hplace _ _ (List.getElem?_idxOf hmem)
    · rw [List.getElem?_eq_none (by omega), List.getElem?_eq_none (by rw [length_places]; omega)]
  · rintro rfl
    refine ⟨length_places p, ?_⟩
    intro i axis hi
    obtain ⟨hlt, rfl⟩ := List.getElem?_eq_some_iff.mp hi
    obtain ⟨hnonneg, hrank⟩ := mem_allAxes.mp (hp.subset (List.getElem_mem hlt))
    have hplace : (p[i].toNat : Int) = p[i] := Int.toNat_of_nonneg hnonneg
    rw [getElem?_places (by rw [hp.length_eq]; omega), hplace, hnodup.idxOf_getElem]

theorem AreAxes.places (hp : AreAxes rank p) (hnodup : p.Nodup) : AreAxes rank (places p) := by
  refine ⟨by rw [length_places, hp.length_eq], ?_⟩
  intro place hplace
  obtain ⟨axis, haxis, rfl⟩ := List.mem_map.mp hplace
  rw [hp.length_eq, ← hp.mem_iff hnodup] at haxis
  have hlt : p.idxOf axis < p.length := List.idxOf_lt_length_of_mem haxis
  rw [hp.length_eq] at hlt
  exact mem_allAxes.mpr (by omega)

/-- Looked up in their places, the axes are all in order. -/
theorem reorder_places (hp : AreAxes rank p) (hnodup : p.Nodup) :
    reorder p (places p) = allAxes rank := by
  unfold reorder places
  rw [List.map_map, hp.length_eq]
  refine (List.map_congr_left fun axis haxis => ?_).trans (List.map_id _)
  have hmem : axis ∈ p := (hp.mem_iff hnodup).mpr haxis
  simp [List.getElem?_idxOf hmem]

/-- **Back again.** Under the places of the axes, a reordered shape is the shape. -/
theorem permute_places (hp : AreAxes shape.length p) (hnodup : p.Nodup) :
    (do permute (← permute shape p) (places p)) = .ok shape := by
  have hback := hp.places hnodup
  rw [permute_reorder hp hback, permute_eq_reorder (hp.reorder hback), reorder_places hp hnodup,
    reorder_allAxes rfl]

/-- **Orders compose and cancel.** Two lists of axes that are taken for a shape, one after
the other, come to the axes that the second finds in the first, and these are taken too. If
the first has no repetition, there is just one list with the places of its axes; it is taken
and leads back to the shape. -/
theorem permute_permute (shape : Shape) (p q : List Int)
    (hp : ∃ out, permute shape p = .ok out) (hq : ∃ out, permute shape q = .ok out) :
    (∃ out, permute shape (q.map fun j => p.getD j.toNat 0) = .ok out) ∧
    (do permute (← permute shape p) q) = permute shape (q.map fun j => p.getD j.toNat 0) ∧
    (p.Nodup → ∃ p', (∀ other, IsInverse p other ↔ other = p') ∧
      (∃ out, permute shape p' = .ok out) ∧ (do permute (← permute shape p) p') = .ok shape) := by
  rw [exists_permute_iff] at hp hq
  refine ⟨exists_permute_iff.mpr (hp.reorder hq), permute_reorder hp hq, ?_⟩
  intro hnodup
  refine ⟨places p, ?_, exists_permute_iff.mpr (hp.places hnodup), permute_places hp hnodup⟩
  intro other
  exact isInverse_iff hp hnodup

/-- The last axis first, then the last two exchanged: the order of all three is turned round.
The first step is undone by a list of axes that is not its own. -/
theorem permute_permute_three :
    permute [2, 3, 4] [2, 0, 1] = .ok [4, 2, 3] ∧ permute [2, 3, 4] [0, 2, 1] = .ok [2, 4, 3] ∧
      ([2, 0, 1] : List Int).Nodup ∧
      (do permute (← permute [2, 3, 4] [2, 0, 1]) [0, 2, 1]) = permute [2, 3, 4] [2, 1, 0] ∧
      ∃ p', (∀ other, IsInverse [2, 0, 1] other ↔ other = p') ∧ p' = [1, 2, 0] ∧
        (do permute (← permute [2, 3, 4] [2, 0, 1]) p') = .ok [2, 3, 4] := by
  have haxes : AreAxes 3 [2, 0, 1] := ⟨rfl, by decide⟩
  have hnodup : ([2, 0, 1] : List Int).Nodup := by decide
  obtain ⟨_, hcomposed, hback⟩ :=
    permute_permute [2, 3, 4] [2, 0, 1] [0, 2, 1] ⟨[4, 2, 3], rfl⟩ ⟨[2, 4, 3], rfl⟩
  obtain ⟨p', hinverse, _, hshape⟩ := hback hnodup
  have hplaces : p' = places [2, 0, 1] :=
    ((hinverse _).mp ((isInverse_iff haxes hnodup).mpr rfl)).symm
  exact ⟨rfl, rfl, hnodup, hcomposed, p', hinverse, hplaces, hshape⟩

end GraphShapes.Shape
