/-
GraphShapes.Proofs.PermutationTheorems — what reordering the axes keeps.

A list of axes is checked axis by axis: there are as many as the shape has, and each is
one of them. Whether one comes twice is not looked at. If none does, all are named
(`perm_allAxes_iff`), and the result is the shape rearranged (`perm_of_permute`).
Otherwise one is left out by counting (`exists_notMem_of_not_nodup`). Its size is never
looked up (`permute_set_of_notMem`), so whatever it is, the result is the same.

  §1 Axes    — the axes of a shape as a list, and other lists of as many axes.
  §2 Reading — a permuted shape as sizes that are looked up.
  §3 Sizes   — what is kept, and what is lost.
-/
import GraphShapes.Proofs.ShapeTheorems
import Mathlib.Algebra.BigOperators.Group.List.Basic
import Mathlib.Data.List.Nodup

namespace GraphShapes.Shape

variable {shape out : Shape} {axes : List Int} {rank : Nat}

/-! ## §1 Axes -/

/-- The axes of a shape with so many of them, in order. -/
def allAxes (rank : Nat) : List Int := (List.range rank).map Int.ofNat

theorem mem_allAxes {axis : Int} : axis ∈ allAxes rank ↔ 0 ≤ axis ∧ axis < rank := by
  unfold allAxes
  simp only [List.mem_map, List.mem_range]
  constructor
  · rintro ⟨i, hi, rfl⟩
    exact ⟨Int.natCast_nonneg i, Int.ofNat_lt.mpr hi⟩
  · rintro ⟨hnonneg, hlt⟩
    exact ⟨axis.toNat, by omega, Int.toNat_of_nonneg hnonneg⟩

@[simp] theorem length_allAxes (rank : Nat) : (allAxes rank).length = rank := by simp [allAxes]

theorem nodup_allAxes (rank : Nat) : (allAxes rank).Nodup :=
  List.nodup_range.map fun _ _ h => Int.ofNat.inj h

/-- As many axes as there are, none of them twice, are all of them. -/
theorem perm_allAxes_iff (hlength : axes.length = rank) (hsubset : axes ⊆ allAxes rank) :
    axes.Perm (allAxes rank) ↔ axes.Nodup := by
  constructor
  · intro hperm
    exact hperm.nodup_iff.mpr (nodup_allAxes rank)
  · intro hnodup
    exact (List.subperm_of_subset hnodup hsubset).perm_of_length_le (by simp [hlength])

/-- As many axes as there are, one of them twice, leave one out. -/
theorem exists_notMem_of_not_nodup (hlength : axes.length = rank) (h : ¬ axes.Nodup) :
    ∃ i < rank, (i : Int) ∉ axes := by
  by_contra hall
  push Not at hall
  have hsubset : allAxes rank ⊆ axes := by
    intro axis haxis
    obtain ⟨hnonneg, hlt⟩ := mem_allAxes.mp haxis
    simpa [Int.toNat_of_nonneg hnonneg] using hall axis.toNat (by omega)
  have hperm : (allAxes rank).Perm axes :=
    (List.subperm_of_subset (nodup_allAxes rank) hsubset).perm_of_length_le (by simp [hlength])
  exact h (hperm.nodup_iff.mp (nodup_allAxes rank))

/-! ## §2 Reading -/

/-- A list of as many axes as the shape has is taken when each is one of them, and the
size of each is looked up. -/
theorem permute_eq_ok_iff_map :
    permute shape axes = .ok out ↔
      axes.length = shape.length ∧ axes ⊆ allAxes shape.length ∧
        (axes.map fun axis => shape.getD axis.toNat 0) = out := by
  have hread (axis n : Int) : (0 ≤ axis ∧ shape[axis.toNat]? = some n) ↔
      axis ∈ allAxes shape.length ∧ shape.getD axis.toNat 0 = n := by
    rw [mem_allAxes, List.getElem?_eq_some_iff]
    constructor
    · rintro ⟨hnonneg, hlt, rfl⟩
      exact ⟨⟨hnonneg, by omega⟩, by simp [hlt]⟩
    · rintro ⟨⟨hnonneg, hlt⟩, rfl⟩
      have hlt' : axis.toNat < shape.length := by omega
      exact ⟨hnonneg, hlt', by simp [hlt']⟩
  simp only [permute_eq_ok_iff, hread, List.forall₂_and_left, ← List.forall₂_map_left_iff,
    List.forall₂_eq_eq_eq]
  rfl

/-- The sizes of all axes in order are the shape. -/
theorem map_getD_allAxes (shape : Shape) :
    ((allAxes shape.length).map fun axis => shape.getD axis.toNat 0) = shape := by
  refine List.ext_getElem (by simp) fun i hi hi' => ?_
  simp [allAxes, List.getElem?_eq_getElem hi']

/-! ## §3 Sizes -/

/-- A shape under all its axes in another order is a rearrangement of it. -/
theorem perm_of_permute (hnodup : axes.Nodup) (h : permute shape axes = .ok out) :
    out.Perm shape := by
  obtain ⟨hlength, hsubset, rfl⟩ := permute_eq_ok_iff_map.mp h
  have hperm := ((perm_allAxes_iff hlength hsubset).mpr hnodup).map
    fun axis => shape.getD axis.toNat 0
  rwa [map_getD_allAxes] at hperm

/-- A rearranged shape has the same number of elements. -/
theorem size_eq_of_perm (h : out.Perm shape) : size out = size shape := h.prod_eq

/-- The size of an axis that is not named is not looked up. -/
theorem permute_set_of_notMem {i : Nat} (hnotMem : (i : Int) ∉ axes)
    (h : permute shape axes = .ok out) (n : Int) : permute (shape.set i n) axes = .ok out := by
  obtain ⟨hlength, hsubset, rfl⟩ := permute_eq_ok_iff_map.mp h
  refine permute_eq_ok_iff_map.mpr ⟨by simpa using hlength, by simpa using hsubset, ?_⟩
  refine List.map_congr_left fun axis haxis => ?_
  have hother : i ≠ axis.toNat := by
    rintro rfl
    have hnonneg := (mem_allAxes.mp (hsubset haxis)).1
    rw [Int.toNat_of_nonneg hnonneg] at hnotMem
    exact hnotMem haxis
  simp only [List.getD_eq_getElem?_getD, List.getElem?_set_ne hother]

/-- **Rearrangements.** A list of axes is taken when there are as many as the shape has
and each is one of them, and the result has as many axes. If none comes twice, the list
names all axes, and the result is the shape rearranged, with the same number of elements.
Otherwise it leaves one out, and whatever the size of that one is, the result is the
same. -/
theorem rearrangement_of_permute (shape : Shape) (axes : List Int) :
    ((∃ out, permute shape axes = .ok out) ↔
      axes.length = shape.length ∧ ∀ axis ∈ axes, 0 ≤ axis ∧ axis < shape.length) ∧
    ∀ out, permute shape axes = .ok out →
      out.length = shape.length ∧
      (axes.Perm (allAxes shape.length) → out.Perm shape ∧ size out = size shape) ∧
      (¬ axes.Perm (allAxes shape.length) →
        ∃ i < shape.length, (i : Int) ∉ axes ∧
          ∀ n, permute (shape.set i n) axes = .ok out) := by
  refine ⟨?_, fun out hout => ?_⟩
  · simp only [permute_eq_ok_iff_map, exists_and_left, exists_eq', and_true,
      List.subset_def, mem_allAxes]
  · obtain ⟨hlength, hsubset, hmap⟩ := permute_eq_ok_iff_map.mp hout
    refine ⟨by rw [← hmap, List.length_map, hlength], fun hperm => ?_, fun hperm => ?_⟩
    · have hout' := perm_of_permute ((perm_allAxes_iff hlength hsubset).mp hperm) hout
      exact ⟨hout', size_eq_of_perm hout'⟩
    · rw [perm_allAxes_iff hlength hsubset] at hperm
      obtain ⟨i, hi, hnotMem⟩ := exists_notMem_of_not_nodup hlength hperm
      exact ⟨i, hi, hnotMem, permute_set_of_notMem hnotMem hout⟩

/-- **Not every list of axes that is taken rearranges.** The first axis, named twice, makes
two by two of two by three. -/
theorem not_rearrangement_of_permute :
    ¬ ∀ (shape out : Shape) (axes : List Int), permute shape axes = .ok out → out.Perm shape := by
  intro h
  have hperm : ([2, 2] : Shape).Perm [2, 3] := h [2, 3] [2, 2] [0, 0] rfl
  exact absurd hperm (by decide)

end GraphShapes.Shape
