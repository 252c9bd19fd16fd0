/-
GraphShapes.Proofs.SliceTheorems — a slice counts the positions that it keeps.

The bounds of a slice name positions of an axis: a negative one counts from the end, and
one that lies outside names the nearer end (`clamp`). The many cases of a slice's range
come to just that (`sliceRange?_eq`). From the lower bound on, the positions that are kept
are a step apart, so each is reached in a number of steps of its own
(`positions_eq_image`), and these are the numbers of steps that do not pass the upper
bound (`lt_stepsAcross_iff`).

  §1 Bounds    — where a slice begins and ends.
  §2 Steps     — how many steps fit between the bounds.
  §3 Positions — what a slice keeps of an axis, and of a shape.
-/
import GraphShapes.Proofs.ShapeTheorems
import Mathlib.Algebra.Order.Ring.Int
import Mathlib.Data.Finset.Card
import Mathlib.Data.Finset.Range

namespace GraphShapes.Shape

variable {length start stop step distance : Int}

/-! ## §1 Bounds -/

/-- A bound counted from the front of an axis, where a negative one counts from the end. -/
def fromFront (length bound : Int) : Int := if bound < 0 then bound + length else bound

/-- The position that a bound of a slice names; if it lies outside the axis, that is the
nearer end. -/
def clamp (length bound : Int) : Int :=
  if fromFront length bound < 0 then 0
  else if length < fromFront length bound then length
  else fromFront length bound

theorem clamp_nonneg (hlength : 0 ≤ length) (bound : Int) : 0 ≤ clamp length bound := by
  unfold clamp
  split_ifs <;> omega

theorem clamp_le (hlength : 0 ≤ length) (bound : Int) : clamp length bound ≤ length := by
  unfold clamp
  split_ifs <;> omega

theorem clamp_eq_self {bound : Int} (hnonneg : 0 ≤ bound) (hle : bound ≤ length) :
    clamp length bound = bound := by
  unfold clamp fromFront
  split_ifs <;> omega

theorem clamp_eq_length {bound : Int} (hlength : 0 ≤ length) (hle : length ≤ bound) :
    clamp length bound = length := by
  unfold clamp fromFront
  split_ifs <;> omega

/-- A slice runs from the position of the one bound to that of the other, if that is
forward. -/
theorem sliceRange?_eq (hlength : 0 ≤ length) (start stop : Int) :
    sliceRange? length start stop =
      if clamp length start < clamp length stop
      then some (clamp length start, clamp length stop) else none := by
  unfold sliceRange?
  by_cases hout : length ≤ start ∨ stop ≤ -length
  · have hempty : ¬ clamp length start < clamp length stop := by
      unfold clamp fromFront
      split_ifs <;> omega
    simp [hout, hempty]
  · have hstart : (if start ≤ -length then 0 else if start < 0 then start + length else start)
        = clamp length start := by
      unfold clamp fromFront
      split_ifs <;> omega
    have hstop : (if stop > length then length else if stop < 0 then stop + length else stop)
        = clamp length stop := by
      unfold clamp fromFront
      split_ifs <;> omega
    simp only [ge_iff_le, Bool.or_eq_true, decide_eq_true_eq, hout, if_false, hstart, hstop]
    by_cases hforward : clamp length start < clamp length stop
    · rw [if_pos hforward, if_neg (not_le.mpr hforward)]
    · rw [if_neg hforward, if_pos (not_lt.mp hforward)]

/-! ## §2 Steps -/

/-- A number of steps is below the number that it takes to pass a distance when that many
steps end in front of it. -/
theorem lt_stepsAcross_iff (hstep : 1 ≤ step) (k : Int) :
    k < stepsAcross distance step ↔ k * step < distance := by
  have hpos : 0 < step := by omega
  unfold stepsAcross
  rw [Int.fdiv_eq_ediv_of_nonneg _ hpos.le, Int.fmod_eq_emod_of_nonneg _ hpos.le]
  by_cases hrest : distance % step = 0
  · have hdistance : distance / step * step = distance :=
      Int.ediv_mul_cancel (Int.dvd_of_emod_eq_zero hrest)
    rw [if_pos hrest, Int.add_zero]
    calc k < distance / step ↔ k * step < distance / step * step :=
          (Int.mul_lt_mul_right hpos).symm
      _ ↔ k * step < distance := by rw [hdistance]
  · have hne : k * step ≠ distance := by
      rintro rfl
      exact hrest (Int.mul_emod_left k step)
    rw [if_neg hrest]
    calc k < distance / step + 1 ↔ k ≤ distance / step := Int.lt_add_one_iff
      _ ↔ k * step ≤ distance := Int.le_ediv_iff_mul_le hpos
      _ ↔ k * step < distance := by omega

@[simp] theorem stepsAcross_one (distance : Int) : stepsAcross distance 1 = distance := by
  unfold stepsAcross
  rw [Int.fdiv_one, Int.fmod_one, if_pos rfl, Int.add_zero]

/-- A slice has as many positions as steps fit between its bounds, and none if these are
not in order. -/
theorem sliceLength_eq_toNat (hlength : 0 ≤ length) (hstep : 1 ≤ step) (start stop : Int) :
    sliceLength length start stop step
      = (stepsAcross (clamp length stop - clamp length start) step).toNat := by
  unfold sliceLength
  rw [sliceRange?_eq hlength]
  by_cases hforward : clamp length start < clamp length stop
  · have hpos : 0 < stepsAcross (clamp length stop - clamp length start) step :=
      (lt_stepsAcross_iff hstep 0).mpr (by omega)
    simp only [if_pos hforward, Int.toNat_of_nonneg hpos.le]
  · have hle : ¬ 0 < stepsAcross (clamp length stop - clamp length start) step := by
      rw [lt_stepsAcross_iff hstep]
      omega
    simp only [if_neg hforward]
    omega

/-! ## §3 Positions -/

/-- The positions of an axis that a slice keeps: from the one bound on up to the other, a
step apart. -/
def positions (length start stop step : Int) : Finset Nat :=
  (Finset.range length.toNat).filter fun j =>
    clamp length start ≤ j ∧ j < clamp length stop ∧ step ∣ j - clamp length start

/-- A number of steps on from the lower bound. -/
theorem coe_stepped (hlength : 0 ≤ length) (hstep : 1 ≤ step) (start : Int) (k : Nat) :
    ((clamp length start + k * step).toNat : Int) = clamp length start + k * step := by
  have hlo : 0 ≤ clamp length start := clamp_nonneg hlength start
  have hsteps : 0 ≤ k * step := mul_nonneg (Int.natCast_nonneg k) (by omega)
  exact Int.toNat_of_nonneg (by omega)

/-- Each position is so many steps away from the lower bound. -/
theorem positions_eq_image (hlength : 0 ≤ length) (hstep : 1 ≤ step) (start stop : Int) :
    positions length start stop step
      = (Finset.range (stepsAcross (clamp length stop - clamp length start) step).toNat).image
          fun k : Nat => (clamp length start + k * step).toNat := by
  have hhi : clamp length stop ≤ length := clamp_le hlength stop
  ext j
  simp only [positions, Finset.mem_filter, Finset.mem_image, Finset.mem_range, Int.lt_toNat,
    lt_stepsAcross_iff hstep]
  constructor
  · rintro ⟨_, hle, hlt, k, hk⟩
    have hsteps : j - clamp length start = k * step := hk.trans (mul_comm step k)
    have hnonneg : 0 ≤ k := nonneg_of_mul_nonneg_left (show 0 ≤ k * step by omega) (by omega)
    rw [← Int.toNat_of_nonneg hnonneg] at hsteps
    refine ⟨k.toNat, by omega, ?_⟩
    have hcoe := coe_stepped hlength hstep start k.toNat
    omega
  · rintro ⟨k, hk, rfl⟩
    have hsteps : 0 ≤ k * step := mul_nonneg (Int.natCast_nonneg k) (by omega)
    rw [coe_stepped hlength hstep]
    exact ⟨by omega, by omega, by omega, k, by rw [add_sub_cancel_left, mul_comm]⟩

/-- The length of a slice is the number of positions that it keeps. -/
theorem sliceLength_eq_card (hlength : 0 ≤ length) (hstep : 1 ≤ step) (start stop : Int) :
    sliceLength length start stop step = (positions length start stop step).card := by
  have hinjective : Function.Injective fun k : Nat => (clamp length start + k * step).toNat := by
    intro k k' h
    have hcoe : ((clamp length start + k * step).toNat : Int)
        = (clamp length start + k' * step).toNat := congrArg Int.ofNat h
    rw [coe_stepped hlength hstep, coe_stepped hlength hstep] at hcoe
    exact Int.ofNat.inj (Int.eq_of_mul_eq_mul_right (by omega) (Int.add_left_cancel hcoe))
  rw [sliceLength_eq_toNat hlength hstep, positions_eq_image hlength hstep,
    Finset.card_image_of_injective _ hinjective, Finset.card_range]

theorem card_positions_le (hlength : 0 ≤ length) (start stop step : Int) :
    ((positions length start stop step).card : Int) ≤ length := by
  have hle : (positions length start stop step).card ≤ (Finset.range length.toNat).card :=
    Finset.card_filter_le _ _
  rw [Finset.card_range] at hle
  omega

/-- **Slices.** The length of a slice is the number of positions that it keeps: those of
the axis that lie between the positions that its bounds name, a step apart from the lower
one on. There are no more of them than the axis has. The shape of a slice has this size
in place of the axis, counted from the end if it is negative, and all others as they
were. -/
theorem slice_positions (length step : Int) (hlength : 0 ≤ length) (hstep : 1 ≤ step)
    (start stop : Int) :
    sliceLength? length start stop step = some ((positions length start stop step).card : Int) ∧
    ((positions length start stop step).card : Int) ≤ length ∧
    ∀ (shape : Shape) (axis : Int) (i : Nat),
      (i : Int) = (if axis < 0 then axis + shape.length else axis) → shape[i]? = some length →
        slice shape axis start stop step
          = .ok (shape.set i ((positions length start stop step).card : Int)) := by
  have hcard := sliceLength_eq_card hlength hstep start stop
  refine ⟨?_, card_positions_le hlength start stop step, fun shape axis i hi hsize => ?_⟩
  · have hne : step ≠ 0 := by omega
    simp [sliceLength?, hne, hcard]
  · have hlt : i < shape.length := (List.getElem?_eq_some_iff.mp hsize).1
    refine slice_eq_ok_iff.mpr ⟨hstep, i, normalizeAxis_eq_ok_iff.mpr ⟨hi, by omega⟩, ?_⟩
    rw [List.getD_eq_getElem?_getD, hsize, Option.getD_some, hcard]

/-- Of ten positions every third is kept, from the seventh before the end on and up to the
end, which the upper bound lies beyond: three, six and nine. -/
theorem slice_positions_three :
    positions 10 (-7) 100 3 = {3, 6, 9} ∧ sliceLength? 10 (-7) 100 3 = some 3 ∧
      slice [4, 10] (-1) (-7) 100 3 = .ok [4, 3] := by
  have hpositions : positions 10 (-7) 100 3 = {3, 6, 9} := by decide
  obtain ⟨hlength, _, hslice⟩ := slice_positions 10 3 (by decide) (by decide) (-7) 100
  rw [hpositions] at hlength hslice
  exact ⟨hpositions, hlength, hslice [4, 10] (-1) 1 rfl rfl⟩

end GraphShapes.Shape
