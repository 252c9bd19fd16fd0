/-
GraphShapes.Proofs.CutTheorems — an axis that is cut, and joined again.

A slice or a piece of a shape is the shape with another size along the axis, so shapes
that were cut from one are aligned, and their concatenation is the shape again when their
sizes add up to the size of the axis (`concatAll?_map_set`). What is left is to add sizes.
Two slices that meet at a bound meet at the position that the bound names, wherever that
is (`sliceLength_add`). The slices that begin at the first positions of an axis and go on
with as large a step as there are such positions keep each position in one of them, by its
remainder (`sum_sliceLength_stride`). The pieces of a cut are slices of the size of the
first of them, and the last one takes what is left (`lastSize`). If nothing is left to
take there is no cut, and a message that says so if both numbers can be written
(`chunk_untold`).

  §1 Pieces — shapes that were cut from one.
  §2 Slices — slices that meet at a bound, and slices in turn.
  §3 Chunks — pieces of equal size, and the last one.
-/
import GraphShapes.Fault
import GraphShapes.Proofs.ConcatTheorems
import GraphShapes.Proofs.SliceTheorems
import Mathlib.Algebra.BigOperators.Ring.Finset
import Mathlib.Data.Nat.ModEq
import Mathlib.Data.Rat.Floor

namespace GraphShapes.Shape

variable {shape : Shape} {sizes : List Int} {i : Nat} {axis length start stop step chunks : Int}

/-! ## §1 Pieces -/

theorem normalizeAxis_eq_ok {code : String}
    (hi : (i : Int) = if axis < 0 then axis + shape.length else axis)
    (hsize : shape[i]? = some length) : normalizeAxis code axis shape.length = .ok i := by
  have hlt : i < shape.length := (List.getElem?_eq_some_iff.mp hsize).1
  exact normalizeAxis_eq_ok_iff.mpr ⟨hi, by omega⟩

theorem getD_eq_of_getElem? (hsize : shape[i]? = some length) : shape.getD i 0 = length := by
  rw [List.getD_eq_getElem?_getD, hsize, Option.getD_some]

/-- Shapes that are one shape but for the sizes along an axis have that shape as their
concatenation, if these sizes add up to its own. -/
theorem concatAll?_map_set (hi : (i : Int) = if axis < 0 then axis + shape.length else axis)
    (hsize : shape[i]? = some sizes.sum) (hne : sizes ≠ []) :
    concatAll? (sizes.map fun n => shape.set i n) axis = some (.ok shape) := by
  have hlt : i < shape.length := (List.getElem?_eq_some_iff.mp hsize).1
  have hne' : sizes.map (fun n => shape.set i n) ≠ [] := by simpa using hne
  refine (concatAll?_eq_ok_iff_of_axis hne' (normalizeAxis_eq_ok hi hsize)).mpr ⟨hlt, ?_, ?_⟩
  · intro s hs
    obtain ⟨n, _, rfl⟩ := List.mem_map.mp hs
    exact aligned_set i shape n
  · have hsizes : sizesAlong i (sizes.map fun n => shape.set i n) = sizes := by
      simp only [sizesAlong, List.map_map, Function.comp_def, getD_set_self hlt, List.map_id']
    rw [getD_eq_of_getElem? hsize, hsizes]

/-- A slice is the shape with another size along the axis. -/
theorem slice_eq_ok (hi : (i : Int) = if axis < 0 then axis + shape.length else axis)
    (hsize : shape[i]? = some length) (hstep : 1 ≤ step) (start stop : Int) :
    slice shape axis start stop step
      = .ok (shape.set i (sliceLength length start stop step)) := by
  refine slice_eq_ok_iff.mpr ⟨hstep, i, normalizeAxis_eq_ok hi hsize, ?_⟩
  rw [getD_eq_of_getElem? hsize]

/-! ## §2 Slices -/

/-- A slice without a step reaches from the position of the one bound to that of the
other. -/
theorem sliceLength_one (hlength : 0 ≤ length) (start stop : Int) :
    sliceLength length start stop 1 = max (clamp length stop - clamp length start) 0 := by
  rw [sliceLength_eq_toNat hlength (Int.le_refl 1), stepsAcross_one, Int.ofNat_toNat]

/-- Two slices that meet at a bound, from the one end of the axis to the other, have all of
its positions. -/
theorem sliceLength_add (hlength : 0 ≤ length) (bound : Int) :
    sliceLength length 0 bound 1 + sliceLength length bound length 1 = length := by
  have hnonneg : 0 ≤ clamp length bound := clamp_nonneg hlength bound
  have hle : clamp length bound ≤ length := clamp_le hlength bound
  rw [sliceLength_one hlength, sliceLength_one hlength, clamp_eq_self (Int.le_refl 0) hlength,
    clamp_eq_self hlength (Int.le_refl length)]
  omega

/-- From one of the first positions on, a step as large as their number leads to the
positions with the same remainder. -/
theorem positions_stride {n j : Nat} (hlength : 0 ≤ length) (hj : j < n) :
    positions length j length n = (Finset.range length.toNat).filter fun m => m % n = j := by
  have hhi : clamp length length = length := clamp_eq_self hlength (Int.le_refl length)
  apply Finset.filter_congr
  intro m hm
  rw [Finset.mem_range] at hm
  have hmod : m % n ≤ m := Nat.mod_le m n
  rw [hhi]
  by_cases hjl : (j : Int) ≤ length
  · have hdvd : (n : Int) ∣ m - j ↔ m % n = j := by
      rw [← Nat.modEq_iff_dvd, Nat.ModEq, Nat.mod_eq_of_lt hj, eq_comm]
    rw [clamp_eq_self (Int.natCast_nonneg j) hjl, hdvd]
    omega
  · rw [clamp_eq_length hlength (by omega)]
    omega

/-- The slices that begin at the first so many positions, with a step as large, have each
position of the axis in one of them. -/
theorem sum_sliceLength_stride {n : Nat} (hlength : 0 ≤ length) (hn : 1 ≤ n) :
    ((List.range n).map fun j : Nat => sliceLength length j length n).sum = length := by
  have hstep : 1 ≤ (n : Int) := by omega
  have hparts : (Finset.range length.toNat).card
      = ∑ j ∈ Finset.range n, (positions length j length n).card := by
    rw [Finset.card_eq_sum_card_fiberwise (f := fun m => m % n) (t := Finset.range n)]
    · apply Finset.sum_congr rfl
      intro j hj
      rw [positions_stride hlength (Finset.mem_range.mp hj)]
    · intro m _
      exact Finset.mem_coe.mpr (Finset.mem_range.mpr (Nat.mod_lt m hn))
  calc ((List.range n).map fun j : Nat => sliceLength length j length n).sum
      = ∑ j ∈ Finset.range n, sliceLength length j length n := rfl
    _ = ∑ j ∈ Finset.range n, ((positions length j length n).card : Int) :=
        Finset.sum_congr rfl fun j _ => sliceLength_eq_card hlength hstep j length
    _ = ((Finset.range length.toNat).card : Int) := by rw [hparts, Nat.cast_sum]
    _ = length := by rw [Finset.card_range, Int.toNat_of_nonneg hlength]

/-- **Slices.** An axis that is cut in two at any bound is joined again to what it was: the
slice up to the bound and the slice from it on meet where the bound lies, be it negative
or beyond an end. So is an axis that is dealt out in turn to slices with a common step. -/
theorem concat_slices (shape : Shape) (axis length : Int) (i : Nat) (hlength : 0 ≤ length)
    (hi : (i : Int) = if axis < 0 then axis + shape.length else axis)
    (hsize : shape[i]? = some length) :
    (∀ bound, ∃ front behind, slice shape axis 0 bound 1 = .ok front ∧
      slice shape axis bound length 1 = .ok behind ∧
      concatAll? [front, behind] axis = some (.ok shape)) ∧
    ∀ n : Nat, 1 ≤ n → ∃ parts,
      (List.range n).mapM (fun j : Nat => slice shape axis j length n) = .ok parts ∧
      concatAll? parts axis = some (.ok shape) := by
  constructor
  · intro bound
    refine ⟨_, _, slice_eq_ok hi hsize (Int.le_refl 1) 0 bound,
      slice_eq_ok hi hsize (Int.le_refl 1) bound length, ?_⟩
    have hsum : [sliceLength length 0 bound 1, sliceLength length bound length 1].sum = length := by
      simpa using sliceLength_add hlength bound
    exact concatAll?_map_set hi (by rw [hsum, hsize]) (List.cons_ne_nil _ _)
  · intro n hn
    have hstep : 1 ≤ (n : Int) := by omega
    have hne : (List.range n).map (fun j : Nat => sliceLength length j length n) ≠ [] := by
      simpa using (by omega : n ≠ 0)
    refine ⟨_, mapM_eq_ok_iff.mpr ?_, concatAll?_map_set hi ?_ hne⟩
    · rw [List.map_map, List.forall₂_map_right_iff, List.forall₂_same]
      intro j _
      exact slice_eq_ok hi hsize hstep j length
    · rw [sum_sliceLength_stride hlength hn, hsize]

/-- Ten positions, cut in two at the third from the end, and dealt out in turn to three. -/
theorem concat_slices_ten :
    (0 : Int) ≤ 10 ∧ ([4, 10] : Shape)[1]? = some 10 ∧
      slice [4, 10] (-1) 0 (-3) 1 = .ok [4, 7] ∧ slice [4, 10] (-1) (-3) 10 1 = .ok [4, 3] ∧
      concatAll? [[4, 7], [4, 3]] (-1) = some (.ok [4, 10]) ∧
      (List.range 3).mapM (fun j : Nat => slice [4, 10] (-1) j 10 (3 : Nat))
        = .ok [[4, 4], [4, 3], [4, 3]] ∧
      concatAll? [[4, 4], [4, 3], [4, 3]] (-1) = some (.ok [4, 10]) := by
  obtain ⟨hbound, hturns⟩ := concat_slices [4, 10] (-1) 10 1 (by decide) rfl rfl
  obtain ⟨front, behind, hfront, hbehind, hjoined⟩ := hbound (-3)
  obtain rfl : [4, 7] = front := Except.ok.inj hfront
  obtain rfl : [4, 3] = behind := Except.ok.inj hbehind
  obtain ⟨parts, hparts, hwhole⟩ := hturns 3 (by decide)
  obtain rfl : [[4, 4], [4, 3], [4, 3]] = parts := Except.ok.inj hparts
  exact ⟨by decide, rfl, hfront, hbehind, hjoined, hparts, hwhole⟩

/-! ## §3 Chunks -/

/-- The size of a piece is known by what it suffices for: so many pieces of a size cover the
axis when it is at least that. -/
theorem pieceSize_le_iff (hchunks : 1 ≤ chunks) (n : Int) :
    pieceSize length chunks ≤ n ↔ length ≤ n * chunks := by
  have hpos : 0 < chunks := by omega
  unfold pieceSize
  calc (length + chunks - 1) / chunks ≤ n
      ↔ (length + chunks - 1) / chunks < n + 1 := Int.lt_add_one_iff.symm
    _ ↔ length + chunks - 1 < (n + 1) * chunks := Int.ediv_lt_iff_lt_mul hpos
    _ ↔ length ≤ n * chunks := by
        rw [add_mul, one_mul]
        omega

theorem pieceSize_eq_ceil (hchunks : 1 ≤ chunks) :
    pieceSize length chunks = ⌈(length : ℚ) / chunks⌉ := by
  have hpos : (0 : ℚ) < chunks := by exact_mod_cast (show 0 < chunks by omega)
  apply eq_of_forall_ge_iff
  intro n
  rw [pieceSize_le_iff hchunks, Int.ceil_le, div_le_iff₀ hpos]
  norm_cast

/-- The pieces of an axis are the shape with the sizes of the pieces. -/
theorem pieces_eq_map (shape : Shape) (i : Nat) (c r : Int) (n : Nat) :
    pieces shape i c r (n + 1) = (List.replicate n c ++ [r]).map fun m => shape.set i m := by
  induction n with
  | zero => rfl
  | succ n ih =>
    rw [pieces, ih]
    rfl

/-- The sizes of the pieces of an axis. -/
def chunkSizes (length chunks : Int) : List Int :=
  List.replicate (chunks - 1).toNat (pieceSize length chunks) ++ [lastSize length chunks]

/-- A shape is cut along an axis if there are pieces to be made and all but the last find
room. -/
theorem chunk_of_normalizeAxis
    (haxis : normalizeAxis "ECHUNK_DIM" axis shape.length = .ok i) :
    chunk shape chunks axis =
      if chunks < 1 then .error (.chunkCount chunks)
      else if lastSize (shape.getD i 0) chunks < 0 then
        .error (.chunkSize (shape.getD i 0) chunks)
      else .ok ((chunkSizes (shape.getD i 0) chunks).map fun n => shape.set i n) := by
  unfold chunk
  rw [haxis]
  split
  · rfl
  · next hcount =>
    have hsucc : chunks.toNat = (chunks - 1).toNat + 1 := by omega
    rw [chunkSizes, ← pieces_eq_map, ← hsucc]
    rfl

/-- The slices of one size, of which the last one ends at or beyond the end of the axis: all
have this size but the last, which has what is left. -/
theorem map_sliceLength_eq {c : Int} {n : Nat} (hc : 0 ≤ c) (hle : n * c ≤ length)
    (hge : length ≤ (n + 1) * c) :
    (List.range (n + 1)).map (fun k : Nat => sliceLength length (k * c) ((k + 1) * c) 1)
      = List.replicate n c ++ [length - n * c] := by
  have hfirst (k : Nat) : 0 ≤ k * c := mul_nonneg (Int.natCast_nonneg k) hc
  have hlength : 0 ≤ length := (hfirst n).trans hle
  have hfull : ∀ k ∈ List.range n, sliceLength length (k * c) ((k + 1) * c) 1 = c := by
    intro k hk
    have hstop : (k + 1) * c ≤ n * c :=
      mul_le_mul_of_nonneg_right (by exact_mod_cast List.mem_range.mp hk) hc
    have hwidth : (k + 1) * c = k * c + c := by rw [add_mul, one_mul]
    have hstart : 0 ≤ k * c := hfirst k
    rw [sliceLength_one hlength, hwidth, clamp_eq_self hstart (by omega),
      clamp_eq_self (by omega) (by omega)]
    omega
  have hlast : sliceLength length (n * c) ((n + 1) * c) 1 = length - n * c := by
    rw [sliceLength_one hlength, clamp_eq_self (hfirst n) hle, clamp_eq_length hlength hge]
    omega
  rw [List.range_succ, List.map_append, List.map_singleton, hlast]
  congr 1
  simpa using List.map_eq_replicate_iff.mpr hfull

/-- The sizes of as many slices as there are pieces, next to each other and each as wide as
a piece. -/
def sliceSizes (length chunks : Int) : List Int :=
  (List.range chunks.toNat).map fun k : Nat =>
    sliceLength length (k * pieceSize length chunks) ((k + 1) * pieceSize length chunks) 1

/-- Pieces that find room are slices next to each other. -/
theorem sliceSizes_eq (hlength : 0 ≤ length) (hchunks : 1 ≤ chunks)
    (hfit : pieceSize length chunks * (chunks - 1) ≤ length) :
    sliceSizes length chunks = chunkSizes length chunks := by
  obtain ⟨n, hn⟩ := Int.eq_ofNat_of_zero_le (show 0 ≤ chunks - 1 by omega)
  have hsucc : chunks = n + 1 := by omega
  have hcount : chunks.toNat = n + 1 := by omega
  have hc : 0 ≤ pieceSize length chunks := Int.ediv_nonneg (by omega) (by omega)
  have hcover : length ≤ (n + 1) * pieceSize length chunks := by
    rw [← hsucc, mul_comm]
    exact (pieceSize_le_iff hchunks _).mp (Int.le_refl _)
  rw [hn, mul_comm] at hfit
  rw [sliceSizes, hcount, map_sliceLength_eq hc hfit hcover, chunkSizes, lastSize, hn, mul_comm]
  rfl

/-- What the equal pieces take and what they leave is the axis. -/
theorem sum_sliceSizes (hlength : 0 ≤ length) (hchunks : 1 ≤ chunks)
    (hfit : pieceSize length chunks * (chunks - 1) ≤ length) :
    (sliceSizes length chunks).sum = length := by
  have hcount : ((chunks - 1).toNat : Int) = chunks - 1 := Int.toNat_of_nonneg (by omega)
  rw [sliceSizes_eq hlength hchunks hfit, chunkSizes, List.sum_append, List.sum_replicate,
    List.sum_singleton, lastSize, nsmul_eq_mul, hcount, mul_comm]
  omega

/-- A shape is cut along one of its axes unless the equal pieces take more than there is, and
the pieces are the shape with the sizes of slices next to each other. -/
theorem chunk_eq_ite (hlength : 0 ≤ length) (hchunks : 1 ≤ chunks)
    (hi : (i : Int) = if axis < 0 then axis + shape.length else axis)
    (hsize : shape[i]? = some length) :
    chunk shape chunks axis =
      if length < pieceSize length chunks * (chunks - 1) then .error (.chunkSize length chunks)
      else .ok ((sliceSizes length chunks).map fun n => shape.set i n) := by
  have hcount : ¬ chunks < 1 := by omega
  have hlast : lastSize length chunks < 0 ↔ length < pieceSize length chunks * (chunks - 1) := by
    unfold lastSize
    omega
  rw [chunk_of_normalizeAxis (normalizeAxis_eq_ok hi hsize), if_neg hcount,
    getD_eq_of_getElem? hsize]
  simp only [hlast]
  split
  · rfl
  · next hfit => rw [sliceSizes_eq hlength hchunks (Int.not_lt.mp hfit)]

/-- **Chunks.** With pieces of the size that is the number of positions divided by the
number of pieces, rounded up, an axis is cut when all pieces but the last do not take more
than there is. Then there are as many pieces as were asked for, each is the slice that
begins where the one before it ends, and together they are joined to what was cut.
Otherwise the size and the number of pieces are reported, in an error that can be told if
they can. -/
theorem chunk_slices (shape : Shape) (axis chunks length : Int) (i : Nat) (hlength : 0 ≤ length)
    (hchunks : 1 ≤ chunks) (hi : (i : Int) = if axis < 0 then axis + shape.length else axis)
    (hsize : shape[i]? = some length) :
    pieceSize length chunks = ⌈(length : ℚ) / chunks⌉ ∧
    ((∃ cut, chunk shape chunks axis = .ok cut) ↔
      pieceSize length chunks * (chunks - 1) ≤ length) ∧
    (∀ cut, chunk shape chunks axis = .ok cut →
      (cut.length : Int) = chunks ∧
      (∀ (k : Nat) (piece : Shape), cut[k]? = some piece →
        slice shape axis (k * pieceSize length chunks) ((k + 1) * pieceSize length chunks) 1
          = .ok piece) ∧
      concatAll? cut axis = some (.ok shape)) ∧
    (∀ defect, chunk shape chunks axis = .error defect →
      defect.code = "ECHUNK_SIZE" ∧
        (Decimal.isWritable length = true → Decimal.isWritable chunks = true →
          defect.isWritable = true)) := by
  have hcut := chunk_eq_ite hlength hchunks hi hsize
  refine ⟨pieceSize_eq_ceil hchunks, ?_, ?_, ?_⟩
  · simp only [hcut, guard_eq_ok_iff, Int.not_lt, Except.ok.injEq, exists_and_left, exists_eq',
      and_true]
  · intro cut h
    rw [hcut, guard_eq_ok_iff, Int.not_lt] at h
    obtain ⟨hfit, hpieces⟩ := h
    obtain rfl := Except.ok.inj hpieces
    have hsum : (sliceSizes length chunks).sum = length := sum_sliceSizes hlength hchunks hfit
    have hcount : (sliceSizes length chunks).length = chunks.toNat := by simp [sliceSizes]
    have hne : sliceSizes length chunks ≠ [] := List.ne_nil_of_length_pos (by omega)
    refine ⟨?_, ?_, concatAll?_map_set hi (by rw [hsum, hsize]) hne⟩
    · rw [List.length_map, hcount]
      omega
    · intro k piece hpiece
      rw [slice_eq_ok hi hsize (Int.le_refl 1)]
      simp only [sliceSizes, List.getElem?_map, Option.map_eq_some_iff] at hpiece
      obtain ⟨_, ⟨k', hk', rfl⟩, rfl⟩ := hpiece
      obtain ⟨_, rfl⟩ := List.getElem?_eq_some_iff.mp hk'
      rw [List.getElem_range]
  · intro defect h
    rw [hcut] at h
    split at h
    · obtain rfl := Except.error.inj h
      refine ⟨rfl, ?_⟩
      intro hl hc
      simp [Defect.isWritable, Defect.integers, hl, hc]
    · cases h

/-- Seven positions in three pieces: two of three positions and one that is left. Five
positions do not make four pieces, since three of two would be too many. -/
theorem chunk_slices_seven :
    (0 : Int) ≤ 7 ∧ (1 : Int) ≤ 3 ∧ ([2, 7] : Shape)[1]? = some 7 ∧
      pieceSize 7 3 = ⌈((7 : Int) : ℚ) / (3 : Int)⌉ ∧
      chunk [2, 7] 3 (-1) = .ok [[2, 3], [2, 3], [2, 1]] ∧
      slice [2, 7] (-1) 6 9 1 = .ok [2, 1] ∧
      concatAll? [[2, 3], [2, 3], [2, 1]] (-1) = some (.ok [2, 7]) ∧
      ¬ ∃ cut, chunk [2, 5] 4 (-1) = .ok cut := by
  have hcut : chunk [2, 7] 3 (-1) = .ok [[2, 3], [2, 3], [2, 1]] := rfl
  obtain ⟨hceil, _, hpieces, _⟩ := chunk_slices [2, 7] (-1) 3 7 1 (by decide) (by decide) rfl rfl
  obtain ⟨_, hslices, hjoined⟩ := hpieces _ hcut
  obtain ⟨_, hfit, _⟩ := chunk_slices [2, 5] (-1) 4 5 1 (by decide) (by decide) rfl rfl
  exact ⟨by decide, by decide, rfl, hceil, hcut, hslices 2 _ rfl, hjoined,
    fun h => absurd (hfit.mp h) (by decide)⟩

/-- Twice as many pieces as positions do not fit, and if there are too many of them to write
their number, no error says so. -/
theorem chunk_untold :
    (Decimal.bound : Int)
        < pieceSize Decimal.bound (2 * Decimal.bound) * (2 * Decimal.bound - 1) ∧
      ∀ tag, Fault.ofShape tag (chunk [(Decimal.bound : Int)] (2 * Decimal.bound) 0)
        = .error (.misuse .badValue) := by
  have hbound := Decimal.byte_lt_bound
  have hpositive : ¬ pieceSize Decimal.bound (2 * Decimal.bound) ≤ 0 := by
    rw [pieceSize_le_iff (by omega)]
    omega
  have hlarge : (Decimal.bound : Int)
      < pieceSize Decimal.bound (2 * Decimal.bound) * (2 * Decimal.bound - 1) :=
    calc (Decimal.bound : Int) < 1 * (2 * Decimal.bound - 1) := by omega
      _ ≤ _ := Int.mul_le_mul_of_nonneg_right (by omega) (by omega)
  have herror : chunk [(Decimal.bound : Int)] (2 * Decimal.bound) 0
      = .error (.chunkSize Decimal.bound (2 * Decimal.bound)) := by
    rw [chunk_eq_ite (by omega) (by omega) rfl rfl, if_pos hlarge]
  refine ⟨hlarge, ?_⟩
  intro tag
  exact Fault.ofShape_eq_badValue herror (by simp [Defect.isWritable, Defect.integers])

end GraphShapes.Shape
