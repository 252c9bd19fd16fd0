/-
GraphShapes.Proofs.ShapeTheorems — when an operation on shapes succeeds, and
with what.

One lemma for each operation of `GraphShapes.Shape` reads a success as a
statement about its operands: the bounds that were checked and the shape that
was made. What later modules prove of results starts from these and does not
open the definitions again.

  §1 Axes         — the position of an axis; cutting, joining, stacking, slicing.
  §2 Combining    — broadcasting, and the two matrix products.
  §3 Rearranging  — reshaping and permuting.
-/
import GraphShapes.Proofs.ResultTheorems
import GraphShapes.Shape.Axis
import GraphShapes.Shape.Combine
import GraphShapes.Shape.Rearrange

namespace GraphShapes.Shape

variable {code : String} {shape first out target : Shape} {rest : List Shape} {axis rank : Int}

/-! ## §1 Axes -/

/-- An axis has a position if, counted from the front or from the end, it lies
within the rank. -/
theorem normalizeAxis_eq_ok_iff {i : Nat} :
    normalizeAxis code axis rank = .ok i ↔
      (i : Int) = (if axis < 0 then axis + rank else axis) ∧ (i : Int) < rank := by
  unfold normalizeAxis
  simp only [Bool.or_eq_true, decide_eq_true_eq, guard_eq_ok_iff, Except.ok.injEq]
  omega

/-- A position of an axis lies within the rank. -/
theorem lt_of_normalizeAxis {n i : Nat} (h : normalizeAxis code axis n = .ok i) : i < n := by
  have := (normalizeAxis_eq_ok_iff.mp h).2
  omega

/-- An axis has a position if it is in range, counted from the front or from the end. -/
theorem exists_normalizeAxis_iff :
    (∃ i, normalizeAxis code axis rank = .ok i) ↔ -rank ≤ axis ∧ axis < rank := by
  simp only [normalizeAxis_eq_ok_iff]
  constructor
  · rintro ⟨i, hi, hlt⟩
    split at hi <;> omega
  · rintro ⟨hle, hlt⟩
    have hfront : 0 ≤ if axis < 0 then axis + rank else axis := by split <;> omega
    obtain ⟨i, hi⟩ := Int.eq_ofNat_of_zero_le hfront
    exact ⟨i, hi.symm, by split at hi <;> omega⟩

/-- An axis that is out of range is reported as it is counted from the front. -/
theorem normalizeAxis_eq_error (hout : axis < -rank ∨ rank ≤ axis) :
    normalizeAxis code axis rank
      = .error (.axisOutOfRange code (if axis < 0 then axis + rank else axis) rank) := by
  have hrange : (if axis < 0 then axis + rank else axis) < 0 ∨
      rank ≤ if axis < 0 then axis + rank else axis := by
    split <;> omega
  refine if_pos ?_
  simpa only [Bool.or_eq_true, decide_eq_true_eq, ge_iff_le] using hrange

/-- The size of all pieces of an axis but the last. -/
def pieceSize (size chunks : Int) : Int := (size + chunks - 1) / chunks

/-- What the other pieces leave for the last one. -/
def lastSize (size chunks : Int) : Int := size - pieceSize size chunks * (chunks - 1)

/-- A shape can be cut into a positive number of pieces along one of its axes if
the equal pieces do not take more than there is. -/
theorem chunk_eq_ok_iff {chunks : Int} {cut : List Shape} :
    chunk shape chunks axis = .ok cut ↔
      1 ≤ chunks ∧ ∃ i, normalizeAxis "ECHUNK_DIM" axis shape.length = .ok i ∧
        0 ≤ lastSize (shape.getD i 0) chunks ∧
        pieces shape i (pieceSize (shape.getD i 0) chunks) (lastSize (shape.getD i 0) chunks)
          chunks.toNat = cut := by
  unfold chunk lastSize pieceSize
  simp only [error_bind, guard_eq_ok_iff, bind_eq_ok_iff, pure_eq_ok_iff, Int.not_lt]

theorem length_pieces (shape : Shape) (axis : Nat) (c r : Int) (n : Nat) :
    (pieces shape axis c r n).length = n := by
  fun_induction pieces with
  | case1 => rfl
  | case2 => rfl
  | case3 n ih => rw [List.length_cons, ih]

@[simp] theorem join_nil_left (along j : Nat) (b : Shape) : join along j [] b = .ok [] := by
  simp [join]

@[simp] theorem join_nil_right (along j : Nat) (a : Shape) : join along j a [] = .ok [] := by
  simp [join]

/-- Two shapes are joined axis by axis: sizes add up along the one, and agree along
all others. -/
theorem join_cons_eq_ok_iff {along j : Nat} {a b : Int} {as bs : Shape} :
    join along j (a :: as) (b :: bs) = .ok out ↔
      (j ≠ along → a = b) ∧ ∃ joined, join along (j + 1) as bs = .ok joined ∧
        (if j = along then a + b else a) :: joined = out := by
  rw [join]
  by_cases hj : j = along
  · simp only [hj, ↓reduceIte, ok_bind, bind_eq_ok_iff, pure_eq_ok_iff, ne_eq,
      not_true_eq_false, false_implies, true_and]
  · by_cases hab : a = b
    · simp only [hj, hab, ↓reduceIte, ok_bind, bind_eq_ok_iff, pure_eq_ok_iff, implies_true,
        true_and]
    · simp [hj, hab]

/-- A further shape is joined if it has as many axes. -/
theorem joinAll_cons_eq_ok_iff {along : Nat} {s : Shape} :
    joinAll along shape (s :: rest) = .ok out ↔
      s.length = shape.length ∧ ∃ joined, join along 0 shape s = .ok joined ∧
        joinAll along joined rest = .ok out := by
  rw [joinAll]
  simp only [error_bind, guard_eq_ok_iff, bind_eq_ok_iff, not_not]

/-- A shape alone is its own concatenation; further shapes are joined to it along
one of its axes. -/
theorem concat_eq_ok_iff :
    concat first rest axis = .ok out ↔
      (rest = [] ∧ out = first) ∨
        (rest ≠ [] ∧ ∃ i, normalizeAxis "ECONCAT_DIM" axis first.length = .ok i ∧
          joinAll i first rest = .ok out) := by
  unfold concat
  cases rest with
  | nil => simp [eq_comm]
  | cons s rest => simp [bind_eq_ok_iff]

/-- A shape alone is its own stack; equal shapes get a new axis with a place for
each of them. -/
theorem stack_eq_ok_iff :
    stack first rest axis = .ok out ↔
      (rest = [] ∧ out = first) ∨
        (rest ≠ [] ∧ (∀ s ∈ rest, s = first) ∧
          ∃ i, normalizeAxis "ESTACK_DIM" axis (first.length + 1) = .ok i ∧
            first.take i ++ ((rest.length : Int) + 1) :: first.drop i = out) := by
  unfold stack
  cases rest with
  | nil => simp [eq_comm]
  | cons s rest =>
    have hsame : (s :: rest).find? (· ≠ first) = none ↔ ∀ t ∈ s :: rest, t = first := by
      simp
    simp only [List.isEmpty_cons, Bool.false_eq_true, if_false, bind_eq_ok_iff, reduceCtorEq,
      false_and, false_or, ne_eq, not_false_eq_true, true_and, ← hsame]
    cases hother : (s :: rest).find? (· ≠ first) with
    | some other => simp
    | none => simp [pure_eq_ok_iff]

/-- A slice with a positive step replaces the size of one axis. -/
theorem slice_eq_ok_iff {start stop step : Int} :
    slice shape axis start stop step = .ok out ↔
      1 ≤ step ∧ ∃ i, normalizeAxis "ESLICE_DIM" axis shape.length = .ok i ∧
        shape.set i (sliceLength (shape.getD i 0) start stop step) = out := by
  unfold slice
  simp only [error_bind, guard_eq_ok_iff, bind_eq_ok_iff, pure_eq_ok_iff, Int.not_lt]

/-! ## §2 Combining -/

/-- Two shapes broadcast axis by axis: sizes agree, or one of them is one. -/
theorem broadcastFromEnd_cons_eq_ok_iff {i : Nat} {a b : Int} {as bs : Shape} :
    broadcastFromEnd i (a :: as) (b :: bs) = .ok out ↔
      (a = 1 ∨ b = 1 ∨ a = b) ∧ ∃ behind, broadcastFromEnd (i + 1) as bs = .ok behind ∧
        (if a = 1 then b else a) :: behind = out := by
  rw [broadcastFromEnd]
  by_cases ha : a = 1
  · simp only [ha, ↓reduceIte, ok_bind, bind_eq_ok_iff, pure_eq_ok_iff, true_or, true_and]
  · by_cases hb : b = 1
    · simp only [ha, hb, ↓reduceIte, ok_bind, bind_eq_ok_iff, pure_eq_ok_iff, true_or, or_true,
        true_and]
    · by_cases hab : a = b
      · simp only [hab, hb, ↓reduceIte, ok_bind, bind_eq_ok_iff, pure_eq_ok_iff, or_true,
          true_and]
      · simp [ha, hb, hab]

/-- A matrix product contracts the axis that both factors share. -/
theorem matmul_eq_ok_iff {a b : Shape} :
    matmul a b = .ok out ↔ ∃ n k m, a = [n, k] ∧ b = [k, m] ∧ out = [n, m] := by
  unfold matmul
  split
  · next n k l m =>
    by_cases hkl : k = l
    · subst hkl
      simp [eq_comm]
    · simp [hkl, Ne.symm hkl]
  · next hranks =>
    simp only [reduceCtorEq, false_iff]
    rintro ⟨n, k, m, rfl, rfl, _⟩
    exact hranks n k k m rfl rfl

/-- A batch of matrix products keeps the axis of the batch. -/
theorem batchMatmul_eq_ok_iff {a b : Shape} :
    batchMatmul a b = .ok out ↔ ∃ s n k m, a = [s, n, k] ∧ b = [s, k, m] ∧ out = [s, n, m] := by
  unfold batchMatmul
  split
  · next s n k t l m =>
    by_cases hst : s = t
    · subst hst
      by_cases hkl : k = l
      · subst hkl
        simp [eq_comm]
      · simp [hkl, Ne.symm hkl]
    · simp [hst, Ne.symm hst]
  · next hranks =>
    simp only [reduceCtorEq, false_iff]
    rintro ⟨s, n, k, m, rfl, rfl, _⟩
    exact hranks s n k s k m rfl rfl

/-! ## §3 Rearranging -/

theorem countP_open_eq_zero_iff : target.countP (· = -1) = 0 ↔ -1 ∉ target := by
  rw [List.countP_eq_zero]
  constructor
  · intro h hmem
    simpa using h (-1) hmem
  · intro h n hn
    simpa using ne_of_mem_of_not_mem hn h

/-- The sizes that are given have to divide the number of elements, and one of them may
be zero only where no size is left open. -/
theorem fits_iff {openSizes : Nat} {explicit total : Int} :
    fits openSizes explicit total = true ↔ explicit ∣ total ∧ (explicit = 0 → openSizes = 0) := by
  unfold fits
  rw [Int.dvd_iff_emod_eq_zero]
  by_cases hopen : openSizes = 0
  · by_cases hexplicit : explicit = 0
    · simp [hopen, hexplicit]
    · simp [hopen, hexplicit]
  · simp [hopen, and_comm]

/-- A target is taken if it leaves at most one size open, the number of elements
fits it, and it asks for no size below zero. -/
theorem reshape_eq_ok_iff :
    reshape shape target = .ok out ↔
      target.countP (· = -1) ≤ 1 ∧
        fits (target.countP (· = -1)) (size (explicitSizes target)) (size shape) = true ∧
        (∀ d ∈ target, -1 ≤ d) ∧
        target.map (fun d => if d = -1 then size shape / size (explicitSizes target) else d)
          = out := by
  unfold reshape
  simp only [guard_eq_ok_iff, Bool.or_eq_true, Bool.not_eq_true', not_or, Bool.not_eq_false,
    Bool.not_eq_true, List.any_eq_false, decide_eq_true_eq, Int.not_lt, gt_iff_lt, Nat.not_lt,
    Except.ok.injEq, and_assoc]

/-- A permutation names an input axis for every output axis. -/
theorem permute_eq_ok_iff {axes : List Int} :
    permute shape axes = .ok out ↔
      axes.length = shape.length ∧
        List.Forall₂ (fun axis n => 0 ≤ axis ∧ shape[axis.toNat]? = some n) axes out := by
  have haxis (axis n : Int) :
      axisSize shape axis = .ok n ↔ 0 ≤ axis ∧ shape[axis.toNat]? = some n := by
    unfold axisSize
    simp only [guard_eq_ok_iff, Except.ok.injEq, Int.not_lt, ge_iff_le, Int.not_le,
      List.getD_eq_getElem?_getD]
    constructor
    · rintro ⟨hle, hlt, rfl⟩
      have hget := List.getElem?_eq_getElem (show axis.toNat < List.length shape by omega)
      exact ⟨hle, by simp [hget]⟩
    · rintro ⟨hle, hget⟩
      have hlt := (List.getElem?_eq_some_iff.mp hget).1
      exact ⟨hle, by omega, by simp [hget]⟩
  unfold permute
  simp only [guard_eq_ok_iff, mapM_eq_ok_iff, haxis, not_not]

end GraphShapes.Shape
