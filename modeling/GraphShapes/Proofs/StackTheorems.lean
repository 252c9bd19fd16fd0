/-
GraphShapes.Proofs.StackTheorems — a stack is a concatenation along a new axis.

Shapes that get an axis of size one in the same place are aligned along it exactly when
they were the same (`aligned_insertAxis_iff`), and then their sizes along it add up to
their number. So whether shapes are compared as a whole and the new axis is made once, or
each gets the axis and they are joined along it, comes to the same
(`concat_insertAxis_eq_ok_iff`). That they have one rank has to be asked for apart: a
place counted from the front need not be the same place in a shape with fewer axes. An
axis out of range is shown in the message, which is none if it is too long to write
(`stack_untold`).

  §1 New axes — shapes with one axis more.
  §2 Stacks   — the two ways to the same shape, and axes out of range.
-/
import GraphShapes.Fault
import GraphShapes.Proofs.ConcatTheorems

namespace GraphShapes.Shape

variable {a b first shape out : Shape} {rest : List Shape} {p : Nat} {m n axis : Int}

/-! ## §1 New axes -/

/-- A shape with an axis more, in front of the axis in a position. -/
def insertAxis (p : Nat) (n : Int) (shape : Shape) : Shape :=
  shape.take p ++ n :: shape.drop p

@[simp] theorem length_insertAxis (p : Nat) (n : Int) (shape : Shape) :
    (insertAxis p n shape).length = shape.length + 1 := by
  simp [insertAxis]
  omega

theorem getElem?_insertAxis (hp : p ≤ shape.length) (n : Int) :
    (insertAxis p n shape)[p]? = some n := by
  simp [insertAxis, hp]

theorem set_insertAxis (hp : p ≤ shape.length) (m n : Int) :
    (insertAxis p n shape).set p m = insertAxis p m shape := by
  simp [insertAxis, hp]

theorem insertAxis_inj (hlength : a.length = b.length) :
    insertAxis p n a = insertAxis p n b ↔ a = b := by
  constructor
  · intro h
    have htake : (a.take p).length = (b.take p).length := by simp [hlength]
    obtain ⟨hfront, hbehind⟩ := List.append_inj h htake
    rw [← List.take_append_drop p a, hfront, (List.cons.inj hbehind).2, List.take_append_drop]
  · rintro rfl
    rfl

/-- Next to a new axis, shapes of one rank are aligned when they are the same. -/
theorem aligned_insertAxis_iff (hp : p ≤ a.length) (hlength : a.length = b.length) :
    Aligned p (insertAxis p m a) (insertAxis p n b) ↔ a = b := by
  rw [aligned_iff_set 0, set_insertAxis hp, set_insertAxis (hlength ▸ hp),
    insertAxis_inj hlength]

/-- Along a new axis of size one each, shapes of one rank have as many positions as there
are shapes. -/
theorem sum_sizesAlong_insertAxis {shapes : List Shape} (hp : ∀ s ∈ shapes, p ≤ s.length) :
    (sizesAlong p (shapes.map (insertAxis p 1))).sum = shapes.length := by
  have hones : ∀ s ∈ shapes, (insertAxis p 1 s).getD p 0 = 1 := by
    intro s hs
    rw [List.getD_eq_getElem?_getD, getElem?_insertAxis (hp s hs), Option.getD_some]
  have hsizes : sizesAlong p (shapes.map (insertAxis p 1)) = List.replicate shapes.length 1 := by
    rw [sizesAlong, List.map_map]
    exact List.map_eq_replicate_iff.mpr hones
  simp [hsizes]

/-- Along a new axis of size one each, shapes of one rank can be joined when they are the
same, and then to the shape whose new axis has a place for each of them. -/
theorem isJoined_insertAxis_iff (hp : p ≤ first.length)
    (hlength : ∀ s ∈ rest, s.length = first.length) :
    IsJoined p ((first :: rest).map (insertAxis p 1)) out ↔
      (∀ s ∈ rest, s = first) ∧ insertAxis p (rest.length + 1) first = out := by
  have hlt : p < (insertAxis p 1 first).length := by
    rw [length_insertAxis]
    omega
  have haligned : (∀ t ∈ rest.map (insertAxis p 1), Aligned p (insertAxis p 1 first) t) ↔
      ∀ s ∈ rest, s = first := by
    rw [List.forall_mem_map]
    apply forall₂_congr
    intro s hs
    rw [aligned_insertAxis_iff hp (hlength s hs).symm, eq_comm]
  have hsum : (sizesAlong p ((first :: rest).map (insertAxis p 1))).sum
      = (rest.length : Int) + 1 := by
    refine (sum_sizesAlong_insertAxis fun s hs => ?_).trans (by simp)
    rcases List.mem_cons.mp hs with rfl | hs
    · exact hp
    · exact (hlength s hs).symm ▸ hp
  rw [List.map_cons] at hsum ⊢
  rw [isJoined_cons_iff, haligned, hsum, set_insertAxis hp]
  exact and_iff_right hlt

/-! ## §2 Stacks -/

/-- Equal shapes have a stack: the new axis has a place for each of them. -/
theorem stack_eq_ok_iff_insertAxis (hmany : rest ≠ [])
    (hp : normalizeAxis "ESTACK_DIM" axis (first.length + 1) = .ok p) :
    stack first rest axis = .ok out ↔
      (∀ s ∈ rest, s = first) ∧ insertAxis p (rest.length + 1) first = out := by
  simp [stack_eq_ok_iff, hmany, hp, insertAxis]

/-- Shapes have a stack when they have one rank and, with a new axis of size one each, a
concatenation along it, and then the two are the same. -/
theorem stack_eq_ok_iff_concat (hmany : rest ≠ [])
    (hp : normalizeAxis "ESTACK_DIM" axis (first.length + 1) = .ok p) :
    stack first rest axis = .ok out ↔
      (∀ s ∈ rest, s.length = first.length) ∧
        concat (insertAxis p 1 first) (rest.map (insertAxis p 1)) p = .ok out := by
  have hle : p ≤ first.length := by
    have := (normalizeAxis_eq_ok_iff.mp hp).2
    omega
  have hmany' : rest.map (insertAxis p 1) ≠ [] := by simpa using hmany
  rw [stack_eq_ok_iff_insertAxis hmany hp, concat_natCast_eq_ok_iff hmany', ← List.map_cons]
  constructor
  · intro h
    have hlength : ∀ s ∈ rest, s.length = first.length := by
      intro s hs
      rw [h.1 s hs]
    exact ⟨hlength, (isJoined_insertAxis_iff hle hlength).mpr h⟩
  · rintro ⟨hlength, h⟩
    exact (isJoined_insertAxis_iff hle hlength).mp h

theorem stack_eq_error (hmany : rest ≠ [])
    (hout : axis < -((first.length : Int) + 1) ∨ (first.length : Int) < axis) :
    stack first rest axis = .error (.axisOutOfRange "ESTACK_DIM"
      (if axis < 0 then axis + (first.length + 1) else axis) (first.length + 1)) := by
  have hne : rest.isEmpty = false := by simpa using hmany
  unfold stack
  rw [hne, normalizeAxis_eq_error (by omega)]
  rfl

/-- **Stacks.** The new axis of a stack of two or more shapes lies in front of an axis of
the first shape, or behind the last one, counted from either end. The shapes have a stack
exactly when they have one rank and, with an axis of size one in this position each, a
concatenation along it. The two are the same shape, with one axis more, and with the
number of shapes as its size. Any other axis is reported as out of range, in an error that
can be told if the axis and the rank can. -/
theorem stack_insertAxis (first : Shape) (rest : List Shape) (axis : Int) (hmany : rest ≠ []) :
    (-((first.length : Int) + 1) ≤ axis → axis ≤ first.length →
      ∃ p : Nat, (p : Int) = (if axis < 0 then axis + (first.length + 1) else axis) ∧
        ∀ out, (stack first rest axis = .ok out ↔
            (∀ s ∈ rest, s.length = first.length) ∧
              concat (insertAxis p 1 first) (rest.map (insertAxis p 1)) p = .ok out) ∧
          (stack first rest axis = .ok out →
            out.length = first.length + 1 ∧ out[p]? = some ((rest.length : Int) + 1))) ∧
    (axis < -((first.length : Int) + 1) ∨ (first.length : Int) < axis →
      ∃ defect, stack first rest axis = .error defect ∧ defect.code = "ESTACK_DIM" ∧
        (Decimal.isWritable axis = true → first.length + 1 < Decimal.bound →
          defect.isWritable = true)) := by
  constructor
  · intro hge hle
    obtain ⟨p, hp⟩ : ∃ p, normalizeAxis "ESTACK_DIM" axis (first.length + 1) = .ok p :=
      exists_normalizeAxis_iff.mpr ⟨hge, by omega⟩
    obtain ⟨hfront, hlt⟩ := normalizeAxis_eq_ok_iff.mp hp
    refine ⟨p, hfront, ?_⟩
    intro out
    refine ⟨stack_eq_ok_iff_concat hmany hp, ?_⟩
    intro hout
    obtain ⟨_, rfl⟩ := (stack_eq_ok_iff_insertAxis hmany hp).mp hout
    exact ⟨length_insertAxis p _ first, getElem?_insertAxis (by omega) _⟩
  · intro hout
    refine ⟨_, stack_eq_error hmany hout, rfl, ?_⟩
    intro haxis hrank
    simp only [Decimal.isWritable, decide_eq_true_eq] at haxis
    simp only [Defect.isWritable, Defect.integers, List.all_cons, List.all_nil, Bool.and_true,
      Bool.and_eq_true, Decimal.isWritable, decide_eq_true_eq]
    refine ⟨?_, by omega⟩
    split <;> omega

/-- Two shapes, stacked behind their last axis and concatenated along a new axis there. Two
numbers have no second place for an axis. -/
theorem stack_insertAxis_pair :
    [[2, 3]] ≠ ([] : List Shape) ∧ stack [2, 3] [[2, 3]] (-1) = .ok [2, 3, 2] ∧
      concat [2, 3, 1] [[2, 3, 1]] 2 = .ok [2, 3, 2] ∧
      ∃ defect, stack [] [[]] 1 = .error defect ∧ defect.code = "ESTACK_DIM" := by
  have hstack : stack [2, 3] [[2, 3]] (-1) = .ok [2, 3, 2] := rfl
  obtain ⟨hinside, _⟩ := stack_insertAxis [2, 3] [[2, 3]] (-1) (List.cons_ne_nil _ _)
  obtain ⟨p, hp, hboth⟩ := hinside (by decide) (by decide)
  obtain rfl : p = 2 := Int.ofNat.inj hp
  obtain ⟨_, houtside⟩ := stack_insertAxis [] [[]] 1 (List.cons_ne_nil _ _)
  obtain ⟨defect, hdefect, hcode, _⟩ := houtside (Or.inr (by decide))
  exact ⟨List.cons_ne_nil _ _, hstack, ((hboth _).1.mp hstack).2, defect, hdefect, hcode⟩

/-- An axis that is out of range and too long to write is not reported. -/
theorem stack_untold :
    (1 : Int) < Decimal.bound ∧
      ∀ tag, Fault.ofShape tag (stack [2] [[2]] Decimal.bound) = .error (.misuse .badValue) := by
  have hbound := Decimal.byte_lt_bound
  have hout : (1 : Int) < Decimal.bound := by omega
  have hfront : ¬ (Decimal.bound : Int) < 0 := by omega
  have hbehind : (([2] : Shape).length : Int) < Decimal.bound := by simpa using hout
  refine ⟨hout, ?_⟩
  intro tag
  apply Fault.ofShape_eq_badValue (stack_eq_error (List.cons_ne_nil _ _) (.inr hbehind))
  simp [Defect.isWritable, Defect.integers, hfront]

end GraphShapes.Shape
