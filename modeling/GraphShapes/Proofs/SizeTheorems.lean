/-
GraphShapes.Proofs.SizeTheorems — reshapes and the number of elements.

All that a reshape asks of a shape is how many elements it has, so shapes of one
size are reshaped alike (`reshape_congr`). An open size of a target is a factor of the
number of elements that the filled target has (`size_fill`). To fill it is to divide,
and it is determined when the other sizes have a product that is not zero and divides
the number of elements (`existsUnique_mul_eq_iff`).

A target that leaves no size open is tested by the same division, and then taken as it
is (`reshape_eq_ok_iff_of_closed`). Its number of elements divides the shape's; that the
two are the same is tested only where there are none.

The message of a refusal shows the number of elements and the target, and there is none
if these are too long to write (`reshape_untold`).

  §1 Elements — the number of elements, and when a target fits it.
  §2 Closed   — targets that give every size.
  §3 Open     — targets that leave one size open.
  §4 Either   — what is kept, and where it is not.
-/
import GraphShapes.Fault
import GraphShapes.Proofs.NonnegTheorems
import Mathlib.Algebra.BigOperators.Ring.List
import Mathlib.Algebra.Order.Ring.Int

namespace GraphShapes.Shape

variable {shape other target out : Shape} {explicit total : Int} {defect : Defect}

/-! ## §1 Elements -/

/-- A target with one size in all the places that it leaves open. -/
def fill (target : Shape) (d : Int) : Shape := target.map fun n => if n = -1 then d else n

@[simp] theorem size_nil : size [] = 1 := rfl

@[simp] theorem size_cons (n : Int) (shape : Shape) : size (n :: shape) = n * size shape := rfl

/-- There are no elements if one of the sizes is zero. -/
theorem size_eq_zero_iff : size shape = 0 ↔ 0 ∈ shape := List.prod_eq_zero_iff

/-- The open sizes and the others are the factors of the number of elements. -/
theorem size_fill (target : Shape) (d : Int) :
    size (fill target d) = d ^ target.countP (· = -1) * size (explicitSizes target) := by
  unfold fill explicitSizes
  induction target with
  | nil => simp
  | cons n target ih =>
    rw [List.map_cons, size_cons, ih]
    by_cases hn : n = -1
    · simp [hn, pow_succ', mul_assoc]
    · simp [hn, mul_left_comm]

/-- Shapes with the same number of elements are reshaped alike, whether they can be or
not. -/
theorem reshape_congr (h : size shape = size other) (target : Shape) :
    reshape shape target = reshape other target := by
  unfold reshape
  rw [h]

theorem reshape_eq_ok_iff_fill :
    reshape shape target = .ok out ↔
      target.countP (· = -1) ≤ 1 ∧
        size (explicitSizes target) ∣ size shape ∧
        (size (explicitSizes target) = 0 → target.countP (· = -1) = 0) ∧
        (∀ n ∈ target, -1 ≤ n) ∧
        fill target (size shape / size (explicitSizes target)) = out := by
  rw [reshape_eq_ok_iff, fits_iff, and_assoc]
  rfl

/-- A target with no more than one open size is refused for its number of elements. -/
theorem eq_reshapeSize_of_reshape_eq_error (hopen : target.countP (· = -1) ≤ 1)
    (h : reshape shape target = .error defect) : defect = .reshapeSize target (size shape) := by
  unfold reshape at h
  simp only [gt_iff_lt, Nat.not_lt.mpr hopen, if_false] at h
  split at h
  · exact (Except.error.inj h).symm
  · cases h

/-! ## §2 Closed -/

theorem explicitSizes_of_closed (h : -1 ∉ target) : explicitSizes target = target := by
  refine List.filter_eq_self.mpr fun n hn => ?_
  simpa using ne_of_mem_of_not_mem hn h

theorem fill_of_closed (h : -1 ∉ target) (d : Int) : fill target d = target := by
  refine (List.map_congr_left fun n hn => ?_).trans (List.map_id target)
  exact if_neg (ne_of_mem_of_not_mem hn h)

/-- A target that gives every size is taken as it is, if none is below zero and its
number of elements divides that of the shape. -/
theorem reshape_eq_ok_iff_of_closed (h : -1 ∉ target) :
    reshape shape target = .ok out ↔
      target.Nonneg ∧ size target ∣ size shape ∧ out = target := by
  have hclosed : target.countP (· = -1) = 0 := countP_open_eq_zero_iff.mpr h
  have hleast : (∀ n ∈ target, -1 ≤ n) ↔ target.Nonneg := by
    refine forall₂_congr fun n hn => ?_
    have hne : n ≠ -1 := ne_of_mem_of_not_mem hn h
    omega
  rw [reshape_eq_ok_iff_fill, explicitSizes_of_closed h, fill_of_closed h, hclosed, hleast]
  simp only [Nat.zero_le, implies_true, true_and, eq_comm (a := target)]
  exact and_left_comm

/-! ## §3 Open -/

/-- The open size is a factor of the number of elements, the others are the other one. -/
theorem size_fill_of_open (h : target.countP (· = -1) = 1) (d : Int) :
    size (fill target d) = d * size (explicitSizes target) := by
  rw [size_fill, h, pow_one]

/-- A factor is determined when the other one is not zero and divides the product. -/
theorem existsUnique_mul_eq_iff (hexplicit : 0 ≤ explicit) (htotal : 0 ≤ total) :
    (∃! d : Int, 0 ≤ d ∧ d * explicit = total) ↔ explicit ≠ 0 ∧ explicit ∣ total := by
  constructor
  · rintro ⟨d, ⟨hd, rfl⟩, hunique⟩
    refine ⟨?_, Dvd.intro_left d rfl⟩
    rintro rfl
    -- Next to a factor of zero any other would do as well.
    have hnext : d + 1 = d := hunique (d + 1) ⟨by omega, by simp⟩
    omega
  · rintro ⟨hne, hdvd⟩
    refine ⟨total / explicit, ⟨Int.ediv_nonneg htotal hexplicit, Int.ediv_mul_cancel hdvd⟩, ?_⟩
    rintro d ⟨_, rfl⟩
    exact (Int.mul_ediv_cancel d hne).symm

/-- With one size left open, a target is taken if the others have a product that is not
zero and divides the number of elements. -/
theorem reshape_eq_ok_iff_of_open (hopen : target.countP (· = -1) = 1)
    (hleast : ∀ n ∈ target, -1 ≤ n) :
    reshape shape target = .ok out ↔
      (size (explicitSizes target) ≠ 0 ∧ size (explicitSizes target) ∣ size shape) ∧
        fill target (size shape / size (explicitSizes target)) = out := by
  rw [reshape_eq_ok_iff_fill, hopen]
  constructor
  · rintro ⟨_, hdvd, hzero, _, hout⟩
    exact ⟨⟨fun hexplicit => absurd (hzero hexplicit) Nat.one_ne_zero, hdvd⟩, hout⟩
  · rintro ⟨⟨hne, hdvd⟩, hout⟩
    exact ⟨Nat.le_refl 1, hdvd, fun hexplicit => absurd hexplicit hne, hleast, hout⟩

/-- A target that leaves a size open is filled to the shape's number of elements. -/
theorem size_eq_of_reshape_open (hopen : -1 ∈ target) (h : reshape shape target = .ok out) :
    size out = size shape := by
  obtain ⟨hle, hdvd, _, _, rfl⟩ := reshape_eq_ok_iff_fill.mp h
  have hne : target.countP (· = -1) ≠ 0 := fun hzero => countP_open_eq_zero_iff.mp hzero hopen
  rw [size_fill_of_open (by omega), Int.ediv_mul_cancel hdvd]

/-- **Open sizes.** A target that leaves one size open is taken exactly when there is one
size, and no other, that gives the shape's number of elements, and then that size is
filled in. Otherwise the number of elements is reported, in an error that can be told if
it and the target's sizes can. A shape that was made so is reshaped further as the first
shape is. -/
theorem reshape_openSize (shape target : Shape) (hshape : shape.Nonneg)
    (hopen : target.count (-1) = 1) (hleast : ∀ n ∈ target, -1 ≤ n) :
    ((∃ out, reshape shape target = .ok out) ↔
      ∃! d : Int, 0 ≤ d ∧ size (fill target d) = size shape) ∧
    (∀ out, reshape shape target = .ok out →
      (∃ d, 0 ≤ d ∧ size (fill target d) = size shape ∧ out = fill target d) ∧
        ∀ next, reshape out next = reshape shape next) ∧
    (∀ defect, reshape shape target = .error defect →
      defect.code = "ERESHAPE_SIZE" ∧
        ((∀ n ∈ size shape :: target, Decimal.isWritable n = true) →
          defect.isWritable = true)) := by
  have hcount : target.countP (· = -1) = 1 := by
    rw [← hopen, List.count_eq_countP]
    exact List.countP_congr fun n _ => by simp
  have hexplicit : 0 ≤ size (explicitSizes target) := size_nonneg (nonneg_explicitSizes hleast)
  have hmem : -1 ∈ target := List.count_pos_iff.mp (by omega)
  refine ⟨?_, fun out hout => ⟨?_, ?_⟩, fun defect hdefect => ?_⟩
  · simp only [size_fill_of_open hcount, reshape_eq_ok_iff_of_open hcount hleast,
      existsUnique_mul_eq_iff hexplicit (size_nonneg hshape), exists_and_left, exists_eq', and_true]
  · obtain ⟨⟨_, hdvd⟩, rfl⟩ := (reshape_eq_ok_iff_of_open hcount hleast).mp hout
    refine ⟨_, Int.ediv_nonneg (size_nonneg hshape) hexplicit, ?_, rfl⟩
    rw [size_fill_of_open hcount, Int.ediv_mul_cancel hdvd]
  · exact reshape_congr (size_eq_of_reshape_open hmem hout)
  · obtain rfl := eq_reshapeSize_of_reshape_eq_error (Nat.le_of_eq hcount) hdefect
    refine ⟨rfl, fun hwritable => ?_⟩
    obtain ⟨hsize, htarget⟩ := List.forall_mem_cons.mp hwritable
    simpa [Defect.isWritable, Defect.integers, hsize] using htarget

/-- Of twenty-four elements, the size between four and one can only be six. -/
theorem reshape_openSize_six :
    Nonneg [2, 3, 4] ∧ reshape [2, 3, 4] [4, -1, 1] = .ok [4, 6, 1] ∧
      (∃! d : Int, 0 ≤ d ∧ size (fill [4, -1, 1] d) = size [2, 3, 4]) ∧
      ∀ next, reshape [4, 6, 1] next = reshape [2, 3, 4] next := by
  have hnonneg : Nonneg [2, 3, 4] := by simp [nonneg_nil]
  have hout : reshape [2, 3, 4] [4, -1, 1] = .ok [4, 6, 1] := rfl
  obtain ⟨hdetermined, hnext, _⟩ :=
    reshape_openSize [2, 3, 4] [4, -1, 1] hnonneg (by decide) (by decide)
  exact ⟨hnonneg, hout, hdetermined.mp ⟨_, hout⟩, (hnext _ hout).2⟩

/-- A power of ten is not three times anything. If it is too long to write, no error says so. -/
theorem reshape_untold :
    Nonneg [(Decimal.bound : Int)] ∧
      (¬ ∃! d : Int, 0 ≤ d ∧ size (fill [-1, 3] d) = size [(Decimal.bound : Int)]) ∧
      ∀ tag, Fault.ofShape tag (reshape [(Decimal.bound : Int)] [-1, 3])
        = .error (.misuse .badValue) := by
  have hremainder : Decimal.bound % 3 = 1 := by
    unfold Decimal.bound
    simp [Nat.pow_mod]
  have hthree : (Decimal.bound : Int) % 3 = 1 := by omega
  have hsize : size [(Decimal.bound : Int)] = Decimal.bound := by simp [size]
  have herror : reshape [(Decimal.bound : Int)] [-1, 3]
      = .error (.reshapeSize [-1, 3] Decimal.bound) := by
    have hexplicit : size (explicitSizes [-1, 3]) = 3 := rfl
    simp [reshape, fits, hsize, hexplicit, hthree]
  refine ⟨by simp [nonneg_nil], ?_, ?_⟩
  · rintro ⟨d, ⟨-, hd⟩, -⟩
    have htriple : size (fill [-1, 3] d) = d * 3 := by simp [size, fill]
    omega
  · intro tag
    exact Fault.ofShape_eq_badValue herror (by simp [Defect.isWritable, Defect.integers])

/-! ## §4 Either -/

/-- **Elements.** A reshape keeps the number of elements if its target leaves a size open
or asks for a size of zero. A target that gives every size is taken as it is, whenever
its number of elements divides that of the shape. -/
theorem elements_of_reshape (shape target : Shape) :
    ((-1 ∈ target ∨ 0 ∈ target) →
      ∀ out, reshape shape target = .ok out → size out = size shape) ∧
    (-1 ∉ target →
      ∀ out, reshape shape target = .ok out ↔
        target.Nonneg ∧ size target ∣ size shape ∧ out = target) := by
  refine ⟨fun h out hout => ?_, fun hclosed out => reshape_eq_ok_iff_of_closed hclosed⟩
  by_cases hopen : -1 ∈ target
  · exact size_eq_of_reshape_open hopen hout
  · obtain ⟨_, hdvd, rfl⟩ := (reshape_eq_ok_iff_of_closed hopen).mp hout
    have hzero : size out = 0 := size_eq_zero_iff.mpr (h.resolve_left hopen)
    rw [hzero] at hdvd ⊢
    exact (Int.zero_dvd.mp hdvd).symm

/-- **Not every reshape keeps the number of elements.** Six of them become three where a
target asks for three, since three divides six. -/
theorem not_elements_of_reshape :
    ¬ ∀ shape target out : Shape, shape.Nonneg → reshape shape target = .ok out →
      size out = size shape := by
  intro h
  have hsize : size [3] = size [6] := h [6] [3] [3] (by simp [nonneg_nil]) rfl
  exact absurd hsize (by decide)

end GraphShapes.Shape
