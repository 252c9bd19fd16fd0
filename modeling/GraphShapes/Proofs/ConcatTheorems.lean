/-
GraphShapes.Proofs.ConcatTheorems — shapes joined along an axis.

Shapes can be joined along an axis when they differ in its size at most (`Aligned`). Being
aligned is an equivalence, and a joined shape belongs to the class of its parts: it is the
one of them whose size along the axis is the sum of theirs (`IsJoined`). The loop over the
shapes, and over the axes of each, finds just that shape (`concatAll?_eq_ok_iff`).
`IsJoined` speaks of the members of a list and of a sum over it, so it does not see their
order (`IsJoined.perm`), and groups of shapes may be joined before the whole is
(`isJoined_flatten_iff`).

  §1 Alignment     — shapes that differ along one axis at most.
  §2 Joining       — what the loops over axes and shapes come to.
  §3 Concatenation — which lists of shapes have one, and the order of a list.
  §4 Groups        — shapes that are joined group by group.
-/
import GraphShapes.Proofs.ShapeTheorems
import Mathlib.Algebra.BigOperators.Group.List.Basic
import Mathlib.Algebra.Ring.Int.Defs

namespace GraphShapes.Shape

variable {a b c first shape out : Shape} {shapes others rest : List Shape}
  {groups : List (List Shape)} {i j : Nat} {n axis : Int}

/-! ## §1 Alignment -/

/-- Shapes that differ along one axis at most: they have as many axes, and along all others
the same sizes. -/
def Aligned (i : Nat) (a b : Shape) : Prop :=
  a.length = b.length ∧ ∀ j, j ≠ i → a[j]? = b[j]?

theorem aligned_refl (i : Nat) (a : Shape) : Aligned i a a := ⟨rfl, fun _ _ => rfl⟩

theorem Aligned.symm (h : Aligned i a b) : Aligned i b a :=
  ⟨h.1.symm, fun j hj => (h.2 j hj).symm⟩

theorem Aligned.trans (h : Aligned i a b) (h' : Aligned i b c) : Aligned i a c :=
  ⟨h.1.trans h'.1, fun j hj => (h.2 j hj).trans (h'.2 j hj)⟩

theorem aligned_set (i : Nat) (a : Shape) (n : Int) : Aligned i a (a.set i n) := by
  constructor
  · simp
  · intro j hj
    rw [List.getElem?_set_ne hj.symm]

theorem getD_set_self (h : i < a.length) (n : Int) : (a.set i n).getD i 0 = n := by
  simp [List.getD_eq_getElem?_getD, h]

theorem set_getD_self (i : Nat) (a : Shape) : a.set i (a.getD i 0) = a := by
  apply List.ext_getElem
  · simp
  · intro j _ hj
    rw [List.getElem_set]
    split
    · next hij => simp [hij, hj]
    · rfl

/-- Aligned shapes are one shape with different sizes along the axis. -/
theorem aligned_iff_set (n : Int) : Aligned i a b ↔ a.set i n = b.set i n := by
  constructor
  · rintro ⟨hlength, hsizes⟩
    apply List.ext_getElem?
    intro j
    rw [List.getElem?_set, List.getElem?_set, hlength]
    split
    · rfl
    · next hij => exact hsizes j (Ne.symm hij)
  · intro h
    exact (aligned_set i a n).trans (h ▸ (aligned_set i b n).symm)

theorem Aligned.set_eq (h : Aligned i a b) : b.set i (a.getD i 0) = a := by
  rw [← (aligned_iff_set _).mp h, set_getD_self]

@[simp] theorem aligned_set_left_iff : Aligned i (a.set i n) b ↔ Aligned i a b :=
  ⟨(aligned_set i a n).trans, (aligned_set i a n).symm.trans⟩

theorem aligned_cons_zero_iff {x y : Int} : Aligned 0 (x :: a) (y :: b) ↔ a = b := by
  rw [aligned_iff_set 0]
  simp

theorem aligned_cons_succ_iff {x y : Int} :
    Aligned (i + 1) (x :: a) (y :: b) ↔ x = y ∧ Aligned i a b := by
  rw [aligned_iff_set 0, aligned_iff_set 0]
  simp

/-! ## §2 Joining -/

/-- Behind the axis along which two shapes are joined they have to be the same. -/
theorem join_eq_ok_iff_of_lt (hlt : i < j) (hlength : a.length = b.length) :
    join i j a b = .ok out ↔ a = b ∧ a = out := by
  induction a generalizing b j out with
  | nil =>
    obtain rfl := List.length_eq_zero_iff.mp hlength.symm
    simp
  | cons x a ih =>
    cases b with
    | nil => cases hlength
    | cons y b =>
      have hne : j ≠ i := by omega
      simp only [join_cons_eq_ok_iff, ih (Nat.lt_succ_of_lt hlt) (Nat.succ.inj hlength), hne,
        if_false, ne_eq, not_false_eq_true, true_implies, List.cons.injEq]
      constructor
      · rintro ⟨rfl, _, ⟨rfl, rfl⟩, rfl⟩
        exact ⟨⟨rfl, rfl⟩, rfl⟩
      · rintro ⟨⟨rfl, rfl⟩, rfl⟩
        exact ⟨rfl, _, ⟨rfl, rfl⟩, rfl⟩

/-- Two shapes are joined when they are aligned, and then their sizes along the axis are
added. In the loop, `j` axes lie in front. -/
theorem join_eq_ok_iff (hlt : i < a.length) (hlength : a.length = b.length) :
    join (j + i) j a b = .ok out ↔
      Aligned i a b ∧ a.set i (a.getD i 0 + b.getD i 0) = out := by
  induction a generalizing b i j out with
  | nil => cases hlt
  | cons x a ih =>
    cases b with
    | nil => cases hlength
    | cons y b =>
      have hlength' : a.length = b.length := Nat.succ.inj hlength
      rw [join_cons_eq_ok_iff]
      cases i with
      | zero =>
        simp only [Nat.add_zero, join_eq_ok_iff_of_lt (Nat.lt_succ_self j) hlength',
          aligned_cons_zero_iff]
        simp
      | succ i =>
        have hbehind : join (j + (i + 1)) (j + 1) a b = join (j + 1 + i) (j + 1) a b := by
          rw [Nat.add_right_comm j 1 i]
          rfl
        simp only [hbehind, ih (Nat.lt_of_succ_lt_succ hlt) hlength', aligned_cons_succ_iff]
        simp [and_assoc]

/-- The sizes of shapes along one axis. -/
def sizesAlong (i : Nat) (shapes : List Shape) : List Int := shapes.map fun s => s.getD i 0

theorem sizesAlong_cons (i : Nat) (s : Shape) (shapes : List Shape) :
    sizesAlong i (s :: shapes) = s.getD i 0 :: sizesAlong i shapes := rfl

/-- Further shapes are joined to a shape when they are aligned with it, and then all sizes
along the axis are added. -/
theorem joinAll_eq_ok_iff (hlt : i < shape.length) :
    joinAll i shape rest = .ok out ↔
      (∀ s ∈ rest, Aligned i shape s) ∧
        shape.set i (sizesAlong i (shape :: rest)).sum = out := by
  induction rest generalizing shape with
  | nil => simp [joinAll, sizesAlong, -List.getD_eq_getElem?_getD, set_getD_self]
  | cons s rest ih =>
    have hjoin (hlength : shape.length = s.length) (joined : Shape) :
        join i 0 shape s = .ok joined ↔
          Aligned i shape s ∧ shape.set i (shape.getD i 0 + s.getD i 0) = joined := by
      have h : join (0 + i) 0 shape s = .ok joined ↔ _ := join_eq_ok_iff hlt hlength
      rwa [Nat.zero_add] at h
    have hrest (n : Int) :
        joinAll i (shape.set i n) rest = .ok out ↔
          (∀ t ∈ rest, Aligned i shape t) ∧
            shape.set i (n + (sizesAlong i rest).sum) = out := by
      rw [ih (by simpa using hlt)]
      simp only [aligned_set_left_iff, sizesAlong_cons, getD_set_self hlt, List.sum_cons,
        List.set_set]
    rw [joinAll_cons_eq_ok_iff, List.forall_mem_cons]
    simp only [sizesAlong_cons, List.sum_cons, ← add_assoc]
    constructor
    · rintro ⟨hlength, joined, hs, hout⟩
      obtain ⟨haligned, rfl⟩ := (hjoin hlength.symm joined).mp hs
      obtain ⟨hothers, hout⟩ := (hrest _).mp hout
      exact ⟨⟨haligned, hothers⟩, hout⟩
    · rintro ⟨⟨haligned, hothers⟩, hout⟩
      exact ⟨haligned.1.symm, _, (hjoin haligned.1 _).mpr ⟨haligned, rfl⟩,
        (hrest _).mpr ⟨hothers, hout⟩⟩

/-! ## §3 Concatenation -/

/-- A shape that shapes are joined to along one of its axes: it is aligned with all of them,
and has the sum of their sizes along the axis. -/
structure IsJoined (i : Nat) (shapes : List Shape) (out : Shape) : Prop where
  lt_rank : i < out.length
  aligned : ∀ s ∈ shapes, Aligned i out s
  size_eq : out.getD i 0 = (sizesAlong i shapes).sum

theorem isJoined_cons_iff :
    IsJoined i (first :: rest) out ↔
      i < first.length ∧ (∀ s ∈ rest, Aligned i first s) ∧
        first.set i (sizesAlong i (first :: rest)).sum = out := by
  constructor
  · rintro ⟨hlt, haligned, hsize⟩
    obtain ⟨hfirst, hrest⟩ := List.forall_mem_cons.mp haligned
    refine ⟨hfirst.1 ▸ hlt, ?_, ?_⟩
    · intro s hs
      exact hfirst.symm.trans (hrest s hs)
    · rw [← hsize, hfirst.set_eq]
  · rintro ⟨hlt, haligned, rfl⟩
    refine ⟨by simpa using hlt, ?_, getD_set_self hlt _⟩
    simp only [aligned_set_left_iff, List.forall_mem_cons]
    exact ⟨aligned_refl i first, haligned⟩

/-- A shape alone is joined to itself. -/
theorem isJoined_singleton_iff : IsJoined i [first] out ↔ i < first.length ∧ first = out := by
  rw [isJoined_cons_iff]
  simp [sizesAlong, -List.getD_eq_getElem?_getD, set_getD_self]

/-- Two or more shapes have a concatenation when they can be joined along the axis. -/
theorem concat_eq_ok_iff_isJoined (hmany : rest ≠ []) :
    concat first rest axis = .ok out ↔
      ∃ i, normalizeAxis "ECONCAT_DIM" axis out.length = .ok i ∧
        IsJoined i (first :: rest) out := by
  simp only [concat_eq_ok_iff, hmany, false_and, false_or, ne_eq, not_false_eq_true, true_and]
  refine exists_congr fun i => ?_
  constructor
  · rintro ⟨hi, hout⟩
    have hlt : i < first.length := lt_of_normalizeAxis hi
    have hjoined : IsJoined i (first :: rest) out :=
      isJoined_cons_iff.mpr ⟨hlt, (joinAll_eq_ok_iff hlt).mp hout⟩
    have hlength : out.length = first.length := (hjoined.aligned first List.mem_cons_self).1
    exact ⟨hlength ▸ hi, hjoined⟩
  · rintro ⟨hi, hjoined⟩
    have hlength : out.length = first.length := (hjoined.aligned first List.mem_cons_self).1
    obtain ⟨hlt, haligned, hout⟩ := isJoined_cons_iff.mp hjoined
    exact ⟨hlength ▸ hi, (joinAll_eq_ok_iff hlt).mpr ⟨haligned, hout⟩⟩

/-- An axis counted from the front is its own position. -/
theorem concat_natCast_eq_ok_iff (hmany : rest ≠ []) :
    concat first rest (i : Int) = .ok out ↔ IsJoined i (first :: rest) out := by
  rw [concat_eq_ok_iff_isJoined hmany]
  constructor
  · rintro ⟨j, hj, h⟩
    have hfront := (normalizeAxis_eq_ok_iff.mp hj).1
    obtain rfl : j = i := by omega
    exact h
  · intro h
    have hlt : i < out.length := h.lt_rank
    exact ⟨i, normalizeAxis_eq_ok_iff.mpr (by omega), h⟩

/-- Two or more shapes of a list have a concatenation when they can be joined along the
axis. -/
theorem concatAll?_eq_ok_iff (hmany : 2 ≤ shapes.length) :
    concatAll? shapes axis = some (.ok out) ↔
      ∃ i, normalizeAxis "ECONCAT_DIM" axis out.length = .ok i ∧ IsJoined i shapes out := by
  cases shapes with
  | nil => simp at hmany
  | cons first rest =>
    have hrest : rest ≠ [] := by
      rintro rfl
      simp at hmany
    rw [concatAll?, Option.some.injEq, concat_eq_ok_iff_isJoined hrest]

/-- With the position of the axis at hand, the same holds of a shape alone. -/
theorem concatAll?_eq_ok_iff_of_axis (hne : shapes ≠ [])
    (hi : normalizeAxis "ECONCAT_DIM" axis out.length = .ok i) :
    concatAll? shapes axis = some (.ok out) ↔ IsJoined i shapes out := by
  by_cases hmany : 2 ≤ shapes.length
  · rw [concatAll?_eq_ok_iff hmany]
    simp [hi]
  · obtain ⟨first, rfl⟩ : ∃ first, shapes = [first] := by
      refine List.length_eq_one_iff.mp ?_
      have hpos := List.length_pos_iff.mpr hne
      omega
    rw [isJoined_singleton_iff]
    have hlt : i < out.length := lt_of_normalizeAxis hi
    constructor
    · intro h
      cases h
      exact ⟨hlt, rfl⟩
    · rintro ⟨_, rfl⟩
      rfl

theorem IsJoined.perm (hperm : others.Perm shapes) (h : IsJoined i shapes out) :
    IsJoined i others out := by
  have hsizes : (sizesAlong i others).Perm (sizesAlong i shapes) := hperm.map _
  refine ⟨h.lt_rank, ?_, ?_⟩
  · intro s hs
    exact h.aligned s (hperm.mem_iff.mp hs)
  · rw [h.size_eq, hsizes.sum_eq]

/-- There is a shape that shapes are joined to when any two of them are aligned. -/
theorem exists_isJoined_iff (hne : shapes ≠ []) :
    (∃ out, IsJoined i shapes out) ↔
      (∀ s ∈ shapes, i < s.length) ∧ ∀ s ∈ shapes, ∀ t ∈ shapes, Aligned i s t := by
  constructor
  · rintro ⟨out, h⟩
    constructor
    · intro s hs
      exact (h.aligned s hs).1 ▸ h.lt_rank
    · intro s hs t ht
      exact (h.aligned s hs).symm.trans (h.aligned t ht)
  · rintro ⟨hlt, haligned⟩
    obtain ⟨first, rest, rfl⟩ := List.exists_cons_of_ne_nil hne
    have hfirst := List.forall_mem_cons.mp (haligned first List.mem_cons_self)
    exact ⟨_, isJoined_cons_iff.mpr ⟨hlt first List.mem_cons_self, hfirst.2, rfl⟩⟩

/-- Two or more shapes have a concatenation when they have one rank, the axis lies within
it, and all sizes but those along the axis agree. -/
theorem exists_concatAll?_iff (hmany : 2 ≤ shapes.length) :
    (∃ out, concatAll? shapes axis = some (.ok out)) ↔
      ∃ rank : Nat, (∀ s ∈ shapes, s.length = rank) ∧ -(rank : Int) ≤ axis ∧ axis < rank ∧
        ∀ j : Nat, (j : Int) ≠ (if axis < 0 then axis + rank else axis) →
          ∀ s ∈ shapes, ∀ t ∈ shapes, s[j]? = t[j]? := by
  have hne : shapes ≠ [] := List.ne_nil_of_length_pos (by omega)
  simp only [concatAll?_eq_ok_iff hmany]
  constructor
  · rintro ⟨out, i, hi, h⟩
    obtain ⟨hle, hlt⟩ := exists_normalizeAxis_iff.mp ⟨i, hi⟩
    obtain ⟨hfront, _⟩ := normalizeAxis_eq_ok_iff.mp hi
    obtain ⟨_, haligned⟩ := (exists_isJoined_iff hne).mp ⟨out, h⟩
    refine ⟨out.length, ?_, hle, hlt, ?_⟩
    · intro s hs
      exact (h.aligned s hs).1.symm
    · intro j hj s hs t ht
      exact (haligned s hs t ht).2 j (by omega)
  · rintro ⟨rank, hrank, hle, hlt, hsizes⟩
    obtain ⟨i, hi⟩ : ∃ i, normalizeAxis "ECONCAT_DIM" axis rank = .ok i :=
      exists_normalizeAxis_iff.mpr ⟨hle, hlt⟩
    obtain ⟨hfront, _⟩ := normalizeAxis_eq_ok_iff.mp hi
    have hlt' : ∀ s ∈ shapes, i < s.length := by
      intro s hs
      rw [hrank s hs]
      exact lt_of_normalizeAxis hi
    have haligned : ∀ s ∈ shapes, ∀ t ∈ shapes, Aligned i s t := by
      intro s hs t ht
      refine ⟨(hrank s hs).trans (hrank t ht).symm, ?_⟩
      intro j hj
      exact hsizes j (by omega) s hs t ht
    obtain ⟨out, h⟩ := (exists_isJoined_iff hne).mpr ⟨hlt', haligned⟩
    have hout : out.length = rank := by
      obtain ⟨first, hfirst⟩ := List.exists_mem_of_ne_nil shapes hne
      rw [(h.aligned first hfirst).1, hrank first hfirst]
    exact ⟨out, i, hout.symm ▸ hi, h⟩

/-! ## §4 Groups -/

theorem sizesAlong_flatten (i : Nat) (groups : List (List Shape)) :
    (sizesAlong i groups.flatten).sum = (groups.map fun g => (sizesAlong i g).sum).sum := by
  simp only [sizesAlong, List.map_flatten, List.sum_flatten, List.map_map]
  rfl

/-- **Groups.** Shapes are joined to a shape when groups of them are joined to parts, and
these are joined to it. -/
theorem isJoined_flatten_iff :
    IsJoined i groups.flatten out ↔
      ∃ parts, List.Forall₂ (IsJoined i) groups parts ∧ IsJoined i parts out := by
  constructor
  · intro h
    have hgroup : ∀ g ∈ groups, IsJoined i g (out.set i (sizesAlong i g).sum) := by
      intro g hg
      refine ⟨by simpa using h.lt_rank, ?_, getD_set_self h.lt_rank _⟩
      intro s hs
      exact aligned_set_left_iff.mpr (h.aligned s (List.mem_flatten_of_mem hg hs))
    refine ⟨groups.map fun g => out.set i (sizesAlong i g).sum, ?_, h.lt_rank, ?_, ?_⟩
    · exact List.forall₂_map_right_iff.mpr (List.forall₂_same.mpr hgroup)
    · intro part hpart
      obtain ⟨g, _, rfl⟩ := List.mem_map.mp hpart
      exact aligned_set i out _
    · rw [h.size_eq, sizesAlong_flatten, sizesAlong, List.map_map]
      simp only [Function.comp_def, getD_set_self h.lt_rank]
  · rintro ⟨parts, hparts, h⟩
    refine ⟨h.lt_rank, ?_, ?_⟩
    · intro s hs
      obtain ⟨g, hg, hsg⟩ := List.mem_flatten.mp hs
      obtain ⟨part, hpart, hjoined⟩ := exists_of_forall₂_of_mem hparts.flip hg
      exact (h.aligned part hpart).trans (hjoined.aligned s hsg)
    · have hsizes : sizesAlong i parts = groups.map fun g => (sizesAlong i g).sum := by
        rw [sizesAlong, ← List.forall₂_eq_eq_eq, List.forall₂_map_left_iff,
          List.forall₂_map_right_iff]
        exact hparts.flip.imp fun part g hpart => hpart.size_eq
      rw [h.size_eq, hsizes, sizesAlong_flatten]

/-- Groups of shapes have concatenations that have one together when all the shapes can be
joined along the axis. -/
theorem exists_concatAll?_groups_iff (hne : [] ∉ groups) (hmany : 2 ≤ groups.length) :
    (∃ parts, List.Forall₂ (fun g part => concatAll? g axis = some (.ok part)) groups parts ∧
        concatAll? parts axis = some (.ok out)) ↔
      ∃ i, normalizeAxis "ECONCAT_DIM" axis out.length = .ok i ∧
        IsJoined i groups.flatten out := by
  -- A part has as many axes as the whole, so the axis has the same position in it.
  have hgroups (i : Nat) (parts : List Shape)
      (hi : normalizeAxis "ECONCAT_DIM" axis out.length = .ok i) (h : IsJoined i parts out) :
      List.Forall₂ (fun g part => concatAll? g axis = some (.ok part)) groups parts ↔
        List.Forall₂ (IsJoined i) groups parts := by
    apply forall₂_congr_of_mem
    intro g hg part hpart
    apply concatAll?_eq_ok_iff_of_axis (ne_of_mem_of_not_mem hg hne)
    rw [← (h.aligned part hpart).1]
    exact hi
  constructor
  · rintro ⟨parts, hparts, hout⟩
    obtain ⟨i, hi, h⟩ := (concatAll?_eq_ok_iff (hparts.length_eq ▸ hmany)).mp hout
    exact ⟨i, hi, isJoined_flatten_iff.mpr ⟨parts, (hgroups i parts hi h).mp hparts, h⟩⟩
  · rintro ⟨i, hi, hwhole⟩
    obtain ⟨parts, hparts, h⟩ := isJoined_flatten_iff.mp hwhole
    refine ⟨parts, (hgroups i parts hi h).mpr hparts, ?_⟩
    exact (concatAll?_eq_ok_iff (hparts.length_eq ▸ hmany)).mpr ⟨i, hi, h⟩

/-- **Concatenation.** Two or more shapes have a concatenation exactly when they have one
rank, the axis lies within it, and all sizes but those along the axis agree. It has the
sum of the sizes along the axis, and the sizes that the shapes share. In another order the
shapes have the same concatenation or, like them, none. So they do when they are cut into
two or more groups that are concatenated before the results are. -/
theorem concatAll?_compatible (shapes : List Shape) (axis : Int) (hmany : 2 ≤ shapes.length) :
    ((∃ out, concatAll? shapes axis = some (.ok out)) ↔
      ∃ rank : Nat, (∀ s ∈ shapes, s.length = rank) ∧ -(rank : Int) ≤ axis ∧ axis < rank ∧
        ∀ j : Nat, (j : Int) ≠ (if axis < 0 then axis + rank else axis) →
          ∀ s ∈ shapes, ∀ t ∈ shapes, s[j]? = t[j]?) ∧
    (∀ out, concatAll? shapes axis = some (.ok out) →
      ∃ i : Nat, (i : Int) = (if axis < 0 then axis + out.length else axis) ∧
        out[i]? = some (sizesAlong i shapes).sum ∧
        ∀ s ∈ shapes, out.length = s.length ∧ ∀ j, j ≠ i → out[j]? = s[j]?) ∧
    (∀ others, others.Perm shapes → ∀ out,
      concatAll? others axis = some (.ok out) ↔ concatAll? shapes axis = some (.ok out)) ∧
    (∀ groups, groups.flatten = shapes → [] ∉ groups → 2 ≤ groups.length → ∀ out,
      (∃ parts, List.Forall₂ (fun g part => concatAll? g axis = some (.ok part)) groups parts ∧
        concatAll? parts axis = some (.ok out)) ↔ concatAll? shapes axis = some (.ok out)) := by
  refine ⟨exists_concatAll?_iff hmany, ?_, ?_, ?_⟩
  · intro out hout
    obtain ⟨i, hi, h⟩ := (concatAll?_eq_ok_iff hmany).mp hout
    refine ⟨i, (normalizeAxis_eq_ok_iff.mp hi).1, ?_, h.aligned⟩
    rw [← h.size_eq]
    simp [List.getD_eq_getElem?_getD, h.lt_rank]
  · intro others hperm out
    have hjoined (i : Nat) : IsJoined i others out ↔ IsJoined i shapes out :=
      ⟨IsJoined.perm hperm.symm, IsJoined.perm hperm⟩
    rw [concatAll?_eq_ok_iff hmany, concatAll?_eq_ok_iff (hperm.length_eq ▸ hmany)]
    simp only [hjoined]
  · rintro groups rfl hne hgroups out
    rw [exists_concatAll?_groups_iff hne hgroups, concatAll?_eq_ok_iff hmany]

/-- Three shapes along their last axis, the same in another order, and with the last two of
them concatenated first. -/
theorem concatAll?_compatible_three :
    2 ≤ [[2, 3], [2, 1], [2, 0]].length ∧
      concatAll? [[2, 3], [2, 1], [2, 0]] (-1) = some (.ok [2, 4]) ∧
      concatAll? [[2, 0], [2, 3], [2, 1]] (-1) = some (.ok [2, 4]) ∧
      ∃ parts, List.Forall₂ (fun g part => concatAll? g (-1) = some (.ok part))
        [[[2, 3]], [[2, 1], [2, 0]]] parts ∧ concatAll? parts (-1) = some (.ok [2, 4]) := by
  have hout : concatAll? [[2, 3], [2, 1], [2, 0]] (-1) = some (.ok [2, 4]) := rfl
  obtain ⟨_, _, horder, hgroups⟩ :=
    concatAll?_compatible [[2, 3], [2, 1], [2, 0]] (-1) (by decide)
  exact ⟨by decide, hout, (horder _ (by decide) _).mpr hout,
    (hgroups [[[2, 3]], [[2, 1], [2, 0]]] rfl (by decide) (by decide) _).mpr hout⟩

end GraphShapes.Shape
