/-
GraphShapes.Proofs.TranspositionTheorems — the axes in another order, before or after.

Putting all axes in another order moves sizes and does not change which of them meet: the
sizes of two reordered shapes are in a relation place by place exactly when those of the
shapes are (`forall₂_reorder_iff`). An axis of the reordered shape has the size of the axis
that the list names there, and another size for the one is another size for the other
(`getD_reorder`, `reorder_set`). An operation along an axis asks no more than that of the
shapes that it is given, so it may come before the reordering or after it
(`permute_commutes`). The loops that compare sizes come to two that differ in the order of
the axes, so they may report others; the code of the report is the same, and both can be told
where all sizes can (`SameOutcome`). Elsewhere it may be that only one can (`permute_untold`).

  §1 Orders    — what a reordering keeps, and outcomes that are the same.
  §2 Cuts      — slices and chunks of a reordered shape.
  §3 Joins     — reordered shapes concatenated, and where sizes differ.
  §4 Broadcast — reordered shapes that are stretched.
-/
import GraphShapes.Proofs.BroadcastTheorems
import GraphShapes.Proofs.CutTheorems
import GraphShapes.Proofs.ReorderTheorems

namespace GraphShapes.Shape

variable {a b first out shape : Shape} {rest : List Shape} {axes : List Int} {rank d i : Nat}
  {n start stop step chunks : Int} {defect : Defect}

/-! ## §1 Orders -/

theorem AreAxes.of_perm (hperm : axes.Perm (allAxes rank)) : AreAxes rank axes :=
  ⟨by rw [hperm.length_eq, length_allAxes], hperm.subset⟩

/-- All axes in any order are taken for a shape that has as many. -/
theorem permute_of_perm (hperm : axes.Perm (allAxes rank)) (hlength : shape.length = rank) :
    permute shape axes = .ok (reorder shape axes) :=
  permute_eq_reorder (hlength.symm ▸ AreAxes.of_perm hperm)

/-- What a computation makes of shapes is reordered if it has all the axes. -/
theorem bind_permute_of_perm {x : Except Defect Shape} (hperm : axes.Perm (allAxes rank))
    (hrank : ∀ s, x = .ok s → s.length = rank) :
    (do permute (← x) axes) = x.map fun s => reorder s axes := by
  cases x with
  | error defect => rfl
  | ok s => exact permute_of_perm hperm (hrank s rfl)

/-- **Sizes that meet.** Sizes in the same places are in a relation after all axes are put in
another order exactly when they were before. -/
theorem forall₂_reorder_iff {R : Int → Int → Prop} (hperm : axes.Perm (allAxes rank))
    (ha : a.length = rank) (hb : b.length = rank) :
    List.Forall₂ R (reorder a axes) (reorder b axes) ↔ List.Forall₂ R a b := by
  have hread (axes : List Int) : List.Forall₂ R (reorder a axes) (reorder b axes) ↔
      ∀ axis ∈ axes, R (a.getD axis.toNat 0) (b.getD axis.toNat 0) := by
    unfold reorder
    rw [List.forall₂_map_left_iff, List.forall₂_map_right_iff, List.forall₂_same]
  calc List.Forall₂ R (reorder a axes) (reorder b axes)
      ↔ ∀ axis ∈ axes, R (a.getD axis.toNat 0) (b.getD axis.toNat 0) := hread axes
    _ ↔ ∀ axis ∈ allAxes rank, R (a.getD axis.toNat 0) (b.getD axis.toNat 0) :=
        forall_congr' fun axis => by rw [hperm.mem_iff]
    _ ↔ List.Forall₂ R (reorder a (allAxes rank)) (reorder b (allAxes rank)) :=
        (hread (allAxes rank)).symm
    _ ↔ List.Forall₂ R a b := by rw [reorder_allAxes ha, reorder_allAxes hb]

theorem reorder_eq_reorder_iff (hperm : axes.Perm (allAxes rank)) (ha : a.length = rank)
    (hb : b.length = rank) : reorder a axes = reorder b axes ↔ a = b := by
  have hsizes := forall₂_reorder_iff (R := Eq) hperm ha hb
  rwa [List.forall₂_eq_eq_eq] at hsizes

theorem getD_reorder (hplace : axes[d]? = some (i : Int)) (shape : Shape) :
    (reorder shape axes).getD d 0 = shape.getD i 0 := by
  simp [reorder, hplace]

/-- A place in the list is an axis of a reordered shape, and what it names is one of the
shape. -/
theorem lt_of_place (hperm : axes.Perm (allAxes rank)) (hplace : axes[d]? = some (i : Int))
    (hlength : shape.length = rank) : d < (reorder shape axes).length ∧ i < shape.length := by
  have hd : d < axes.length := (List.getElem?_eq_some_iff.mp hplace).1
  have haxis := mem_allAxes.mp (hperm.subset (List.mem_of_getElem? hplace))
  refine ⟨by simpa using hd, by omega⟩

/-- Another size for an axis is another size for the place that names it. -/
theorem reorder_set (hperm : axes.Perm (allAxes rank)) (hplace : axes[d]? = some (i : Int))
    (hlength : shape.length = rank) (n : Int) :
    reorder (shape.set i n) axes = (reorder shape axes).set d n := by
  have hnodup : axes.Nodup := hperm.nodup_iff.mpr (nodup_allAxes rank)
  obtain ⟨hd, hi⟩ := lt_of_place hperm hplace hlength
  rw [length_reorder] at hd
  apply List.ext_getElem?
  intro j
  by_cases hj : d = j
  · subst hj
    have hlt : d < (reorder shape axes).length := by simpa using hd
    rw [List.getElem?_set_self hlt]
    simp [reorder, hplace, hi]
  · rw [List.getElem?_set_ne hj]
    unfold reorder
    rw [List.getElem?_map, List.getElem?_map]
    cases haxis : axes[j]? with
    | none => rfl
    | some axis =>
      have hother : i ≠ axis.toNat := by
        rintro rfl
        have hnonneg : 0 ≤ axis := (mem_allAxes.mp (hperm.subset (List.mem_of_getElem? haxis))).1
        rw [Int.toNat_of_nonneg hnonneg, ← haxis] at hplace
        exact hj ((List.getElem?_inj hd hnodup).mp hplace)
      simp [List.getElem?_set_ne hother]

/-- A reordered shape has the sizes of the shape. -/
theorem mem_reorder_iff (hperm : axes.Perm (allAxes rank)) (hlength : shape.length = rank) :
    n ∈ reorder shape axes ↔ n ∈ shape :=
  (perm_of_permute (hperm.nodup_iff.mpr (nodup_allAxes rank))
    (permute_of_perm hperm hlength)).mem_iff

/-- The sizes of a shape have texts, and so does the number of them. -/
def IsTellable (shape : Shape) : Prop :=
  shape.length < Decimal.bound ∧ ∀ n ∈ shape, Decimal.isWritable n = true

theorem isTellable_reorder_iff (hperm : axes.Perm (allAxes rank)) (hlength : shape.length = rank) :
    (reorder shape axes).IsTellable ↔ shape.IsTellable := by
  unfold IsTellable
  simp only [mem_reorder_iff hperm hlength, length_reorder, hperm.length_eq, length_allAxes,
    hlength]

/-- The same outcome for shapes: equal results, or errors with one code, which can be told if
the shapes can. -/
structure SameOutcome {α : Type} (shapes : List Shape) (x y : Except Defect α) : Prop where
  code_eq : x.mapError Defect.code = y.mapError Defect.code
  told : (∀ s ∈ shapes, s.IsTellable) → ∀ defect, x = .error defect ∨ y = .error defect →
    defect.isWritable = true

/-- Computations with the same results have the same outcome if no error of either has
another code. -/
theorem SameOutcome.of_forall {α : Type} {shapes : List Shape} {x y : Except Defect α}
    (code : String) (hok : ∀ r, x = .ok r ↔ y = .ok r)
    (hx : ∀ defect, x = .error defect →
      defect.code = code ∧ ((∀ s ∈ shapes, s.IsTellable) → defect.isWritable = true))
    (hy : ∀ defect, y = .error defect →
      defect.code = code ∧ ((∀ s ∈ shapes, s.IsTellable) → defect.isWritable = true)) :
    SameOutcome shapes x y := by
  constructor
  · cases x with
    | ok r => rw [(hok r).mp rfl]
    | error e =>
      cases y with
      | ok r => cases (hok r).mpr rfl
      | error e' => rw [mapError_error, mapError_error, (hx e rfl).1, (hy e' rfl).1]
  · rintro htell defect (h | h)
    · exact (hx defect h).2 htell
    · exact (hy defect h).2 htell

/-! ## §2 Cuts -/

theorem normalizeAxis_natCast {code : String} (hlt : i < rank) :
    normalizeAxis code i rank = .ok i :=
  normalizeAxis_eq_ok_iff.mpr (by omega)

theorem slice_natCast (hlt : i < shape.length) :
    slice shape i start stop step =
      if step < 1 then .error (.sliceStep step)
      else .ok (shape.set i (sliceLength (shape.getD i 0) start stop step)) := by
  unfold slice
  rw [normalizeAxis_natCast hlt]
  split <;> rfl

/-- A slice along a place is one along the axis that the place names. -/
theorem slice_reorder (hperm : axes.Perm (allAxes rank)) (hplace : axes[d]? = some (i : Int))
    (hlength : shape.length = rank) (start stop step : Int) :
    slice (reorder shape axes) d start stop step
      = (do permute (← slice shape i start stop step) axes) := by
  obtain ⟨hd, hi⟩ := lt_of_place hperm hplace hlength
  rw [slice_natCast hd, slice_natCast hi, getD_reorder hplace]
  split
  · rfl
  · rw [ok_bind, permute_of_perm hperm (by simpa using hlength),
      reorder_set hperm hplace hlength]

/-- So are the pieces. -/
theorem chunk_reorder (hperm : axes.Perm (allAxes rank)) (hplace : axes[d]? = some (i : Int))
    (hlength : shape.length = rank) (chunks : Int) :
    chunk (reorder shape axes) chunks d
      = (do (← chunk shape chunks i).mapM fun piece => permute piece axes) := by
  obtain ⟨hd, hi⟩ := lt_of_place hperm hplace hlength
  rw [chunk_of_normalizeAxis (normalizeAxis_natCast hd),
    chunk_of_normalizeAxis (normalizeAxis_natCast hi), getD_reorder hplace]
  split
  · rfl
  · split
    · rfl
    · have hpieces : ∀ piece ∈ (chunkSizes (shape.getD i 0) chunks).map fun n => shape.set i n,
          permute piece axes = .ok (reorder piece axes) := by
        intro piece hpiece
        obtain ⟨n, _, rfl⟩ := List.mem_map.mp hpiece
        exact permute_of_perm hperm (by simpa using hlength)
      rw [ok_bind, mapM_eq_ok hpieces, List.map_map]
      simp only [Function.comp_def, reorder_set hperm hplace hlength]

/-! ## §3 Joins -/

theorem aligned_reorder_iff (hperm : axes.Perm (allAxes rank)) (hplace : axes[d]? = some (i : Int))
    (ha : a.length = rank) (hb : b.length = rank) :
    Aligned d (reorder a axes) (reorder b axes) ↔ Aligned i a b := by
  rw [aligned_iff_set 0, aligned_iff_set 0, ← reorder_set hperm hplace ha,
    ← reorder_set hperm hplace hb,
    reorder_eq_reorder_iff hperm (by simpa using ha) (by simpa using hb)]

theorem sizesAlong_reorder (hplace : axes[d]? = some (i : Int)) (shapes : List Shape) :
    sizesAlong d (shapes.map fun s => reorder s axes) = sizesAlong i shapes := by
  unfold sizesAlong
  rw [List.map_map]
  simp only [Function.comp_def, getD_reorder hplace]

/-- Reordered shapes have a concatenation along a place when the shapes have one along the axis
that the place names, and it is that one reordered. -/
theorem concat_reorder_eq_ok_iff (hperm : axes.Perm (allAxes rank))
    (hplace : axes[d]? = some (i : Int)) (hmany : rest ≠ [])
    (hlength : ∀ s ∈ first :: rest, s.length = rank) :
    concat (reorder first axes) (rest.map fun s => reorder s axes) d = .ok out ↔
      ∃ joined, concat first rest i = .ok joined ∧ reorder joined axes = out := by
  obtain ⟨hfirst, hrest⟩ := List.forall_mem_cons.mp hlength
  obtain ⟨hd, hi⟩ := lt_of_place hperm hplace hfirst
  have hmany' : rest.map (fun s => reorder s axes) ≠ [] := by simpa using hmany
  have haligned : (∀ s ∈ rest.map fun s => reorder s axes, Aligned d (reorder first axes) s) ↔
      ∀ s ∈ rest, Aligned i first s := by
    rw [List.forall_mem_map]
    exact forall₂_congr fun s hs => aligned_reorder_iff hperm hplace hfirst (hrest s hs)
  have hsizes : sizesAlong d (reorder first axes :: rest.map fun s => reorder s axes)
      = sizesAlong i (first :: rest) :=
    sizesAlong_reorder hplace (first :: rest)
  simp only [concat_natCast_eq_ok_iff hmany', concat_natCast_eq_ok_iff hmany, isJoined_cons_iff,
    haligned, hsizes, ← reorder_set hperm hplace hfirst, hd, hi, true_and, and_assoc,
    exists_and_left, exists_eq_left']

/-- Two shapes that are not joined have sizes that differ along another axis. In the loop, `j`
axes lie in front. -/
theorem join_eq_error {j : Nat} (h : join i j a b = .error defect) :
    ∃ k x y, a[k]? = some x ∧ b[k]? = some y ∧ j + k ≠ i ∧
      defect = .concatSizes i x y (j + k) := by
  induction a generalizing b j with
  | nil => simp at h
  | cons x a ih =>
    cases b with
    | nil => simp at h
    | cons y b =>
      have hbehind (size : Int)
          (h : (do return size :: (← join i (j + 1) a b)) = Except.error defect) :
          join i (j + 1) a b = .error defect := by
        rcases bind_eq_error_iff.mp h with hbehind | ⟨_, _, hpure⟩
        · exact hbehind
        · cases hpure
      -- The axis at which the shapes differ is this one, or it lies behind.
      have hcases : (j ≠ i ∧ defect = .concatSizes i x y j) ∨
          join i (j + 1) a b = .error defect := by
        rw [join] at h
        simp only [ok_bind, error_bind] at h
        split at h
        · exact Or.inr (hbehind (x + y) h)
        · next hj =>
          split at h
          · exact Or.inr (hbehind x h)
          · exact Or.inl ⟨hj, (Except.error.inj h).symm⟩
      rcases hcases with ⟨hj, rfl⟩ | hlater
      · exact ⟨0, x, y, rfl, rfl, hj, rfl⟩
      · obtain ⟨k, x', y', hx, hy, hk, rfl⟩ := ih hlater
        refine ⟨k + 1, x', y', hx, hy, by omega, ?_⟩
        rw [Nat.add_right_comm j 1 k, Nat.add_assoc]

/-- Shapes of one rank that are not joined have sizes that differ along another axis. What is
joined already has the sizes of the first one there. -/
theorem joinAll_eq_error (hi : i < shape.length) (hlength : ∀ s ∈ rest, s.length = shape.length)
    (h : joinAll i shape rest = .error defect) :
    ∃ s ∈ rest, ∃ j x y, shape[j]? = some x ∧ s[j]? = some y ∧ j ≠ i ∧
      defect = .concatSizes i x y j := by
  induction rest generalizing shape with
  | nil => cases h
  | cons s rest ih =>
    obtain ⟨hs, hrest⟩ := List.forall_mem_cons.mp hlength
    have hcases : join i 0 shape s = .error defect ∨
        ∃ joined, join i 0 shape s = .ok joined ∧ joinAll i joined rest = .error defect := by
      rw [joinAll, if_neg (not_not.mpr hs)] at h
      exact bind_eq_error_iff.mp h
    rcases hcases with hjoin | ⟨joined, hjoined, hothers⟩
    · obtain ⟨k, x, y, hx, hy, hk, rfl⟩ := join_eq_error hjoin
      rw [Nat.zero_add] at hk ⊢
      exact ⟨s, List.mem_cons_self, k, x, y, hx, hy, hk, rfl⟩
    · rw [← Nat.zero_add i, join_eq_ok_iff hi hs.symm] at hjoined
      obtain ⟨_, rfl⟩ := hjoined
      obtain ⟨t, ht, j, x, y, hx, hy, hj, rfl⟩ :=
        ih (by simpa using hi) (by simpa using hrest) hothers
      rw [List.getElem?_set_ne hj.symm] at hx
      exact ⟨t, List.mem_cons_of_mem s ht, j, x, y, hx, hy, hj, rfl⟩

/-- Why shapes of one rank have no concatenation along one of their axes: two sizes differ. -/
theorem code_of_concat_eq_error (hmany : rest ≠ []) (hi : i < first.length)
    (hlength : ∀ s ∈ rest, s.length = first.length) (h : concat first rest i = .error defect) :
    defect.code = "ECONCAT_DIMS" ∧
      ((∀ s ∈ first :: rest, s.IsTellable) → defect.isWritable = true) := by
  have hjoin : joinAll i first rest = .error defect := by
    rwa [concat, if_neg (by simpa using hmany), normalizeAxis_natCast hi, ok_bind] at h
  obtain ⟨s, hs, j, x, y, hx, hy, _, rfl⟩ := joinAll_eq_error hi hlength hjoin
  refine ⟨rfl, ?_⟩
  intro htell
  obtain ⟨⟨hrank, hsizes⟩, hrest⟩ := List.forall_mem_cons.mp htell
  have hj : j < first.length := (List.getElem?_eq_some_iff.mp hx).1
  have hplace (k : Nat) (hk : k < first.length) : Decimal.isWritable k = true := by
    simp only [Decimal.isWritable, decide_eq_true_eq]
    omega
  simp [Defect.isWritable, Defect.integers, hplace i hi, hplace j hj,
    hsizes x (List.mem_of_getElem? hx), (hrest s hs).2 y (List.mem_of_getElem? hy)]

/-- **Concatenations.** Reordered shapes are concatenated along a place as the shapes are along
the axis that it names. -/
theorem sameOutcome_concat (hperm : axes.Perm (allAxes rank)) (hplace : axes[d]? = some (i : Int))
    (hmany : rest ≠ []) (hlength : ∀ s ∈ first :: rest, s.length = rank) :
    SameOutcome (first :: rest)
      (concat (reorder first axes) (rest.map fun s => reorder s axes) d)
      (do permute (← concat first rest i) axes) := by
  obtain ⟨hfirst, hrest⟩ := List.forall_mem_cons.mp hlength
  obtain ⟨hd, hi⟩ := lt_of_place hperm hplace hfirst
  have hrank : ∀ joined, concat first rest i = .ok joined → joined.length = rank := by
    intro joined hjoined
    have haligned := ((concat_natCast_eq_ok_iff hmany).mp hjoined).aligned first List.mem_cons_self
    exact haligned.1.trans hfirst
  rw [bind_permute_of_perm hperm hrank]
  refine .of_forall "ECONCAT_DIMS" ?_ ?_ ?_
  · intro out
    rw [concat_reorder_eq_ok_iff hperm hplace hmany hlength, map_eq_ok_iff]
  · intro defect h
    have hmany' : rest.map (fun s => reorder s axes) ≠ [] := by simpa using hmany
    have hlength' : ∀ s ∈ rest.map fun s => reorder s axes,
        s.length = (reorder first axes).length := by simp
    obtain ⟨hcode, htold⟩ := code_of_concat_eq_error hmany' hd hlength' h
    refine ⟨hcode, fun htell => htold ?_⟩
    rw [← List.map_cons (f := fun s => reorder s axes), List.forall_mem_map]
    intro s hs
    exact (isTellable_reorder_iff hperm (hlength s hs)).mpr (htell s hs)
  · intro defect h
    rw [map_eq_error_iff] at h
    exact code_of_concat_eq_error hmany hi (fun s hs => (hrest s hs).trans hfirst.symm) h

/-! ## §4 Broadcast -/

/-- Sizes that are stretched to one: they agree, or one of them is one. -/
def Meets (x y : Int) : Prop := x = 1 ∨ y = 1 ∨ x = y

/-- The size that two sizes are stretched to. -/
def stretch (x y : Int) : Int := if x = 1 then y else x

/-- From the last axis on, shapes of one rank are stretched size by size. -/
theorem broadcastFromEnd_eq_ok_iff_of_length {j : Nat} (hlength : a.length = b.length) :
    broadcastFromEnd j a b = .ok out ↔
      List.Forall₂ Meets a b ∧ List.zipWith stretch a b = out := by
  induction a generalizing b j out with
  | nil =>
    obtain rfl := List.length_eq_zero_iff.mp hlength.symm
    simp [broadcastFromEnd]
  | cons x a ih =>
    cases b with
    | nil => cases hlength
    | cons y b =>
      simp only [broadcastFromEnd_cons_eq_ok_iff, ih (Nat.succ.inj hlength), List.forall₂_cons,
        List.zipWith_cons_cons, and_assoc, exists_and_left, exists_eq_left']
      rfl

theorem broadcast_eq_ok_iff_of_length (hlength : a.length = b.length) :
    broadcast a b = .ok out ↔ List.Forall₂ Meets a b ∧ List.zipWith stretch a b = out := by
  rw [broadcast_eq_ok_reverse_iff, broadcastFromEnd_eq_ok_iff_of_length (by simpa using hlength),
    List.forall₂_reverse_iff, ← List.reverse_zipWith hlength, List.reverse_inj]

/-- What is made of the sizes in one place stays together. -/
theorem reorder_zipWith (haxes : AreAxes rank axes) (ha : a.length = rank) (hb : b.length = rank)
    (f : Int → Int → Int) :
    reorder (List.zipWith f a b) axes = List.zipWith f (reorder a axes) (reorder b axes) := by
  unfold reorder
  rw [List.zipWith_map, List.zipWith_self]
  apply List.map_congr_left
  intro axis haxis
  obtain ⟨hnonneg, hlt⟩ := mem_allAxes.mp (haxes.subset haxis)
  have hlta : axis.toNat < a.length := by omega
  have hltb : axis.toNat < b.length := by omega
  simp [hlta, hltb]

/-- Why two shapes do not broadcast: two sizes differ. -/
theorem code_of_broadcast_eq_error (h : broadcast a b = .error defect) :
    defect.code = "EBROADCAST" ∧ (a.IsTellable → b.IsTellable → defect.isWritable = true) := by
  obtain ⟨x, _, y, _, j, _, rfl⟩ := broadcast_eq_error h
  exact ⟨rfl, fun ha hb => isWritable_of_broadcast_eq_error ha.2 ha.1 hb.2 h⟩

/-- **Broadcasts.** Reordered shapes are stretched to what the shapes are stretched to,
reordered. -/
theorem sameOutcome_broadcast (hperm : axes.Perm (allAxes rank)) (ha : a.length = rank)
    (hb : b.length = rank) :
    SameOutcome [a, b] (broadcast (reorder a axes) (reorder b axes))
      (do permute (← broadcast a b) axes) := by
  have hlength : a.length = b.length := ha.trans hb.symm
  have hlength' : (reorder a axes).length = (reorder b axes).length := by simp
  have hrank : ∀ stretched, broadcast a b = .ok stretched → stretched.length = rank := by
    intro stretched h
    obtain ⟨_, rfl⟩ := (broadcast_eq_ok_iff_of_length hlength).mp h
    simp [ha, hb]
  rw [bind_permute_of_perm hperm hrank]
  refine .of_forall "EBROADCAST" ?_ ?_ ?_
  · intro out
    simp only [broadcast_eq_ok_iff_of_length hlength', forall₂_reorder_iff hperm ha hb,
      ← reorder_zipWith (.of_perm hperm) ha hb, map_eq_ok_iff,
      broadcast_eq_ok_iff_of_length hlength, and_assoc, exists_and_left, exists_eq_left']
  · intro defect h
    obtain ⟨hcode, htold⟩ := code_of_broadcast_eq_error h
    rw [isTellable_reorder_iff hperm ha, isTellable_reorder_iff hperm hb] at htold
    exact ⟨hcode, fun htell => htold (htell a (by simp)) (htell b (by simp))⟩
  · intro defect h
    rw [map_eq_error_iff] at h
    obtain ⟨hcode, htold⟩ := code_of_broadcast_eq_error h
    exact ⟨hcode, fun htell => htold (htell a (by simp)) (htell b (by simp))⟩

/-- **Transposition.** All axes of shapes may be put in another order before an operation along
an axis or after it. Slices and chunks of a reordered shape along one of its axes are those of
the shape along the axis that the list names there, reordered, whatever the bounds and counts,
and errors are the same. So are concatenations of two or more shapes of one rank, and so are
broadcasts of two; where sizes differ, both ways report it with one code. -/
theorem permute_commutes (rank : Nat) (axes : List Int) (hperm : axes.Perm (allAxes rank)) :
    (∀ (d : Nat) (axis : Int), axes[d]? = some axis →
      (∀ shape : Shape, shape.length = rank →
        (∀ start stop step, (do slice (← permute shape axes) d start stop step)
          = (do permute (← slice shape axis start stop step) axes)) ∧
        ∀ chunks, (do chunk (← permute shape axes) chunks d)
          = (do (← chunk shape chunks axis).mapM fun piece => permute piece axes)) ∧
      ∀ (first : Shape) (rest : List Shape), rest ≠ [] → (∀ s ∈ first :: rest, s.length = rank) →
        SameOutcome (first :: rest)
          (do concat (← permute first axes) (← rest.mapM fun s => permute s axes) d)
          (do permute (← concat first rest axis) axes)) ∧
    ∀ a b : Shape, a.length = rank → b.length = rank →
      SameOutcome [a, b] (do broadcast (← permute a axes) (← permute b axes))
        (do permute (← broadcast a b) axes) := by
  constructor
  · intro d axis haxis
    obtain ⟨hnonneg, _⟩ := mem_allAxes.mp (hperm.subset (List.mem_of_getElem? haxis))
    obtain ⟨i, rfl⟩ := Int.eq_ofNat_of_zero_le hnonneg
    constructor
    · intro shape hlength
      rw [permute_of_perm hperm hlength]
      exact ⟨slice_reorder hperm haxis hlength, chunk_reorder hperm haxis hlength⟩
    · intro first rest hmany hlength
      obtain ⟨hfirst, hrest⟩ := List.forall_mem_cons.mp hlength
      rw [permute_of_perm hperm hfirst, mapM_eq_ok fun s hs => permute_of_perm hperm (hrest s hs)]
      exact sameOutcome_concat hperm haxis hmany hlength
  · intro a b ha hb
    rw [permute_of_perm hperm ha, permute_of_perm hperm hb]
    exact sameOutcome_broadcast hperm ha hb

/-- The last axis first: the second is then what was the first one. Two shapes that differ along
both other axes are not concatenated along it, and the sizes that are reported are those that
the order brings up first. -/
theorem permute_commutes_three :
    ([2, 0, 1] : List Int).Perm (allAxes 3) ∧ ([2, 0, 1] : List Int)[1]? = some 0 ∧
      (do slice (← permute [2, 3, 8] [2, 0, 1]) 1 0 1 1)
        = (do permute (← slice [2, 3, 8] 0 0 1 1) [2, 0, 1]) ∧
      (do permute (← slice [2, 3, 8] 0 0 1 1) [2, 0, 1]) = .ok [8, 1, 3] ∧
      SameOutcome [[2, 3, 8], [2, 4, 1]]
        (do
          let others ← [[2, 4, 1]].mapM fun s => permute s [2, 0, 1]
          concat (← permute [2, 3, 8] [2, 0, 1]) others 1)
        (do permute (← concat [2, 3, 8] [[2, 4, 1]] 0) [2, 0, 1]) ∧
      concat [8, 2, 3] [[1, 2, 4]] 1 = .error (.concatSizes 1 8 1 0) ∧
      concat [2, 3, 8] [[2, 4, 1]] 0 = .error (.concatSizes 0 3 4 1) ∧
      SameOutcome [[2, 1, 8], [1, 3, 1]]
        (do broadcast (← permute [2, 1, 8] [2, 0, 1]) (← permute [1, 3, 1] [2, 0, 1]))
        (do permute (← broadcast [2, 1, 8] [1, 3, 1]) [2, 0, 1]) ∧
      broadcast [8, 2, 1] [1, 1, 3] = .ok [8, 2, 3] := by
  have hperm : ([2, 0, 1] : List Int).Perm (allAxes 3) := by decide
  obtain ⟨haxes, hbroadcast⟩ := permute_commutes 3 [2, 0, 1] hperm
  obtain ⟨hcuts, hconcat⟩ := haxes 1 0 rfl
  obtain ⟨hslice, _⟩ := hcuts [2, 3, 8] rfl
  exact ⟨hperm, rfl, hslice 0 1 1, rfl, hconcat [2, 3, 8] [[2, 4, 1]] (by decide) (by decide), rfl,
    rfl, hbroadcast [2, 1, 8] [1, 3, 1] rfl rfl, rfl⟩

/-- Two shapes that differ along both axes: the order brings up first a size that is too long
to write, and then no error says so. -/
theorem permute_untold :
    ([1, 0] : List Int).Perm (allAxes 2) ∧
      Fault.ofShape (.text "broadcast")
          (do broadcast (← permute [(Decimal.bound : Int), 3] [1, 0]) (← permute [2, 4] [1, 0]))
        = .error (.misuse .badValue) ∧
      Fault.ofShape (.text "broadcast")
          (do permute (← broadcast [(Decimal.bound : Int), 3] [2, 4]) [1, 0])
        = .error (.inference (.node (.text "broadcast") (.shape (.broadcast 3 4 (-1))))) := by
  have hbound := Decimal.byte_lt_bound
  have hone : (Decimal.bound : Int) ≠ 1 := by omega
  have htwo : (Decimal.bound : Int) ≠ 2 := by omega
  have hpermuted : broadcast [3, (Decimal.bound : Int)] [4, 2]
      = .error (.broadcast Decimal.bound 2 (-1)) := by
    simp [broadcast, broadcastFromEnd, hone, htwo]
    rfl
  have hplain : (do permute (← broadcast [(Decimal.bound : Int), 3] [2, 4]) [1, 0])
      = .error (.broadcast 3 4 (-1)) :=
    rfl
  refine ⟨by decide, ?_, ?_⟩
  · exact Fault.ofShape_eq_badValue hpermuted (by simp [Defect.isWritable, Defect.integers])
  · rw [hplain]
    exact congrArg Except.error (if_pos (by decide +kernel))

end GraphShapes.Shape
