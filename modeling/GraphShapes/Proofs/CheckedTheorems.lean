/-
GraphShapes.Proofs.CheckedTheorems — both spellings of the rules answer the same.

A rule with every partial step checked (`GraphShapes.Proofs.CheckedRules`)
answers what the rule as it runs does, on all operands, attributes and declared
types (`apply_eq`). Since a checked step answers a misuse where a total one
would make something up, this says that no rule ever takes an item that is not
there, divides by zero or asks a value for a member of another kind: whatever
guards the rules have are enough, and come first.

The proofs follow the guards. A loop over positions is compared with the
recursion that it stands for at an arbitrary position, with what lies in front
of it carried along; a rule is compared for each number of operands, of which
all but the right ones are refused at once.

  §1 Steps    — positions within a list, division by what is not zero.
  §2 Shapes   — the operations on shapes.
  §3 Operands — attributes, kinds of operands, how many there are.
  §4 Rules    — rule by rule.
-/
import GraphShapes.Proofs.CheckedRules
import GraphShapes.Proofs.NonnegTheorems

namespace GraphShapes.Checked

open Rule (refuse shaped)

variable {what code name : String} {m : Meta} {metas : List Meta} {node : Node} {ctx : Context}
  {d : Datum} {a b shape out target : Shape} {axis : Int} {i j n : Nat}

/-! ## §1 Steps -/

theorem position?_natCast (h : i < n) : Graph.position? n i = some i := by
  have hi : ¬ (i : Int) < 0 := by omega
  simp [Graph.position?, hi, h]

/-- An index within a list names the item at that position. -/
theorem item_natCast {α : Type} {xs : List α} (h : i < xs.length) : item xs i = .ok xs[i] := by
  simp [item, position?_natCast h, h]

@[simp] theorem item_zero {α : Type} (x : α) (xs : List α) : item (x :: xs) 0 = .ok x :=
  item_natCast (i := 0) (by simp)

@[simp] theorem item_one {α : Type} (x y : α) (xs : List α) : item (x :: y :: xs) 1 = .ok y :=
  item_natCast (i := 1) (by simp)

@[simp] theorem item_two {α : Type} (x y z : α) (xs : List α) :
    item (x :: y :: z :: xs) 2 = .ok z :=
  item_natCast (i := 2) (by simp)

theorem replaced_natCast {α : Type} {xs : List α} (h : i < xs.length) (x : α) :
    replaced xs i x = .ok (xs.set i x) := by
  simp [replaced, position?_natCast h]

/-- The item behind a front of a list. -/
theorem item_append {α : Type} (front : List α) (x : α) (back : List α) :
    item (front ++ x :: back) front.length = .ok x := by
  rw [item_natCast (by simp)]
  simp

theorem replaced_append {α : Type} (front : List α) (x y : α) (back : List α) :
    replaced (front ++ x :: back) front.length y = .ok (front ++ y :: back) := by
  rw [replaced_natCast (by simp)]
  simp

theorem quotient_eq {x y : Int} (h : y ≠ 0) : quotient x y = .ok (Int.fdiv x y) := if_neg h

theorem remainder_eq {x y : Int} (h : y ≠ 0) : remainder x y = .ok (Int.fmod x y) := if_neg h

/-- Shape operations in a row, on behalf of a node. -/
theorem shaped_bind {α β : Type} (x : Except Shape.Defect α) (f : α → Except Shape.Defect β) :
    shaped (x >>= f) = (shaped x >>= fun y => shaped (f y)) := by
  cases x <;> rfl

theorem shaped_mapM {α β : Type} {f : α → Except Refusal β} {g : α → Except Shape.Defect β}
    {xs : List α} (h : ∀ x ∈ xs, f x = shaped (g x)) : xs.mapM f = shaped (xs.mapM g) := by
  induction xs with
  | nil => rfl
  | cons x xs ih =>
    obtain ⟨hx, hxs⟩ := List.forall_mem_cons.mp h
    rw [List.mapM_cons, List.mapM_cons, hx, ih hxs]
    cases g x with
    | error d => rfl
    | ok y => cases xs.mapM g <;> rfl

/-! ## §2 Shapes -/

theorem broadcastFromEnd_nil (i : Nat) (a : Shape) : Shape.broadcastFromEnd i a [] = .ok a := by
  cases a <;> rw [Shape.broadcastFromEnd]

/-- Where both shapes have an axis, the two spellings compare the same sizes. -/
theorem broadcastSize_eq (ha : i < a.length) (hb : i < b.length) :
    broadcastSize a b i = shaped (
      if a[i] = 1 then .ok b[i]
      else if b[i] = 1 then .ok a[i]
      else if a[i] = b[i] then .ok a[i]
      else .error (.broadcast a[i] b[i] (-1 - (i : Int)))) := by
  rw [broadcastSize, if_neg (by omega), if_neg (by omega), item_natCast ha, item_natCast hb]
  simp only [ok_bind, ne_eq, ite_not]
  split
  · rfl
  · split
    · rfl
    · split <;> rfl

/-- Position by position from the `i`-th on, what is left of two shapes broadcasts. -/
theorem mapM_broadcastSize (h : n = max a.length b.length - i) :
    (List.range' i n).mapM (broadcastSize a b)
      = shaped (Shape.broadcastFromEnd i (a.drop i) (b.drop i)) := by
  induction n generalizing i with
  | zero =>
    rw [List.drop_eq_nil_of_le (by omega), List.drop_eq_nil_of_le (by omega)]
    rfl
  | succ n ih =>
    have ih := ih (i := i + 1) (by omega)
    rw [List.range'_succ, List.mapM_cons, ih]
    -- Both shapes have the axis, or one of them has come to its end.
    by_cases ha : i < a.length
    · rw [List.drop_eq_getElem_cons ha]
      by_cases hb : i < b.length
      · rw [List.drop_eq_getElem_cons hb, Shape.broadcastFromEnd, broadcastSize_eq ha hb]
        generalize Shape.broadcastFromEnd (i + 1) (a.drop (i + 1)) (b.drop (i + 1)) = behind
        split_ifs <;> cases behind <;> rfl
      · rw [List.drop_eq_nil_of_le (Nat.le_of_not_lt hb),
          List.drop_eq_nil_of_le (Nat.le_succ_of_le (Nat.le_of_not_lt hb)),
          broadcastFromEnd_nil, broadcastFromEnd_nil, broadcastSize, if_pos (by omega),
          item_natCast ha]
        rfl
    · have hb : i < b.length := by omega
      rw [List.drop_eq_nil_of_le (Nat.le_of_not_lt ha),
        List.drop_eq_nil_of_le (Nat.le_succ_of_le (Nat.le_of_not_lt ha)),
        Shape.broadcastFromEnd, Shape.broadcastFromEnd, List.drop_eq_getElem_cons hb,
        broadcastSize, if_neg (by omega), if_pos (by omega), item_natCast hb]
      rfl

theorem broadcast_eq : broadcast a b = shaped (Shape.broadcast a b) := by
  rw [broadcast, List.range_eq_range', mapM_broadcastSize (by simp), Shape.broadcast,
    List.drop_zero, List.drop_zero]
  cases Shape.broadcastFromEnd 0 a.reverse b.reverse <;> rfl

theorem matmul_eq : matmul a b = shaped (Shape.matmul a b) := by
  unfold matmul
  split
  · next h =>
    unfold Shape.matmul
    split
    · simp at h
    · rfl
  · next h =>
    simp only [not_or, not_not] at h
    obtain ⟨n, k, rfl⟩ := List.length_eq_two.mp h.1
    obtain ⟨l, m, rfl⟩ := List.length_eq_two.mp h.2
    by_cases hkl : k = l <;> simp [Shape.matmul, hkl]

theorem batchMatmul_eq : batchMatmul a b = shaped (Shape.batchMatmul a b) := by
  unfold batchMatmul
  split
  · next h =>
    unfold Shape.batchMatmul
    split
    · simp at h
    · rfl
  · next h =>
    simp only [not_or, not_not] at h
    obtain ⟨s, n, k, rfl⟩ := List.length_eq_three.mp h.1
    obtain ⟨t, l, m, rfl⟩ := List.length_eq_three.mp h.2
    by_cases hst : s = t
    · by_cases hkl : k = l <;> simp [Shape.batchMatmul, hst, hkl]
    · simp [Shape.batchMatmul, hst]

/-- Positions in order make the equal pieces, and the last position the last piece. -/
theorem map_range_eq_pieces (shape : Shape) (i : Nat) (c r : Int) (n : Nat) :
    (List.range n).map (fun k : Nat => shape.set i (if (k : Int) = n - 1 then r else c))
      = Shape.pieces shape i c r n := by
  fun_induction Shape.pieces with
  | case1 => rfl
  | case2 => rfl
  | case3 n ih =>
    rw [List.range_succ_eq_map, List.map_cons, List.map_map, ← ih]
    congr 1
    · rw [if_neg (by omega)]
    · refine List.map_congr_left fun k _ => ?_
      have hlast : ((k + 1 : Nat) : Int) = (n + 2 : Nat) - 1 ↔ (k : Int) = (n + 1 : Nat) - 1 := by
        omega
      simp only [Function.comp_apply, Nat.succ_eq_add_one, hlast]

theorem chunk_eq {chunks : Int} :
    chunk shape chunks axis = shaped (Shape.chunk shape chunks axis) := by
  unfold chunk Shape.chunk
  by_cases hchunks : chunks < 1
  · simp [hchunks]
  · simp only [hchunks, if_false]
    cases hi : Shape.normalizeAxis "ECHUNK_DIM" axis shape.length with
    | error d => rfl
    | ok i =>
      have hlt := Shape.lt_of_normalizeAxis hi
      have hdiv (x : Int) : Int.fdiv x chunks = x / chunks :=
        Int.fdiv_eq_ediv_of_nonneg x (by omega)
      have hn : ((chunks.toNat : Nat) : Int) = chunks := Int.toNat_of_nonneg (by omega)
      have hsize : shape.getD i 0 = shape[i] := by simp [List.getD_eq_getElem?_getD, hlt]
      have hquotient (x : Int) : quotient x chunks = .ok (x / chunks) := by
        rw [quotient_eq (by omega), hdiv]
      have hpieces (c r : Int) : ((List.range chunks.toNat).mapM fun k : Nat =>
          replaced shape i (if (k : Int) = chunks - 1 then r else c))
            = .ok (Shape.pieces shape i c r chunks.toNat) := by
        rw [mapM_eq_ok fun k _ => replaced_natCast hlt _, ← map_range_eq_pieces, hn]
      simp only [Rule.shaped_ok, ok_bind, item_natCast hlt, hquotient, hsize, hpieces]
      split <;> rfl

theorem length_join {along : Nat} (hlen : b.length = a.length)
    (h : Shape.join along j a b = .ok out) : out.length = a.length := by
  induction a generalizing j b out with
  | nil =>
    rw [Shape.join_nil_left] at h
    rw [← Except.ok.inj h]
  | cons x as ih =>
    cases b with
    | nil => cases hlen
    | cons y bs =>
      obtain ⟨_, joined, hjoined, rfl⟩ := Shape.join_cons_eq_ok_iff.mp h
      rw [List.length_cons, List.length_cons, ih (Nat.succ.inj hlen) hjoined]

/-- Position by position behind fronts of the same length, what is left of two
shapes is joined; the front of what is made stays as it is. -/
theorem foldlM_joinSize (along : Nat) (front front' : Shape) (hfront : front.length = j)
    (hfront' : front'.length = j) (hlen : b.length = a.length) :
    (List.range' j a.length).foldlM (joinSize along (front' ++ b)) (front ++ a)
      = shaped ((Shape.join along j a b).map (front ++ ·)) := by
  induction a generalizing j b front front' with
  | nil =>
    rw [Shape.join_nil_left]
    rfl
  | cons x as ih =>
    cases b with
    | nil => cases hlen
    | cons y bs =>
      have ih (z : Int) := ih (j := j + 1) (front ++ [z]) (front' ++ [y]) (by simp [hfront])
        (by simp [hfront']) (Nat.succ.inj hlen)
      simp only [List.append_assoc, List.singleton_append] at ih
      -- Both fronts end at `j`, so the index names the heads of what is left.
      have hx : item (front ++ x :: as) j = .ok x := hfront ▸ item_append front x as
      have hy : item (front' ++ y :: bs) j = .ok y := hfront' ▸ item_append front' y bs
      have hset (z : Int) : replaced (front ++ x :: as) j z = .ok (front ++ z :: as) :=
        hfront ▸ replaced_append front x z as
      rw [List.length_cons, List.range'_succ, List.foldlM_cons, joinSize, Shape.join]
      by_cases hj : j = along
      · subst hj
        simp only [if_true, hx, hy, hset, ok_bind, ih]
        cases Shape.join j (j + 1) as bs <;> rfl
      · by_cases hxy : x = y
        · subst hxy
          simp only [hj, if_false, hx, hy, ok_bind, ne_eq, not_true_eq_false, if_true, pure_bind,
            ih]
          cases Shape.join along (j + 1) as bs <;> rfl
        · simp [hj, hx, hy, hxy]
          rfl

theorem join_eq {along : Nat} (a s : Shape) :
    join along a.length a s =
      if s.length ≠ a.length then refuse (.shape (.concatRanks a.length s.length))
      else shaped (Shape.join along 0 a s) := by
  unfold join
  split
  · rfl
  · next hlen =>
    have hfold := foldlM_joinSize along [] [] rfl rfl (not_not.mp hlen)
    rw [List.nil_append, List.nil_append, List.length_nil] at hfold
    rw [List.range_eq_range', hfold]
    cases Shape.join along 0 a s <;> rfl

/-- Joining keeps the rank, so the rank of the first shape is asked of all others. -/
theorem foldlM_join {along : Nat} (shape : Shape) (rest : List Shape) :
    rest.foldlM (join along shape.length) shape = shaped (Shape.joinAll along shape rest) := by
  induction rest generalizing shape with
  | nil => rfl
  | cons s rest ih =>
    rw [List.foldlM_cons, Shape.joinAll, join_eq]
    split
    · simp
    · next hlen =>
      cases hjoin : Shape.join along 0 shape s with
      | error d => simp
      | ok joined =>
        have hkeep := length_join (not_not.mp hlen) hjoin
        simp only [Rule.shaped_ok, ok_bind]
        rw [← hkeep, ih]

theorem concat_eq (first : Shape) (rest : List Shape) (axis : Int) :
    concat (first :: rest) axis = shaped (Shape.concat first rest axis) := by
  unfold concat Shape.concat
  rw [item_zero, ok_bind]
  cases rest with
  | nil => rfl
  | cons s rest =>
    rw [if_neg (by simp), if_neg (by simp), shaped_bind]
    simp only [List.drop_one, List.tail_cons, foldlM_join]

theorem stack_eq (first : Shape) (rest : List Shape) (axis : Int) :
    stack (first :: rest) axis = shaped (Shape.stack first rest axis) := by
  unfold stack Shape.stack
  rw [item_zero, ok_bind]
  cases rest with
  | nil => rfl
  | cons s rest =>
    rw [if_neg (by simp), if_neg (by simp), shaped_bind, List.drop_one, List.tail_cons]
    refine congrArg _ (funext fun i => ?_)
    cases (s :: rest).find? (· ≠ first) <;> rfl

theorem sliceLength_eq {length start stop step : Int} (hstep : step ≠ 0) :
    sliceLength length start stop step = .ok (Shape.sliceLength length start stop step) := by
  unfold sliceLength Shape.sliceLength
  cases Shape.sliceRange? length start stop with
  | none => rfl
  | some range =>
    simp only [quotient_eq hstep, remainder_eq hstep, ok_bind, Shape.stepsAcross]
    split
    · rw [Int.add_zero]
      rfl
    · rfl

theorem slice_eq {start stop step : Int} :
    slice shape axis start stop step = shaped (Shape.slice shape axis start stop step) := by
  unfold slice Shape.slice
  by_cases hstep : step < 1
  · simp [hstep]
  · simp only [hstep, if_false]
    cases hi : Shape.normalizeAxis "ESLICE_DIM" axis shape.length with
    | error d => rfl
    | ok i =>
      have hlt := Shape.lt_of_normalizeAxis hi
      have hsize : shape.getD i 0 = shape[i] := by simp [List.getD_eq_getElem?_getD, hlt]
      simp only [Rule.shaped_ok, ok_bind, item_natCast hlt, hsize,
        sliceLength_eq (show step ≠ 0 by omega), replaced_natCast hlt]
      rfl

/-- Remainders of either rounding are zero together. -/
theorem remainder_eq_zero_iff {x y : Int} : Int.fmod x y = 0 ↔ x % y = 0 := by
  rw [← Int.dvd_iff_fmod_eq_zero, Int.dvd_iff_emod_eq_zero]

/-- A target leaves nothing open if its explicit sizes are all of it. -/
theorem length_explicitSizes_eq_iff :
    (Shape.explicitSizes target).length = target.length ↔ target.countP (· = -1) = 0 := by
  unfold Shape.explicitSizes
  rw [List.length_filter_eq_length_iff, List.countP_eq_zero]
  simp

theorem fits_eq {explicit total : Int} :
    fits target explicit total = .ok (Shape.fits (target.countP (· = -1)) explicit total) := by
  have hremainder (h : explicit ≠ 0) : (do return decide ((← remainder total explicit) = 0))
      = (Except.ok (decide (total % explicit = 0)) : Except Refusal Bool) := by
    rw [remainder_eq h, ok_bind]
    simp only [remainder_eq_zero_iff]
    rfl
  unfold fits Shape.fits
  simp only [length_explicitSizes_eq_iff]
  by_cases hopen : target.countP (· = -1) = 0
  · by_cases h : explicit = 0
    · simp only [hopen, h, if_true]
      rfl
    · simp only [hopen, h, if_true, if_false, hremainder h]
  · by_cases h : explicit = 0
    · simp only [hopen, h, if_false, ne_eq, not_true_eq_false]
      rfl
    · simp [hopen, h, hremainder h]

theorem reshape_eq : reshape shape target = shaped (Shape.reshape shape target) := by
  unfold reshape Shape.reshape
  simp only [fits_eq, ok_bind, gt_iff_lt]
  by_cases hmany : 1 < target.countP (· = -1)
  · simp only [hmany, if_true]
    rfl
  · simp only [hmany, if_false]
    split
    · rfl
    · next hvalid =>
      simp only [Bool.or_eq_true, Bool.not_eq_true', not_or, Bool.not_eq_false,
        Bool.not_eq_true, List.any_eq_false, decide_eq_true_eq, Int.not_lt] at hvalid
      obtain ⟨hfits, hleast⟩ := hvalid
      rw [Rule.shaped_ok]
      refine mapM_eq_ok fun d hd => ?_
      split
      · next hd' =>
        -- The guards have seen to it that the product is neither zero nor less.
        have hopen : target.countP (· = -1) ≠ 0 := fun hnone =>
          Shape.countP_open_eq_zero_iff.mp hnone (hd' ▸ hd)
        have hexplicit : Shape.size (Shape.explicitSizes target) ≠ 0 := fun hzero =>
          hopen ((Shape.fits_iff.mp hfits).2 hzero)
        rw [quotient_eq hexplicit, Int.fdiv_eq_ediv_of_nonneg]
        exact Shape.size_nonneg (Shape.nonneg_explicitSizes hleast)
      · rfl

theorem permute_eq {axes : List Int} :
    permute shape axes = shaped (Shape.permute shape axes) := by
  unfold permute Shape.permute
  split
  · rfl
  · refine shaped_mapM fun axis _ => ?_
    unfold axisSize Shape.axisSize
    split
    · rfl
    · split
      · rfl
      · next hle hlt =>
        have hnat : ((axis.toNat : Nat) : Int) = axis := Int.toNat_of_nonneg (by omega)
        have hin : axis.toNat < List.length shape := by omega
        rw [← hnat, item_natCast hin, Int.toNat_natCast, List.getD_eq_getElem?_getD,
          List.getElem?_eq_getElem hin]
        rfl

/-! ## §3 Operands -/

theorem attr_eq : attr node name = node.attr name := by
  unfold attr entry Node.attr
  cases lookup? node.attributes (.text name) <;> rfl

theorem intAttribute_eq : intAttribute node name = node.intAttribute name := by
  unfold intAttribute Node.intAttribute
  rw [attr_eq]
  refine congrArg _ (funext fun d => ?_)
  cases d with
  | elementSpan s =>
    cases hwhole : s.whole? <;>
      simp [isTruth, Datum.isWhole, Datum.isIntegral, Datum.asInt?, Datum.toInt, hwhole, converted]
    rfl
  | _ => rfl

/-- An integer, or the failure of what passes for one. -/
def wholeOr {α : Type} (n : Option α) : Except Refusal α := n.elim (.error (.misuse .wrongKind)) .ok

/-- What passes for a whole number is converted, if it is one, without loss. -/
theorem converted_toInt (h : d.isWhole = true) : converted d.toInt = wholeOr d.asWhole? := by
  cases d with
  | bool | int | elementInt => rfl
  | elementSpan s =>
    rw [Datum.toInt, Datum.asWhole?]
    cases s.whole? <;> rfl
  | _ => cases h

theorem asWhole?_eq_none (h : d.isWhole = false) : d.asWhole? = none := by
  cases d with
  | bool | int | elementInt | elementSpan => cases h
  | _ => rfl

/-- If all items pass for whole numbers they are converted one by one. -/
theorem mapM_converted_toInt {items : List Datum} (h : items.all Datum.isWhole = true) :
    items.mapM (fun item => converted item.toInt) = wholeOr (items.mapM Datum.asWhole?) := by
  induction items with
  | nil => rfl
  | cons d items ih =>
    rw [List.all_cons, Bool.and_eq_true] at h
    rw [List.mapM_cons, List.mapM_cons, converted_toInt h.1, ih h.2]
    cases d.asWhole? with
    | none => rfl
    | some n => cases items.mapM Datum.asWhole? <;> rfl

theorem mapM_asWhole?_eq_none {items : List Datum} (h : items.all Datum.isWhole = false) :
    items.mapM Datum.asWhole? = none := by
  induction items with
  | nil => cases h
  | cons d items ih =>
    rw [List.mapM_cons]
    cases hd : d.isWhole with
    | false => simp [asWhole?_eq_none hd]
    | true =>
      rw [List.all_cons, hd, Bool.true_and] at h
      simp [ih h]

/-- What has items is a sequence, and yields them. -/
theorem isSequence_eq (d : Datum) : isSequence d = d.items?.isSome := by cases d <;> rfl

theorem yields_of_items? {d : Datum} {items : List Datum} (h : d.items? = some items) :
    d.yields = .ok items := by
  cases d with
  | list _ | tuple _ =>
    cases h
    rfl
  | _ => cases h

theorem intsAttribute_eq : intsAttribute node name = node.intsAttribute name := by
  unfold intsAttribute Node.intsAttribute
  rw [attr_eq]
  refine congrArg _ (funext fun d => ?_)
  rw [isSequence_eq]
  cases hitems : d.items? with
  | none => rfl
  | some items =>
    rw [yields_of_items? hitems, Option.bind_some, Option.any_some]
    refine Eq.trans (show _ = if items.all Datum.isWhole
      then items.mapM fun item => converted item.toInt
      else refuse (.attributeNotInts name) from rfl) ?_
    cases hall : items.all Datum.isWhole with
    | true =>
      rw [if_pos rfl, if_pos rfl, mapM_converted_toInt hall]
      cases items.mapM Datum.asWhole? <;> rfl
    | false =>
      rw [if_neg Bool.false_ne_true, mapM_asWhole?_eq_none hall]
      rfl

theorem tensorAttribute_eq : tensorAttribute node name = node.tensorAttribute name := by
  unfold tensorAttribute Node.tensorAttribute
  rw [attr_eq]
  refine congrArg _ (funext fun d => ?_)
  cases d with
  | placeholder sizes | shaped _ sizes =>
    simp only [isArray, exposedSizes, Datum.exposedSizes?, Option.isSome_some, ok_bind,
      Bool.false_eq_true, if_false, if_true]
    cases Datum.toSizes 1 sizes <;> rfl
  | _ => rfl

theorem tensor_eq : tensor what code m = Rule.tensor what code m := by cases m <;> rfl

theorem scalar_eq : scalar what code m = Rule.scalar what code m := by cases m <;> rfl

theorem integers_eq : integers what code m = Rule.integers what code m := by cases m <;> rfl

theorem numbered_tensor :
    numbered "input " (tensor · code) i metas = Rule.tensors code i metas := by
  unfold numbered
  induction metas generalizing i with
  | nil => rfl
  | cons m rest ih =>
    rw [List.zipIdx_cons, List.mapM_cons, ih, Rule.tensors]
    simp only [tensor_eq]

theorem numbered_scalar :
    numbered "element " (scalar · code) i metas = Rule.elements code i metas := by
  unfold numbered
  induction metas generalizing i with
  | nil => rfl
  | cons m rest ih =>
    rw [List.zipIdx_cons, List.mapM_cons, ih, Rule.elements]
    simp only [scalar_eq]

theorem expectArity_eq_ok {least : Nat} {greatest : Option Nat} (hleast : least ≤ metas.length)
    (hgreatest : ∀ n, greatest = some n → metas.length ≤ n) :
    expectArity least greatest metas = .ok () := by
  refine if_neg ?_
  cases greatest <;> simp_all

theorem expectArity_eq_arity {n : Nat} (h : metas.length ≠ n) :
    expectArity n (some n) metas = Rule.arity n (some n) metas := by
  refine if_pos ?_
  simp
  omega

/-! ## §4 Rules -/

theorem declaredType_eq :
    declaredType ctx = .ok (ctx.outputTypes.headD (.text "Tensor")) := by
  unfold declaredType
  cases ctx.outputTypes with
  | nil => rfl
  | cons type rest => exact item_zero type rest

theorem constant_eq : constant node ctx = Rule.constant node ctx := by
  unfold constant Rule.constant Rule.constantKind
  simp only [declaredType_eq, ok_bind, intAttribute_eq, intsAttribute_eq, tensorAttribute_eq]
  generalize ctx.outputTypes.headD (.text "Tensor") = type
  fun_cases Rule.ConstantKind.ofType type with
  | case1 | case2 | case3 | case4 | case5 | case6 => rfl
  | case7 sizes e hone =>
    simp [isWord, hone]
    rfl
  | case8 sizes e hmany => simp [isWord, hmany]
  | case9 type hfloat hint hbool hnone htensor hints harray =>
    cases type with
    | text s =>
      have hword {word : String} (h : Datum.text s = .text word → False) :
          isWord (.text s) word = .ok false := by
        have hne : s ≠ word := fun he => h (congrArg _ he)
        simp [isWord, hne]
      simp [hword hfloat, hword hint, hword hbool, hword hnone, hword htensor, hword hints]
      rfl
    | array sizes e => exact absurd rfl (harray sizes e)
    | _ => rfl

theorem elementwise_eq : elementwise metas = Rule.elementwise metas := by
  unfold elementwise
  match metas with
  | [] => rfl
  | [m] => rfl
  | m :: m' :: rest =>
    rw [expectArity_eq_arity (by simp)]
    rfl

theorem fold_eq (op : Operator) (x y : Int) : fold op x y = Rule.fold op x y := by
  cases op with
  | pow =>
    by_cases hy : y < 0
    · simp [fold, foldable, Rule.fold, hy]
    · have hpower : power x y = .ok (Rule.power x y.toNat) := if_pos (by omega)
      have hfolding : folding .pow = .ok power := rfl
      have hlookup : (foldable.lookup .pow).isNone = false := rfl
      simp only [fold, hlookup, hfolding, hpower, Rule.fold, hy, and_false, if_false, ok_bind,
        Bool.false_eq_true]
      rfl
  | _ => rfl

theorem combine_eq (op : Operator) (a b : Meta) : combine op a b = Rule.combine op a b := by
  cases a with
  | tensor s =>
    cases b with
    | tensor t =>
      simp only [combine, Rule.combine, broadcast_eq]
      rfl
    | _ => rfl
  | scalar x =>
    cases b with
    | scalar y => exact fold_eq op x y
    | _ => rfl
  | ints | nothing => rfl

theorem binary_eq (op : Operator) : binary op metas = Rule.binary op metas := by
  unfold binary
  match metas with
  | [] | [_] | _ :: _ :: _ :: _ :: _ => simp [expectArity, Rule.binary, Rule.arity]
  | [a, b] | [a, b, c] =>
    rw [expectArity_eq_ok (by simp) (by simp)]
    simp only [ok_bind, item_zero, item_one, combine_eq]
    rfl

theorem matrixProduct_eq : matrixProduct metas = Rule.matrixProduct metas := by
  unfold matrixProduct
  match metas with
  | [] | [_] | _ :: _ :: _ :: _ => simp [expectArity, Rule.matrixProduct, Rule.arity]
  | [a, b] =>
    rw [expectArity_eq_ok (by simp) (by simp)]
    simp only [ok_bind, item_zero, item_one, tensor_eq, matmul_eq]
    rfl

theorem batchProduct_eq : batchProduct metas = Rule.batchProduct metas := by
  unfold batchProduct
  match metas with
  | [] | [_] | _ :: _ :: _ :: _ => simp [expectArity, Rule.batchProduct, Rule.arity]
  | [a, b] =>
    rw [expectArity_eq_ok (by simp) (by simp)]
    simp only [ok_bind, item_zero, item_one, tensor_eq, batchMatmul_eq]
    rfl

theorem innerProduct_eq (c a b : Meta) (rest : List Meta) :
    innerProduct (c :: a :: b :: rest) = Rule.innerProduct a b := by
  unfold innerProduct
  simp only [item_one, item_two, ok_bind, tensor_eq, matmul_eq]
  cases b <;> rfl

theorem multiplyAdd_eq : multiplyAdd metas = Rule.multiplyAdd metas := by
  unfold multiplyAdd
  match metas with
  | [] | [_] | [_, _] => rfl
  | c :: a :: b :: rest =>
    rw [expectArity_eq_ok (by simp) (by simp)]
    simp only [ok_bind, item_zero, innerProduct_eq, combine_eq]
    rfl

theorem constantChunk_eq : constantChunk node metas = Rule.constantChunk node metas := by
  unfold constantChunk
  match metas with
  | [] | _ :: _ :: _ => simp [expectArity, Rule.constantChunk, Rule.arity]
  | [m] =>
    rw [expectArity_eq_ok (by simp) (by simp)]
    simp only [ok_bind, item_zero, tensor_eq, intAttribute_eq, chunk_eq]
    rfl

/-- Joining is spelled the same in both ways if the operation on shapes is. -/
theorem joined_eq {checked : List Shape → Int → Except Refusal Shape}
    {operation : Shape → List Shape → Int → Except Shape.Defect Shape}
    (h : ∀ first rest axis, checked (first :: rest) axis = shaped (operation first rest axis)) :
    joined code checked node metas = Rule.joined code operation node metas := by
  unfold joined
  match metas with
  | [] => rfl
  | [m] => rfl
  | m :: m' :: rest =>
    have hfirst : "input " ++ Decimal.render (0 : Nat) = "input 0" := by decide +kernel
    rw [expectArity_eq_ok (by simp) (by simp), ok_bind, if_neg (by simp), numbered_tensor,
      Rule.tensors, Rule.joined, hfirst]
    · simp only [intAttribute_eq, bind_assoc, pure_bind, h]
    · simp

theorem listConstruct_eq : listConstruct metas = Rule.listConstruct metas := by
  unfold listConstruct
  match metas with
  | [] => rfl
  | m :: rest =>
    rw [expectArity_eq_ok (by simp) (by simp), ok_bind, numbered_scalar]
    rfl

theorem sliced_eq : sliced metas = Rule.sliced metas := by
  unfold sliced
  match metas with
  | [] | [_] | [_, _] | [_, _, _] | [_, _, _, _] | _ :: _ :: _ :: _ :: _ :: _ :: _ =>
    simp [expectArity, Rule.sliced, Rule.arity]
  | [self, axis, start, stop, step] =>
    rw [expectArity_eq_ok (by simp) (by simp)]
    simp [sliceOperands, tensor_eq, scalar_eq, slice_eq, Rule.sliced]

theorem reshaped_eq : reshaped metas = Rule.reshaped metas := by
  unfold reshaped
  match metas with
  | [] | [_] | _ :: _ :: _ :: _ => simp [expectArity, Rule.reshaped, Rule.arity]
  | [a, b] =>
    rw [expectArity_eq_ok (by simp) (by simp)]
    simp only [ok_bind, item_zero, item_one, tensor_eq, integers_eq, reshape_eq]
    rfl

theorem permuted_eq : permuted metas = Rule.permuted metas := by
  unfold permuted
  match metas with
  | [] | [_] | _ :: _ :: _ :: _ => simp [expectArity, Rule.permuted, Rule.arity]
  | [a, b] =>
    rw [expectArity_eq_ok (by simp) (by simp)]
    simp only [ok_bind, item_zero, item_one, tensor_eq, integers_eq, permute_eq]
    rfl

theorem offsetCount_eq : offsetCount m = Rule.offsetCount m := by
  unfold offsetCount Rule.offsetCount
  rw [tensor_eq]
  refine congrArg _ (funext fun sizes => ?_)
  match sizes with
  | [] => rfl
  | [n] => rfl
  | n :: n' :: rest => rw [if_pos (by simp)]

/-- Both spellings refuse a table for the same defect, or both take its second size. -/
theorem table_cases (weight : Meta) (others : List Meta) (h : others.length = 7) :
    (∃ n width, table (weight :: others) = .ok [n, width] ∧
      Rule.tableWidth weight = .ok width) ∨
    ∃ d, table (weight :: others) = refuse d ∧ Rule.tableWidth weight = refuse d := by
  have harity : expectArity Rule.embeddingArity (some Rule.embeddingArity) (weight :: others)
      = .ok () :=
    expectArity_eq_ok (by simp [h, Rule.embeddingArity]) (by simp [h, Rule.embeddingArity])
  unfold table
  rw [harity, ok_bind, item_zero, ok_bind]
  cases weight with
  | tensor sizes =>
    match sizes with
    | [n, width] => exact Or.inl ⟨n, width, rfl, rfl⟩
    | [] | [_] => exact Or.inr ⟨_, rfl, rfl⟩
    | n :: m :: k :: rest =>
      exact Or.inr ⟨.operandRank "2D" "weight" (n :: m :: k :: rest).length,
        by simp [tensor, isTensor, sizesOf], rfl⟩
  | _ => exact Or.inr ⟨_, rfl, rfl⟩

theorem bags_cons (weight indices offsets : Meta) (rest : List Meta) :
    bags ctx (weight :: indices :: offsets :: rest) = (do
      match ← Rule.tensor "indices" "EEMBED_ARG" indices with
      | [_] => Rule.bagCount ctx offsets
      | [rows, _] => pure rows
      | sizes => refuse (.indicesRank sizes.length)) := by
  unfold bags Rule.bagCount
  simp only [item_one, item_two, ok_bind, tensor_eq, offsetCount_eq]
  refine congrArg _ (funext fun sizes => ?_)
  match sizes with
  | [] | [_] | [_, _] => rfl
  | _ :: _ :: _ :: _ => simp

/-- A count of operands other than eight is refused before anything else. -/
theorem table_eq_arity (h : metas.length ≠ Rule.embeddingArity) :
    table metas = Rule.arity Rule.embeddingArity (some Rule.embeddingArity) metas := by
  unfold table
  rw [expectArity_eq_arity h]
  rfl

theorem embeddingBag_eq : embeddingBag ctx metas = Rule.embeddingBag ctx metas := by
  unfold embeddingBag
  by_cases hlen : metas.length = Rule.embeddingArity
  · match metas, hlen with
    | [weight, indices, offsets, a, b, c, d, e], _ =>
      rw [bags_cons, Rule.embeddingBag]
      rcases table_cases weight [indices, offsets, a, b, c, d, e] rfl with
        ⟨n, width, htable, hwidth⟩ | ⟨d, htable, hwidth⟩
      · simp only [htable, hwidth, ok_bind, item_one, bind_assoc]
        refine congrArg _ (funext fun sizes => ?_)
        rcases sizes with _ | ⟨_, _ | ⟨_, _ | _⟩⟩ <;> rfl
      · rw [htable, hwidth]
        rfl
  · rw [table_eq_arity hlen]
    unfold Rule.embeddingBag
    split
    · exact absurd rfl hlen
    · rfl

theorem embeddingBagRowwise_eq :
    embeddingBagRowwise ctx metas = Rule.embeddingBagRowwise ctx metas := by
  unfold embeddingBagRowwise
  by_cases hlen : metas.length = Rule.embeddingArity
  · match metas, hlen with
    | [weight, indices, offsets, a, b, c, d, e], _ =>
      rw [Rule.embeddingBagRowwise]
      rcases table_cases weight [indices, offsets, a, b, c, d, e] rfl with
        ⟨n, width, htable, hwidth⟩ | ⟨d, htable, hwidth⟩
      · simp only [htable, hwidth, ok_bind, item_one, item_two, offsetCount_eq, Rule.bagCount,
          bind_assoc, pure_bind]
      · rw [htable, hwidth]
        rfl
  · rw [table_eq_arity hlen]
    unfold Rule.embeddingBagRowwise
    split
    · exact absurd rfl hlen
    · rfl

/-- **The two spellings answer the same**, whatever the operands, the attributes
and the declared types are. -/
theorem apply_eq (op : Operator) (metas : List Meta) (node : Node) (ctx : Context) :
    apply op metas node ctx = Rule.apply op metas node ctx := by
  cases op with
  | constant => exact constant_eq
  | listConstruct => exact listConstruct_eq
  | constantChunk => exact constantChunk_eq
  | fusedConcat => exact joined_eq concat_eq
  | fusedStack => exact joined_eq stack_eq
  | tanh | relu | sigmoid => exact elementwise_eq
  | add | sub | mul | pow => exact binary_eq _
  | mm => exact matrixProduct_eq
  | bmm => exact batchProduct_eq
  | addmm => exact multiplyAdd_eq
  | slice => exact sliced_eq
  | reshape => exact reshaped_eq
  | permute => exact permuted_eq
  | embeddingBag => exact embeddingBag_eq
  | embeddingBagRowwise => exact embeddingBagRowwise_eq

end GraphShapes.Checked
