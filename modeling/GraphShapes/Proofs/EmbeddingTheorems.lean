/-
GraphShapes.Proofs.EmbeddingTheorems — what is left of a size.

An embedding bag takes something away from the sizes that it reads: a sentinel from the number
of offsets, and from the width of a quantised row its scale and zero offset. Which sizes these
are and how much is taken is a matter of the operands' ranks alone (`Pools`), and so is whether
there is an answer at all (`exists_apply_congr`): whether there is enough is never asked. If
there is, the result has no size below zero; if not, it has one, and no refusal says so
(`embedding_sizes`).

  §1 Operands — tensors of one and of two axes.
  §2 Reading  — the sizes that are read, and what is taken from them.
  §3 Sizes    — what is left.
-/
import GraphShapes.Proofs.NonnegTheorems

namespace GraphShapes

/-! ## §1 Operands -/

theorem Meta.rank?_eq_one_iff {m : Meta} : m.rank? = some 1 ↔ ∃ n, m = .tensor [n] := by
  cases m with
  | tensor sizes => simp [rank?, List.length_eq_one_iff]
  | scalar | ints | nothing => simp [rank?]

theorem Meta.rank?_eq_two_iff {m : Meta} : m.rank? = some 2 ↔ ∃ n k, m = .tensor [n, k] := by
  cases m with
  | tensor sizes => simp [rank?, List.length_eq_two]
  | scalar | ints | nothing => simp [rank?]

namespace Rule

variable {ctx : Context} {op : Operator} {m : Meta} {metas metas' results : List Meta}
  {node : Node} {n : Int}

theorem tableWidth_eq_ok_iff : tableWidth m = .ok n ↔ ∃ rows, m = .tensor [rows, n] := by
  unfold tableWidth
  simp only [bind_eq_ok_iff, tensor_eq_ok_iff]
  constructor
  · rintro ⟨sizes, rfl, h⟩
    split at h
    · next rows width =>
      obtain rfl := pure_eq_ok_iff.mp h
      exact ⟨rows, rfl⟩
    · cases h
  · rintro ⟨rows, rfl⟩
    exact ⟨_, rfl, rfl⟩

theorem bagCount_eq_ok_iff :
    bagCount ctx m = .ok n ↔ ∃ k, m = .tensor [k] ∧ k - sentinels ctx = n := by
  unfold bagCount offsetCount
  simp only [bind_eq_ok_iff, tensor_eq_ok_iff, pure_eq_ok_iff]
  constructor
  · rintro ⟨k, ⟨sizes, rfl, h⟩, rfl⟩
    split at h
    · next k' =>
      obtain rfl := pure_eq_ok_iff.mp h
      exact ⟨k', rfl, rfl⟩
    · cases h
  · rintro ⟨k, rfl, rfl⟩
    exact ⟨k, ⟨_, rfl, rfl⟩, rfl⟩

/-! ## §2 Reading -/

/-- A size, and what is taken away from it. -/
structure Remainder where
  size : Int
  taken : Int

/-- What is left of the size. -/
def Remainder.left (r : Remainder) : Int := r.size - r.taken

/-- There is as much as is taken. -/
def Remainder.Fits (r : Remainder) : Prop := r.taken ≤ r.size

/-- The sizes that an embedding bag reads of its operands, for the number of bags and for their
width. -/
inductive Pools (ctx : Context) : Operator → List Meta → Remainder → Remainder → Prop where
  /-- A row of indices is cut into bags by offsets. -/
  | offsets (rows width indices count : Int) (rest : List Meta) (h : rest.length = 5) :
      Pools ctx .embeddingBag
        (.tensor [rows, width] :: .tensor [indices] :: .tensor [count] :: rest)
        ⟨count, sentinels ctx⟩ ⟨width, 0⟩
  /-- Every row of indices is a bag. -/
  | rows (rows width count indices : Int) (other : Meta) (rest : List Meta)
      (h : rest.length = 5) :
      Pools ctx .embeddingBag
        (.tensor [rows, width] :: .tensor [count, indices] :: other :: rest)
        ⟨count, 0⟩ ⟨width, 0⟩
  /-- A row of a quantised table has a trailer; offsets cut the indices, whatever these are. -/
  | rowwise (rows width count : Int) (other : Meta) (rest : List Meta) (h : rest.length = 5) :
      Pools ctx .embeddingBagRowwise
        (.tensor [rows, width] :: other :: .tensor [count] :: rest)
        ⟨count, sentinels ctx⟩ ⟨width, rowTrailer⟩

theorem embeddingBag_eq_ok_iff :
    embeddingBag ctx metas = .ok results ↔
      ∃ bags width, Pools ctx .embeddingBag metas bags width ∧
        results = [.tensor [bags.left, width.left]] := by
  constructor
  · intro h
    unfold embeddingBag at h
    split at h
    · simp only [bind_eq_ok_iff, tableWidth_eq_ok_iff, tensor_eq_ok_iff] at h
      obtain ⟨width, ⟨rows, rfl⟩, sizes, rfl, h⟩ := h
      split at h
      · next indices =>
        simp only [bind_eq_ok_iff, bagCount_eq_ok_iff, pure_eq_ok_iff] at h
        obtain ⟨_, ⟨count, rfl, rfl⟩, rfl⟩ := h
        exact ⟨_, _, .offsets rows width indices count _ rfl, by simp [Remainder.left]⟩
      · next count indices =>
        simp only [bind_eq_ok_iff, pure_eq_ok_iff] at h
        obtain ⟨_, rfl, rfl⟩ := h
        exact ⟨_, _, .rows rows width count indices _ _ rfl, by simp [Remainder.left]⟩
      · cases h
    · simp at h
  · rintro ⟨bags, width, h, rfl⟩
    cases h with
    | offsets rows width indices count rest hrest =>
      match rest, hrest with
      | [_, _, _, _, _], _ =>
        simp [embeddingBag, tableWidth, tensor, bagCount, offsetCount, Remainder.left,
          pure_eq_ok_iff]
    | rows rows width count indices other rest hrest =>
      match rest, hrest with
      | [_, _, _, _, _], _ =>
        simp [embeddingBag, tableWidth, tensor, Remainder.left, pure_eq_ok_iff]

theorem embeddingBagRowwise_eq_ok_iff :
    embeddingBagRowwise ctx metas = .ok results ↔
      ∃ bags width, Pools ctx .embeddingBagRowwise metas bags width ∧
        results = [.tensor [bags.left, width.left]] := by
  constructor
  · intro h
    unfold embeddingBagRowwise at h
    split at h
    · simp only [bind_eq_ok_iff, tableWidth_eq_ok_iff, bagCount_eq_ok_iff, pure_eq_ok_iff] at h
      obtain ⟨width, ⟨rows, rfl⟩, _, ⟨count, rfl, rfl⟩, rfl⟩ := h
      exact ⟨_, _, .rowwise rows width count _ _ rfl, rfl⟩
    · simp at h
  · rintro ⟨bags, width, h, rfl⟩
    cases h with
    | rowwise rows width count other rest hrest =>
      match rest, hrest with
      | [_, _, _, _, _], _ =>
        simp [embeddingBagRowwise, tableWidth, tensor, bagCount, offsetCount, Remainder.left,
          pure_eq_ok_iff]

/-- **Reading.** The result of an embedding bag is what is left of the sizes that it reads. -/
theorem apply_eq_ok_iff_pools (hop : op = .embeddingBag ∨ op = .embeddingBagRowwise) :
    apply op metas node ctx = .ok results ↔
      ∃ bags width, Pools ctx op metas bags width ∧
        results = [.tensor [bags.left, width.left]] := by
  rcases hop with rfl | rfl
  · exact embeddingBag_eq_ok_iff
  · exact embeddingBagRowwise_eq_ok_iff

/-- Operands with the same ranks are read in the same places, with as much taken away. -/
theorem Pools.of_rank? {bags width : Remainder} (h : Pools ctx op metas bags width)
    (hrank : metas'.map Meta.rank? = metas.map Meta.rank?) :
    ∃ count size, Pools ctx op metas' ⟨count, bags.taken⟩ ⟨size, width.taken⟩ := by
  cases h with
  | offsets rows width indices count rest hrest =>
    simp only [List.map_cons, List.map_eq_cons_iff] at hrank
    obtain ⟨_, _, rfl, hweight, _, _, rfl, hindices, _, rest', rfl, hoffsets, hrest'⟩ := hrank
    obtain ⟨rows', width', rfl⟩ := Meta.rank?_eq_two_iff.mp hweight
    obtain ⟨indices', rfl⟩ := Meta.rank?_eq_one_iff.mp hindices
    obtain ⟨count', rfl⟩ := Meta.rank?_eq_one_iff.mp hoffsets
    exact ⟨_, _, .offsets rows' width' indices' count' rest'
      ((length_eq_of_map_eq hrest').trans hrest)⟩
  | rows rows width count indices other rest hrest =>
    simp only [List.map_cons, List.map_eq_cons_iff] at hrank
    obtain ⟨_, _, rfl, hweight, _, _, rfl, hindices, other', rest', rfl, _, hrest'⟩ := hrank
    obtain ⟨rows', width', rfl⟩ := Meta.rank?_eq_two_iff.mp hweight
    obtain ⟨count', indices', rfl⟩ := Meta.rank?_eq_two_iff.mp hindices
    exact ⟨_, _, .rows rows' width' count' indices' other' rest'
      ((length_eq_of_map_eq hrest').trans hrest)⟩
  | rowwise rows width count other rest hrest =>
    simp only [List.map_cons, List.map_eq_cons_iff] at hrank
    obtain ⟨_, _, rfl, hweight, other', _, rfl, _, _, rest', rfl, hoffsets, hrest'⟩ := hrank
    obtain ⟨rows', width', rfl⟩ := Meta.rank?_eq_two_iff.mp hweight
    obtain ⟨count', rfl⟩ := Meta.rank?_eq_one_iff.mp hoffsets
    exact ⟨_, _, .rowwise rows' width' count' other' rest'
      ((length_eq_of_map_eq hrest').trans hrest)⟩

/-- Whether there is an answer is a matter of the ranks; sizes have no say in it. -/
theorem exists_apply_congr (hop : op = .embeddingBag ∨ op = .embeddingBagRowwise)
    (hrank : metas'.map Meta.rank? = metas.map Meta.rank?) :
    (∃ results, apply op metas' node ctx = .ok results) ↔
      ∃ results, apply op metas node ctx = .ok results := by
  simp only [apply_eq_ok_iff_pools hop]
  constructor
  · rintro ⟨_, _, _, h, rfl⟩
    obtain ⟨_, _, h'⟩ := h.of_rank? hrank.symm
    exact ⟨_, _, _, h', rfl⟩
  · rintro ⟨_, _, _, h, rfl⟩
    obtain ⟨_, _, h'⟩ := h.of_rank? hrank
    exact ⟨_, _, _, h', rfl⟩

/-! ## §3 Sizes -/

theorem Remainder.left_nonneg_iff {r : Remainder} : 0 ≤ r.left ↔ r.Fits := Int.sub_nonneg

/-- The sizes that are read are sizes of operands, and what is taken away is a sentinel and a
trailer at most. -/
theorem Pools.bounds {bags width : Remainder} (h : Pools ctx op metas bags width)
    (hmetas : ∀ m ∈ metas, m.Nonneg) :
    0 ≤ bags.size ∧ bags.taken ≤ 1 ∧ 0 ≤ width.size ∧ width.taken ≤ rowTrailer := by
  have hsentinels : sentinels ctx ≤ 1 := by
    unfold sentinels
    split <;> decide
  have hnone : (0 : Int) ≤ 1 := by decide
  have htrailer : 0 ≤ rowTrailer := by decide
  cases h with
  | offsets rows width indices count rest hrest =>
    simp only [List.forall_mem_cons, Meta.nonneg_tensor, Shape.nonneg_cons] at hmetas
    obtain ⟨⟨_, hwidth, _⟩, _, ⟨hcount, _⟩, _⟩ := hmetas
    exact ⟨hcount, hsentinels, hwidth, htrailer⟩
  | rows rows width count indices other rest hrest =>
    simp only [List.forall_mem_cons, Meta.nonneg_tensor, Shape.nonneg_cons] at hmetas
    obtain ⟨⟨_, hwidth, _⟩, ⟨hcount, _⟩, _⟩ := hmetas
    exact ⟨hcount, hnone, hwidth, htrailer⟩
  | rowwise rows width count other rest hrest =>
    simp only [List.forall_mem_cons, Meta.nonneg_tensor, Shape.nonneg_cons] at hmetas
    obtain ⟨⟨_, hwidth, _⟩, _, ⟨hcount, _⟩, _⟩ := hmetas
    exact ⟨hcount, hsentinels, hwidth, Int.le_refl rowTrailer⟩

/-- **Embedding bags.** Of operands without sizes below zero, an embedding bag reads the number
of bags and their width, and answers what is left of them. Neither falls below zero by more
than a sentinel or a trailer, and neither does at all exactly when there is as much as is taken
away. If there is not, there is an answer all the same: operands with the same ranks are all
answered or all refused. -/
theorem embedding_sizes (hop : op = .embeddingBag ∨ op = .embeddingBagRowwise)
    (metas : List Meta) (hmetas : ∀ m ∈ metas, m.Nonneg) (node : Node) (ctx : Context) :
    (∀ results, apply op metas node ctx = .ok results ↔
      ∃ bags width, Pools ctx op metas bags width ∧
        results = [.tensor [bags.left, width.left]]) ∧
    (∀ bags width, Pools ctx op metas bags width → -1 ≤ bags.left ∧ -8 ≤ width.left ∧
      (Shape.Nonneg [bags.left, width.left] ↔ bags.Fits ∧ width.Fits)) ∧
    ∀ metas', metas'.map Meta.rank? = metas.map Meta.rank? →
      ((∃ results, apply op metas' node ctx = .ok results) ↔
        ∃ results, apply op metas node ctx = .ok results) := by
  refine ⟨?_, ?_, ?_⟩
  · intro results
    exact apply_eq_ok_iff_pools hop
  · intro bags width h
    obtain ⟨hcount, hsentinel, hwidth, htrailer⟩ := h.bounds hmetas
    have htrailer' : width.taken ≤ 8 := htrailer
    refine ⟨?_, ?_, ?_⟩
    · unfold Remainder.left
      omega
    · unfold Remainder.left
      omega
    · simp only [Shape.nonneg_cons, Shape.nonneg_nil, and_true, Remainder.left_nonneg_iff]
  · intro metas' hrank
    exact exists_apply_congr hop hrank

/-- A table, indices and offsets, with the settings of an embedding bag. -/
def bagOperands (table indices offsets : Shape) : List Meta :=
  [.tensor table, .tensor indices, .tensor offsets, .scalar 0, .scalar 0, .scalar 0, .nothing,
    .scalar 1]

/-- Five offsets start four bags. No offsets are not refused either. -/
theorem embedding_sizes_five :
    (∀ m ∈ bagOperands [100, 16] [30] [5], m.Nonneg) ∧
      apply .embeddingBag (bagOperands [100, 16] [30] [5]) .pool {} = .ok [.tensor [4, 16]] ∧
      (bagOperands [100, 16] [30] [0]).map Meta.rank?
        = (bagOperands [100, 16] [30] [5]).map Meta.rank? ∧
      ∃ results, apply .embeddingBag (bagOperands [100, 16] [30] [0]) .pool {} = .ok results := by
  have hmetas : ∀ m ∈ bagOperands [100, 16] [30] [5], m.Nonneg := by
    simp [bagOperands, Shape.Nonneg]
  obtain ⟨hresults, _, hranks⟩ :=
    embedding_sizes (.inl rfl) (bagOperands [100, 16] [30] [5]) hmetas .pool {}
  have hfive : apply .embeddingBag (bagOperands [100, 16] [30] [5]) .pool {}
      = .ok [.tensor [4, 16]] :=
    (hresults _).mpr ⟨_, _, .offsets 100 16 30 5 _ rfl, rfl⟩
  exact ⟨hmetas, hfive, rfl, (hranks (bagOperands [100, 16] [30] [0]) rfl).mpr ⟨_, hfive⟩⟩

/-- **Sizes fall below zero.** A sentinel among no offsets leaves less than no bags, and rows of
four bytes, without a trailer of eight, a width below zero. -/
theorem not_nonneg_embedding :
    (¬ ∀ (metas results : List Meta) (node : Node) (ctx : Context), (∀ m ∈ metas, m.Nonneg) →
      apply .embeddingBag metas node ctx = .ok results → ∀ m ∈ results, m.Nonneg) ∧
    ¬ ∀ (metas results : List Meta) (node : Node) (ctx : Context), (∀ m ∈ metas, m.Nonneg) →
      apply .embeddingBagRowwise metas node ctx = .ok results → ∀ m ∈ results, m.Nonneg := by
  constructor
  · intro h
    have hresults := h (bagOperands [100, 16] [30] [0]) [.tensor [-1, 16]] .pool {}
      (by simp [bagOperands, Shape.Nonneg]) rfl
    simp at hresults
  · intro h
    have hresults := h (bagOperands [100, 4] [30] [5]) [.tensor [4, -4]] .pool {}
      (by simp [bagOperands, Shape.Nonneg]) rfl
    simp at hresults

end Rule

end GraphShapes
