/-
GraphShapes.Proofs.RuleTheorems — what a rule answers when it answers.

A rule looks at the kinds of its operands and at attributes of its node, and
hands sizes to an operation on shapes. For each rule one lemma reads an answer
back: the operands it was given, the operation that succeeded, and the results
made of it. Invariants of runs are case analyses of these lemmas.

  §1 Operands    — kinds of operands, shape operations on behalf of a node.
  §2 Arithmetic  — constants, arithmetic, matrix products.
  §3 Layout      — cutting, joining, rearranging.
  §4 Embedding   — embedding bags.
  §5 Contexts    — what a rule looks at beside its operands and its node.
-/
import GraphShapes.Proofs.ResultTheorems
import GraphShapes.Rule

namespace GraphShapes.Rule

variable {what code : String} {m a b : Meta} {metas results : List Meta} {node : Node}
  {ctx : Context} {op : Operator}

/-! ## §1 Operands -/

@[simp] theorem refuse_ne_ok {α : Type} {d : NodeDefect} {x : α} : refuse d ≠ .ok x := nofun

@[simp] theorem refuse_bind {α β : Type} (d : NodeDefect) (f : α → Except Refusal β) :
    refuse d >>= f = refuse d := rfl

@[simp] theorem arity_ne_ok {α : Type} {least : Nat} {greatest : Option Nat} {x : α} :
    arity least greatest metas ≠ .ok x := nofun

@[simp] theorem shaped_ok {α : Type} (x : α) : shaped (.ok x) = .ok x := rfl

@[simp] theorem shaped_error {α : Type} (d : Shape.Defect) :
    shaped (.error d : Except Shape.Defect α) = refuse (.shape d) := rfl

/-- A shape operation succeeds on behalf of a node when it does by itself. -/
theorem shaped_eq_ok_iff {α : Type} {r : Except Shape.Defect α} {x : α} :
    shaped r = .ok x ↔ r = .ok x := by
  cases r with
  | error d => simp
  | ok y => simp

theorem tensor_eq_ok_iff {sizes : Shape} : tensor what code m = .ok sizes ↔ m = .tensor sizes := by
  cases m <;> simp [tensor]

theorem scalar_eq_ok_iff {n : Int} : scalar what code m = .ok n ↔ m = .scalar n := by
  cases m <;> simp [scalar]

theorem integers_eq_ok_iff {ns : List Int} : integers what code m = .ok ns ↔ m = .ints ns := by
  cases m <;> simp [integers]

/-- Operands have sizes when all of them are tensors. -/
theorem tensors_eq_ok_iff {i : Nat} {shapes : List Shape} :
    tensors code i metas = .ok shapes ↔ metas = shapes.map .tensor := by
  induction metas generalizing i shapes with
  | nil => cases shapes <;> simp [tensors]
  | cons m rest ih =>
    simp only [tensors, bind_eq_ok_iff, pure_eq_ok_iff, tensor_eq_ok_iff, ih]
    constructor
    · rintro ⟨sizes, rfl, shapes', rfl, rfl⟩
      rfl
    · intro h
      cases shapes with
      | nil => cases h
      | cons sizes shapes' =>
        cases h
        exact ⟨sizes, rfl, shapes', rfl, rfl⟩

/-- Elements have integers when all of them are integers. -/
theorem elements_eq_ok_iff {i : Nat} {ns : List Int} :
    elements code i metas = .ok ns ↔ metas = ns.map .scalar := by
  induction metas generalizing i ns with
  | nil => cases ns <;> simp [elements]
  | cons m rest ih =>
    simp only [elements, bind_eq_ok_iff, pure_eq_ok_iff, scalar_eq_ok_iff, ih]
    constructor
    · rintro ⟨n, rfl, ns', rfl, rfl⟩
      rfl
    · intro h
      cases ns with
      | nil => cases h
      | cons n ns' =>
        cases h
        exact ⟨n, rfl, ns', rfl, rfl⟩

/-! ## §2 Arithmetic -/

/-- A constant is made of its attribute, unless its declared type says that the
attribute does not matter. -/
theorem constant_eq_ok (h : constant node ctx = .ok results) :
    results = [.scalar 1] ∨ results = [.nothing] ∨
      (∃ n, node.intAttribute "value" = .ok n ∧ results = [.scalar n]) ∨
      (∃ sizes, node.tensorAttribute "value" = .ok sizes ∧ results = [.tensor sizes]) ∨
      ∃ ns, node.intsAttribute "value" = .ok ns ∧ results = [.ints ns] := by
  unfold constant at h
  cases hkind : constantKind ctx with
  | float | nothing | untracked => simp_all [pure_eq_ok_iff]
  | incomparable => simp [hkind] at h
  | integer | tensor | integers =>
    simp only [hkind, bind_eq_ok_iff, pure_eq_ok_iff] at h
    obtain ⟨x, hx, rfl⟩ := h
    simp [hx]

theorem elementwise_eq_ok_iff :
    elementwise metas = .ok results ↔ ∃ m, metas = [m] ∧ results = [m] := by
  unfold elementwise
  split
  · next m => simp [eq_comm]
  · next hmetas =>
    simp only [arity_ne_ok, false_iff]
    rintro ⟨m, rfl, _⟩
    exact hmetas m rfl

/-- Two integers are folded to an integer. -/
theorem fold_eq_ok {x y : Int} (h : fold op x y = .ok m) : ∃ n, m = .scalar n := by
  unfold fold at h
  split at h
  · exact ⟨_, (Except.ok.inj h).symm⟩
  · exact ⟨_, (Except.ok.inj h).symm⟩
  · exact ⟨_, (Except.ok.inj h).symm⟩
  · split at h
    · simp at h
    · exact ⟨_, (Except.ok.inj h).symm⟩
  · simp at h

/-- Two operands of arithmetic: tensors broadcast, an integer beside a tensor has no
say, and two integers are folded. -/
theorem combine_eq_ok (h : combine op a b = .ok m) :
    (∃ s t u, a = .tensor s ∧ b = .tensor t ∧ Shape.broadcast s t = .ok u ∧ m = .tensor u) ∨
      (∃ s n, a = .tensor s ∧ b = .scalar n ∧ m = .tensor s) ∨
      (∃ n t, a = .scalar n ∧ b = .tensor t ∧ m = .tensor t) ∨
      ∃ x y n, a = .scalar x ∧ b = .scalar y ∧ m = .scalar n := by
  unfold combine at h
  split at h
  · next s t =>
    simp only [bind_eq_ok_iff, pure_eq_ok_iff, shaped_eq_ok_iff] at h
    obtain ⟨u, hu, rfl⟩ := h
    exact Or.inl ⟨s, t, u, rfl, rfl, hu, rfl⟩
  · next s n =>
    cases h
    exact Or.inr (Or.inl ⟨s, n, rfl, rfl, rfl⟩)
  · next n t =>
    cases h
    exact Or.inr (Or.inr (Or.inl ⟨n, t, rfl, rfl, rfl⟩))
  · next x y =>
    obtain ⟨n, rfl⟩ := fold_eq_ok h
    exact Or.inr (Or.inr (Or.inr ⟨x, y, n, rfl, rfl, rfl⟩))
  · simp at h

/-- Arithmetic takes two operands and perhaps a third one that has no say. -/
theorem binary_eq_ok (h : binary op metas = .ok results) :
    ∃ a b rest m, metas = a :: b :: rest ∧ combine op a b = .ok m ∧ results = [m] := by
  unfold binary at h
  split at h
  · next a b =>
    simp only [bind_eq_ok_iff, pure_eq_ok_iff] at h
    obtain ⟨m, hm, rfl⟩ := h
    exact ⟨a, b, [], m, rfl, hm, rfl⟩
  · next a b c =>
    simp only [bind_eq_ok_iff, pure_eq_ok_iff] at h
    obtain ⟨m, hm, rfl⟩ := h
    exact ⟨a, b, [c], m, rfl, hm, rfl⟩
  · simp at h

theorem matrixProduct_eq_ok (h : matrixProduct metas = .ok results) :
    ∃ s t u, metas = [.tensor s, .tensor t] ∧ Shape.matmul s t = .ok u ∧ results = [.tensor u] := by
  unfold matrixProduct at h
  split at h
  · simp only [bind_eq_ok_iff, pure_eq_ok_iff, tensor_eq_ok_iff, shaped_eq_ok_iff] at h
    obtain ⟨s, rfl, t, rfl, u, hu, rfl⟩ := h
    exact ⟨s, t, u, rfl, hu, rfl⟩
  · simp at h

theorem batchProduct_eq_ok (h : batchProduct metas = .ok results) :
    ∃ s t u, metas = [.tensor s, .tensor t] ∧ Shape.batchMatmul s t = .ok u ∧
      results = [.tensor u] := by
  unfold batchProduct at h
  split at h
  · simp only [bind_eq_ok_iff, pure_eq_ok_iff, tensor_eq_ok_iff, shaped_eq_ok_iff] at h
    obtain ⟨s, rfl, t, rfl, u, hu, rfl⟩ := h
    exact ⟨s, t, u, rfl, hu, rfl⟩
  · simp at h

/-- The product inside a fused multiply-add is a matrix product, or the second
operand where the third is an integer. -/
theorem innerProduct_eq_ok (h : innerProduct a b = .ok m) :
    (∃ n, b = .scalar n ∧ m = a) ∨
      ∃ s t u, a = .tensor s ∧ b = .tensor t ∧ Shape.matmul s t = .ok u ∧ m = .tensor u := by
  unfold innerProduct at h
  split at h
  · next n => exact Or.inl ⟨n, rfl, (Except.ok.inj h).symm⟩
  · simp only [bind_eq_ok_iff, pure_eq_ok_iff, tensor_eq_ok_iff, shaped_eq_ok_iff] at h
    obtain ⟨s, rfl, t, rfl, u, hu, rfl⟩ := h
    exact Or.inr ⟨s, t, u, rfl, rfl, hu, rfl⟩

theorem multiplyAdd_eq_ok (h : multiplyAdd metas = .ok results) :
    ∃ c a b rest product m, metas = c :: a :: b :: rest ∧ innerProduct a b = .ok product ∧
      combine .addmm c product = .ok m ∧ results = [m] := by
  unfold multiplyAdd at h
  split at h
  · next c a b rest =>
    simp only [bind_eq_ok_iff, pure_eq_ok_iff] at h
    obtain ⟨product, hproduct, m, hm, rfl⟩ := h
    exact ⟨c, a, b, rest, product, m, rfl, hproduct, hm, rfl⟩
  · simp at h

/-! ## §3 Layout -/

theorem constantChunk_eq_ok (h : constantChunk node metas = .ok results) :
    ∃ shape chunks axis pieces, metas = [.tensor shape] ∧
      node.intAttribute "chunks" = .ok chunks ∧ node.intAttribute "dim" = .ok axis ∧
      Shape.chunk shape chunks axis = .ok pieces ∧ results = pieces.map .tensor := by
  unfold constantChunk at h
  split at h
  · simp only [bind_eq_ok_iff, pure_eq_ok_iff, tensor_eq_ok_iff, shaped_eq_ok_iff] at h
    obtain ⟨shape, rfl, chunks, hchunks, axis, haxis, pieces, hpieces, rfl⟩ := h
    exact ⟨shape, chunks, axis, pieces, rfl, hchunks, haxis, hpieces, rfl⟩
  · simp at h

/-- One operand is passed on as it is; several are joined if all are tensors. -/
theorem joined_eq_ok {operation : Shape → List Shape → Int → Except Shape.Defect Shape}
    (h : joined code operation node metas = .ok results) :
    (∃ m, metas = [m] ∧ results = [m]) ∨
      ∃ first rest axis out, metas = (first :: rest).map .tensor ∧
        node.intAttribute "dim" = .ok axis ∧ operation first rest axis = .ok out ∧
        results = [.tensor out] := by
  unfold joined at h
  split at h
  · simp at h
  · next m => exact Or.inl ⟨m, rfl, (Except.ok.inj h).symm⟩
  · simp only [bind_eq_ok_iff, pure_eq_ok_iff, tensor_eq_ok_iff, tensors_eq_ok_iff,
      shaped_eq_ok_iff] at h
    obtain ⟨first, rfl, rest, rfl, axis, haxis, out, hout, rfl⟩ := h
    exact Or.inr ⟨first, rest, axis, out, rfl, haxis, hout, rfl⟩

theorem listConstruct_eq_ok (h : listConstruct metas = .ok results) :
    ∃ ns, metas = ns.map .scalar ∧ results = [.ints ns] := by
  unfold listConstruct at h
  split at h
  · simp at h
  · simp only [bind_eq_ok_iff, pure_eq_ok_iff, elements_eq_ok_iff] at h
    obtain ⟨ns, rfl, rfl⟩ := h
    exact ⟨ns, rfl, rfl⟩

theorem sliced_eq_ok (h : sliced metas = .ok results) :
    ∃ shape axis start stop step out,
      metas = [.tensor shape, .scalar axis, .scalar start, .scalar stop, .scalar step] ∧
      Shape.slice shape axis start stop step = .ok out ∧ results = [.tensor out] := by
  unfold sliced at h
  split at h
  · simp only [bind_eq_ok_iff, pure_eq_ok_iff, tensor_eq_ok_iff, scalar_eq_ok_iff,
      shaped_eq_ok_iff] at h
    obtain ⟨shape, rfl, axis, rfl, start, rfl, stop, rfl, step, rfl, out, hout, rfl⟩ := h
    exact ⟨shape, axis, start, stop, step, out, rfl, hout, rfl⟩
  · simp at h

theorem reshaped_eq_ok (h : reshaped metas = .ok results) :
    ∃ shape target out, metas = [.tensor shape, .ints target] ∧
      Shape.reshape shape target = .ok out ∧ results = [.tensor out] := by
  unfold reshaped at h
  split at h
  · simp only [bind_eq_ok_iff, pure_eq_ok_iff, tensor_eq_ok_iff, integers_eq_ok_iff,
      shaped_eq_ok_iff] at h
    obtain ⟨shape, rfl, target, rfl, out, hout, rfl⟩ := h
    exact ⟨shape, target, out, rfl, hout, rfl⟩
  · simp at h

theorem permuted_eq_ok (h : permuted metas = .ok results) :
    ∃ shape axes out, metas = [.tensor shape, .ints axes] ∧
      Shape.permute shape axes = .ok out ∧ results = [.tensor out] := by
  unfold permuted at h
  split at h
  · simp only [bind_eq_ok_iff, pure_eq_ok_iff, tensor_eq_ok_iff, integers_eq_ok_iff,
      shaped_eq_ok_iff] at h
    obtain ⟨shape, rfl, axes, rfl, out, hout, rfl⟩ := h
    exact ⟨shape, axes, out, rfl, hout, rfl⟩
  · simp at h

/-! ## §4 Embedding -/

theorem embeddingBag_eq_ok (h : embeddingBag ctx metas = .ok results) :
    ∃ bags width, results = [.tensor [bags, width]] := by
  unfold embeddingBag at h
  split at h
  · rw [bind_eq_ok_iff] at h
    obtain ⟨width, _, h⟩ := h
    rw [bind_eq_ok_iff] at h
    obtain ⟨sizes, _, h⟩ := h
    split at h
    all_goals
      simp only [bind_eq_ok_iff, pure_eq_ok_iff] at h
      obtain ⟨bags, _, rfl⟩ := h
      exact ⟨bags, width, rfl⟩
  · simp at h

theorem embeddingBagRowwise_eq_ok (h : embeddingBagRowwise ctx metas = .ok results) :
    ∃ bags width, results = [.tensor [bags, width]] := by
  unfold embeddingBagRowwise at h
  split at h
  · simp only [bind_eq_ok_iff, pure_eq_ok_iff] at h
    obtain ⟨width, _, bags, _, rfl⟩ := h
    exact ⟨bags, width - rowTrailer, rfl⟩
  · simp at h

/-! ## §5 Contexts -/

/-- Only constants look at the declared types of their outputs. -/
theorem apply_congr {ctx' : Context} (hop : op ≠ .constant)
    (hoffset : ctx'.endOffset = ctx.endOffset) (metas : List Meta) (node : Node) :
    apply op metas node ctx' = apply op metas node ctx := by
  obtain ⟨endOffset, types'⟩ := ctx'
  cases hoffset
  cases op <;> first | rfl | exact absurd rfl hop

end GraphShapes.Rule
