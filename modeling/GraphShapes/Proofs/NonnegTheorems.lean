/-
GraphShapes.Proofs.NonnegTheorems — sizes stay at or above zero.

Sizes are integers, and several operations make new ones by arithmetic: the
last piece of an axis is what the others leave, a slice counts steps between
bounds that may be negative or far outside, and an open size of a reshape is a
quotient. None of them makes a size below zero out of sizes that are not, since
each has a guard for it. Only the embedding bags have no such guard: they take
a sentinel or a row's trailer away from a size, so they are left out here.

The invariant is about tensors. Integers and lists of integers may hold
anything, also where a later rule takes sizes from them.

  §1 Shapes — one lemma for each operation on shapes.
  §2 Rules  — every rule but the embedding bags'.
  §3 Runs   — one step, then nodes, inputs and the run as a whole.
-/
import GraphShapes.Proofs.BroadcastTheorems
import GraphShapes.Proofs.RuleTheorems
import GraphShapes.Proofs.EngineTheorems

namespace GraphShapes

/-! ## §1 Shapes -/

namespace Shape

variable {shape first out target a b : Shape} {rest : List Shape} {axis : Int}

/-- No size is below zero. -/
def Nonneg (shape : Shape) : Prop := ∀ n ∈ shape, 0 ≤ n

theorem nonneg_nil : Nonneg [] := nofun

@[simp] theorem nonneg_cons {n : Int} : Nonneg (n :: shape) ↔ 0 ≤ n ∧ shape.Nonneg :=
  List.forall_mem_cons

/-- A missing size counts as zero. -/
theorem Nonneg.getD (h : shape.Nonneg) (i : Nat) : 0 ≤ shape.getD i 0 := by
  rw [List.getD_eq_getElem?_getD]
  cases hi : shape[i]? with
  | none => exact Int.le_refl 0
  | some n => exact h n (List.mem_of_getElem? hi)

theorem Nonneg.set (h : shape.Nonneg) (i : Nat) {n : Int} (hn : 0 ≤ n) :
    Nonneg (shape.set i n) := by
  intro m hm
  rcases List.mem_or_eq_of_mem_set hm with hold | rfl
  · exact h m hold
  · exact hn

theorem nonneg_broadcast (ha : a.Nonneg) (hb : b.Nonneg) (h : broadcast a b = .ok out) :
    out.Nonneg := by
  intro n hn
  rcases (sizes_broadcast h).2 n hn with hmem | hmem
  · exact ha n hmem
  · exact hb n hmem

theorem nonneg_matmul (ha : a.Nonneg) (hb : b.Nonneg) (h : matmul a b = .ok out) :
    out.Nonneg := by
  obtain ⟨n, k, m, rfl, rfl, rfl⟩ := matmul_eq_ok_iff.mp h
  simp_all [nonneg_nil]

theorem nonneg_batchMatmul (ha : a.Nonneg) (hb : b.Nonneg) (h : batchMatmul a b = .ok out) :
    out.Nonneg := by
  obtain ⟨s, n, k, m, rfl, rfl, rfl⟩ := batchMatmul_eq_ok_iff.mp h
  simp_all [nonneg_nil]

/-- A piece is the shape with the size of the equal pieces or of the last one. -/
theorem eq_set_of_mem_pieces {i n : Nat} {c r : Int} {piece : Shape}
    (h : piece ∈ pieces shape i c r n) : piece = shape.set i c ∨ piece = shape.set i r := by
  fun_induction pieces with
  | case1 => cases h
  | case2 => exact Or.inr (List.mem_singleton.mp h)
  | case3 n ih =>
    rcases List.mem_cons.mp h with rfl | hrest
    · exact Or.inl rfl
    · exact ih hrest

theorem pieceSize_nonneg {size chunks : Int} (hsize : 0 ≤ size) (hchunks : 1 ≤ chunks) :
    0 ≤ pieceSize size chunks :=
  Int.ediv_nonneg (by omega) (by omega)

/-- The guard of a cut is that the last piece has a size. -/
theorem nonneg_chunk {chunks : Int} {cut : List Shape} (hs : shape.Nonneg)
    (h : chunk shape chunks axis = .ok cut) : ∀ piece ∈ cut, piece.Nonneg := by
  obtain ⟨hchunks, i, _, hlast, rfl⟩ := chunk_eq_ok_iff.mp h
  intro piece hpiece
  rcases eq_set_of_mem_pieces hpiece with rfl | rfl
  · exact hs.set i (pieceSize_nonneg (hs.getD i) hchunks)
  · exact hs.set i hlast

theorem nonneg_join {along j : Nat} (ha : a.Nonneg) (hb : b.Nonneg)
    (h : join along j a b = .ok out) : out.Nonneg := by
  induction a generalizing j b out with
  | nil =>
    rw [join_nil_left] at h
    exact Except.ok.inj h ▸ nonneg_nil
  | cons n as ih =>
    cases b with
    | nil =>
      rw [join_nil_right] at h
      exact Except.ok.inj h ▸ nonneg_nil
    | cons m bs =>
      obtain ⟨_, joined, hjoined, rfl⟩ := join_cons_eq_ok_iff.mp h
      obtain ⟨hn, has⟩ := nonneg_cons.mp ha
      obtain ⟨hm, hbs⟩ := nonneg_cons.mp hb
      refine nonneg_cons.mpr ⟨?_, ih has hbs hjoined⟩
      split
      · exact Int.add_nonneg hn hm
      · exact hn

theorem nonneg_joinAll {along : Nat} (hs : shape.Nonneg) (hrest : ∀ s ∈ rest, s.Nonneg)
    (h : joinAll along shape rest = .ok out) : out.Nonneg := by
  induction rest generalizing shape with
  | nil =>
    rw [joinAll] at h
    exact Except.ok.inj h ▸ hs
  | cons s rest ih =>
    obtain ⟨_, joined, hjoined, hout⟩ := joinAll_cons_eq_ok_iff.mp h
    obtain ⟨hfirst, hothers⟩ := List.forall_mem_cons.mp hrest
    exact ih (nonneg_join hs hfirst hjoined) hothers hout

theorem nonneg_concat (hfirst : first.Nonneg) (hrest : ∀ s ∈ rest, s.Nonneg)
    (h : concat first rest axis = .ok out) : out.Nonneg := by
  rcases concat_eq_ok_iff.mp h with ⟨_, rfl⟩ | ⟨_, i, _, hall⟩
  · exact hfirst
  · exact nonneg_joinAll hfirst hrest hall

theorem nonneg_stack (hfirst : first.Nonneg) (h : stack first rest axis = .ok out) :
    out.Nonneg := by
  rcases stack_eq_ok_iff.mp h with ⟨_, rfl⟩ | ⟨_, _, i, _, rfl⟩
  · exact hfirst
  · intro n hn
    rcases List.mem_append.mp hn with hfront | hbehind
    · exact hfirst n (List.mem_of_mem_take hfront)
    · rcases List.mem_cons.mp hbehind with rfl | hback
      · omega
      · exact hfirst n (List.mem_of_mem_drop hback)

/-- A slice keeps no fewer than no positions, whatever its bounds are: a range
that is not empty runs forward. -/
theorem sliceLength_nonneg {length start stop step : Int} (hstep : 1 ≤ step) :
    0 ≤ sliceLength length start stop step := by
  unfold sliceLength
  cases hrange : sliceRange? length start stop with
  | none => exact Int.le_refl 0
  | some range =>
    obtain ⟨lo, hi⟩ := range
    have hforward : lo < hi := by
      unfold sliceRange? at hrange
      split at hrange
      · cases hrange
      · dsimp only at hrange
        -- What the two bounds are clamped to does not matter, only how they compare.
        generalize (if start ≤ -length then 0 else if start < 0 then start + length else start)
          = x at hrange
        generalize (if stop > length then length else if stop < 0 then stop + length else stop)
          = y at hrange
        split at hrange
        · cases hrange
        · cases hrange
          omega
    have hquotient : 0 ≤ Int.fdiv (hi - lo) step := Int.fdiv_nonneg (by omega) (by omega)
    simp only [stepsAcross]
    split <;> omega

theorem nonneg_slice {start stop step : Int} (hs : shape.Nonneg)
    (h : slice shape axis start stop step = .ok out) : out.Nonneg := by
  obtain ⟨hstep, i, _, rfl⟩ := slice_eq_ok_iff.mp h
  exact hs.set i (sliceLength_nonneg hstep)

theorem size_nonneg (hs : shape.Nonneg) : 0 ≤ size shape := by
  induction shape with
  | nil => decide
  | cons n rest ih =>
    obtain ⟨hn, hrest⟩ := nonneg_cons.mp hs
    exact Int.mul_nonneg hn (ih hrest)

/-- With nothing below `-1` in a target, what is not left open is no less than zero. -/
theorem nonneg_explicitSizes (h : ∀ d ∈ target, -1 ≤ d) : Nonneg (explicitSizes target) := by
  intro d hd
  obtain ⟨hmem, hopen⟩ := List.mem_filter.mp hd
  have hleast := h d hmem
  simp only [ne_eq, decide_eq_true_eq] at hopen
  omega

theorem nonneg_reshape (hs : shape.Nonneg) (h : reshape shape target = .ok out) :
    out.Nonneg := by
  obtain ⟨_, _, hleast, rfl⟩ := reshape_eq_ok_iff.mp h
  intro n hn
  obtain ⟨d, hd, rfl⟩ := List.mem_map.mp hn
  -- An open size is a quotient of products; a size that is given is at least `-1`, and not that.
  split
  · exact Int.ediv_nonneg (size_nonneg hs) (size_nonneg (nonneg_explicitSizes hleast))
  · have := hleast d hd
    omega

theorem nonneg_permute {axes : List Int} (hs : shape.Nonneg)
    (h : permute shape axes = .ok out) : out.Nonneg := by
  intro n hn
  obtain ⟨axis, _, _, hget⟩ := exists_of_forall₂_of_mem (permute_eq_ok_iff.mp h).2 hn
  exact hs n (List.mem_of_getElem? hget)

end Shape

/-! ## §2 Rules -/

/-- A tensor has no size below zero; anything else may hold anything. -/
def Meta.Nonneg (m : Meta) : Prop := ∀ sizes, m = .tensor sizes → sizes.Nonneg

@[simp] theorem Meta.nonneg_tensor {sizes : Shape} :
    Meta.Nonneg (.tensor sizes) ↔ sizes.Nonneg := by
  simp [Meta.Nonneg]

@[simp] theorem Meta.nonneg_scalar (n : Int) : Meta.Nonneg (.scalar n) := nofun

@[simp] theorem Meta.nonneg_ints (ns : List Int) : Meta.Nonneg (.ints ns) := nofun

@[simp] theorem Meta.nonneg_nothing : Meta.Nonneg .nothing := nofun

/-- The sizes of an attribute are those of an array. -/
theorem Node.nonneg_tensorAttribute {node : Node} {name : String} {sizes : Shape}
    (h : node.tensorAttribute name = .ok sizes) : sizes.Nonneg := by
  have hcast (ns : List Nat) : Shape.Nonneg (ns.map Int.ofNat) := by
    simp [Shape.Nonneg]
  unfold Node.tensorAttribute at h
  obtain ⟨d, _, h⟩ := bind_eq_ok_iff.mp h
  split at h
  · next ns _ _ => exact Except.ok.inj h ▸ hcast ns
  · split at h
    · cases h
    · split at h
      · next ns _ => exact Except.ok.inj h ▸ hcast ns
      · cases h

namespace Rule

variable {m a b : Meta} {metas results : List Meta} {node : Node} {ctx : Context}
  {op : Operator}

theorem nonneg_constant (h : constant node ctx = .ok results) : ∀ m ∈ results, m.Nonneg := by
  rcases constant_eq_ok h with rfl | rfl | ⟨n, _, rfl⟩ | ⟨sizes, hsizes, rfl⟩ | ⟨ns, _, rfl⟩
  all_goals simp only [List.mem_singleton, forall_eq, Meta.nonneg_scalar, Meta.nonneg_nothing,
    Meta.nonneg_ints, Meta.nonneg_tensor]
  exact Node.nonneg_tensorAttribute hsizes

theorem nonneg_combine (ha : a.Nonneg) (hb : b.Nonneg) (h : combine op a b = .ok m) :
    m.Nonneg := by
  rcases combine_eq_ok h with ⟨s, t, u, rfl, rfl, hu, rfl⟩ | ⟨s, n, rfl, _, rfl⟩ |
    ⟨n, t, _, rfl, rfl⟩ | ⟨x, y, n, _, _, rfl⟩
  · rw [Meta.nonneg_tensor] at ha hb ⊢
    exact Shape.nonneg_broadcast ha hb hu
  · exact ha
  · exact hb
  · exact Meta.nonneg_scalar n

theorem nonneg_binary (hmetas : ∀ m ∈ metas, m.Nonneg) (h : binary op metas = .ok results) :
    ∀ m ∈ results, m.Nonneg := by
  obtain ⟨a, b, rest, m, rfl, hm, rfl⟩ := binary_eq_ok h
  simp only [List.forall_mem_cons] at hmetas ⊢
  exact ⟨nonneg_combine hmetas.1 hmetas.2.1 hm, nofun⟩

theorem nonneg_multiplyAdd (hmetas : ∀ m ∈ metas, m.Nonneg)
    (h : multiplyAdd metas = .ok results) : ∀ m ∈ results, m.Nonneg := by
  obtain ⟨c, a, b, rest, product, m, rfl, hproduct, hm, rfl⟩ := multiplyAdd_eq_ok h
  simp only [List.forall_mem_cons] at hmetas ⊢
  obtain ⟨hc, ha, hb, _⟩ := hmetas
  have hinner : product.Nonneg := by
    rcases innerProduct_eq_ok hproduct with ⟨n, _, rfl⟩ | ⟨s, t, u, rfl, rfl, hu, rfl⟩
    · exact ha
    · rw [Meta.nonneg_tensor] at ha hb ⊢
      exact Shape.nonneg_matmul ha hb hu
  exact ⟨nonneg_combine hc hinner hm, nofun⟩

/-- Joining keeps to sizes above zero if the operation on shapes does. -/
theorem nonneg_joined {code : String}
    {operation : Shape → List Shape → Int → Except Shape.Defect Shape}
    (hoperation : ∀ {first rest axis out}, first.Nonneg → (∀ s ∈ rest, s.Nonneg) →
      operation first rest axis = .ok out → out.Nonneg)
    (hmetas : ∀ m ∈ metas, m.Nonneg) (h : joined code operation node metas = .ok results) :
    ∀ m ∈ results, m.Nonneg := by
  rcases joined_eq_ok h with ⟨m, rfl, rfl⟩ | ⟨first, rest, axis, out, rfl, _, hout, rfl⟩
  · exact hmetas
  · simp only [List.map_cons, List.forall_mem_cons, List.forall_mem_map,
      Meta.nonneg_tensor] at hmetas ⊢
    exact ⟨hoperation hmetas.1 hmetas.2 hout, nofun⟩

theorem nonneg_constantChunk (hmetas : ∀ m ∈ metas, m.Nonneg)
    (h : constantChunk node metas = .ok results) : ∀ m ∈ results, m.Nonneg := by
  obtain ⟨shape, chunks, axis, pieces, rfl, _, _, hpieces, rfl⟩ := constantChunk_eq_ok h
  simp only [List.forall_mem_cons, List.forall_mem_map, Meta.nonneg_tensor] at hmetas ⊢
  exact Shape.nonneg_chunk hmetas.1 hpieces

/-- **Rules.** Operands without sizes below zero have results without, except
under an embedding bag. -/
theorem nonneg_apply (hbag : op ≠ .embeddingBag) (hrowwise : op ≠ .embeddingBagRowwise)
    (hmetas : ∀ m ∈ metas, m.Nonneg) (h : apply op metas node ctx = .ok results) :
    ∀ m ∈ results, m.Nonneg := by
  cases op with
  | constant => exact nonneg_constant h
  | listConstruct =>
    obtain ⟨ns, _, rfl⟩ := listConstruct_eq_ok h
    simp
  | constantChunk => exact nonneg_constantChunk hmetas h
  | fusedConcat => exact nonneg_joined Shape.nonneg_concat hmetas h
  | fusedStack => exact nonneg_joined (fun hfirst _ => Shape.nonneg_stack hfirst) hmetas h
  | tanh | relu | sigmoid =>
    obtain ⟨m, rfl, rfl⟩ := elementwise_eq_ok_iff.mp h
    exact hmetas
  | add | sub | mul | pow => exact nonneg_binary hmetas h
  | mm =>
    obtain ⟨s, t, u, rfl, hu, rfl⟩ := matrixProduct_eq_ok h
    simp only [List.forall_mem_cons, Meta.nonneg_tensor] at hmetas ⊢
    exact ⟨Shape.nonneg_matmul hmetas.1 hmetas.2.1 hu, nofun⟩
  | bmm =>
    obtain ⟨s, t, u, rfl, hu, rfl⟩ := batchProduct_eq_ok h
    simp only [List.forall_mem_cons, Meta.nonneg_tensor] at hmetas ⊢
    exact ⟨Shape.nonneg_batchMatmul hmetas.1 hmetas.2.1 hu, nofun⟩
  | addmm => exact nonneg_multiplyAdd hmetas h
  | slice =>
    obtain ⟨shape, axis, start, stop, step, out, rfl, hout, rfl⟩ := sliced_eq_ok h
    simp only [List.forall_mem_cons, Meta.nonneg_tensor] at hmetas ⊢
    exact ⟨Shape.nonneg_slice hmetas.1 hout, nofun⟩
  | reshape =>
    obtain ⟨shape, target, out, rfl, hout, rfl⟩ := reshaped_eq_ok h
    simp only [List.forall_mem_cons, Meta.nonneg_tensor] at hmetas ⊢
    exact ⟨Shape.nonneg_reshape hmetas.1 hout, nofun⟩
  | permute =>
    obtain ⟨shape, axes, out, rfl, hout, rfl⟩ := permuted_eq_ok h
    simp only [List.forall_mem_cons, Meta.nonneg_tensor] at hmetas ⊢
    exact ⟨Shape.nonneg_permute hmetas.1 hout, nofun⟩
  | embeddingBag => exact absurd rfl hbag
  | embeddingBagRowwise => exact absurd rfl hrowwise

end Rule

/-! ## §3 Runs -/

/-- No tensor of the store has a size below zero. -/
def Store.Nonneg (s : Store) : Prop := ∀ entry ∈ s, entry.2.Nonneg

/-- Is the node an embedding bag? -/
def Node.IsEmbeddingBag (node : Node) : Prop :=
  node.op = .text Operator.embeddingBag.tag ∨ node.op = .text Operator.embeddingBagRowwise.tag

/-- Values found in a store are values of the store. -/
theorem Store.Nonneg.of_map_eq {s : Store} (hs : s.Nonneg) {names : List Name}
    {metas : List Meta} (h : names.map (lookup? s) = metas.map some) : ∀ m ∈ metas, m.Nonneg := by
  intro m hm
  obtain ⟨name, _, hfound⟩ := exists_of_forall₂_of_mem (map_eq_map_some_iff.mp h) hm
  obtain ⟨n, hmem, _⟩ := exists_of_lookup? hfound
  exact hs (n, m) hmem

namespace Graph

variable {g : Graph} {config : Config} {s : Store} {node : Node} {nodes : List Node}
  {inputs : List Datum} {results : List Meta}

/-- What a node answers from a store without sizes below zero has none. -/
theorem Answers.nonneg (h : g.Answers config (lookup? s) node results) (hs : s.Nonneg)
    (hnode : ¬ node.IsEmbeddingBag) : ∀ m ∈ results, m.Nonneg := by
  obtain ⟨op, metas, htag, hmetas, hrule⟩ := h
  have hop := Operator.tag_of_ofTag? htag
  refine Rule.nonneg_apply ?_ ?_ (hs.of_map_eq hmetas) hrule
  · rintro rfl
    exact hnode (Or.inl hop)
  · rintro rfl
    exact hnode (Or.inr hop)

/-- One node, whether it goes through or stops. -/
theorem nonneg_inferNode (hs : s.Nonneg) (hnode : ¬ node.IsEmbeddingBag) :
    (g.inferNode config s node).store.Nonneg := by
  rcases store_inferNode_cases g config s node with hsame | ⟨results, k, hans, hstore⟩
  · rwa [hsame]
  · rw [hstore]
    intro entry he
    -- What is new is a part of the answer, all of it unless the node stops half way.
    rcases List.mem_append.mp he with hold | hnew
    · exact hs entry hold
    · have hzip := List.mem_of_mem_take hnew
      exact hans.nonneg hs hnode entry.2 (List.of_mem_zip hzip).2

theorem nonneg_inferNodes (hs : s.Nonneg) (hnodes : ∀ node ∈ nodes, ¬ node.IsEmbeddingBag) :
    (g.inferNodes config s nodes).store.Nonneg := by
  induction nodes generalizing s with
  | nil => exact hs
  | cons node rest ih =>
    obtain ⟨hnode, hrest⟩ := List.forall_mem_cons.mp hnodes
    have hstep : (g.inferNode config s node).store.Nonneg := nonneg_inferNode hs hnode
    rw [inferNodes]
    cases hfault : (g.inferNode config s node).fault with
    | some f => rwa [Progress.andThen_of_fault hfault]
    | none =>
      rw [Progress.store_andThen hfault]
      exact ih hstep hrest

theorem nonneg_bindInputs
    (hinputs : ∀ d ∈ inputs, ∀ m, Input.toMeta d = .ok m → m.Nonneg) :
    (g.bindInputs inputs []).store.Nonneg := by
  unfold bindInputs
  split
  · intro entry he
    rcases mem_store_bindEach he with hold | ⟨d, hmem, hd⟩
    · cases hold
    · exact hinputs d (List.of_mem_zip hmem).2 entry.2 hd
  · exact nofun

theorem nonneg_walk (hnodes : ∀ node ∈ g.nodes, ¬ node.IsEmbeddingBag)
    (hinputs : ∀ d ∈ inputs, ∀ m, Input.toMeta d = .ok m → m.Nonneg) :
    (g.walk config inputs).store.Nonneg := by
  rw [walk]
  cases hfault : (g.bindInputs inputs []).fault with
  | some f =>
    rw [Progress.andThen_of_fault hfault]
    exact nonneg_bindInputs hinputs
  | none =>
    rw [Progress.store_andThen hfault]
    exact nonneg_inferNodes (nonneg_bindInputs hinputs) hnodes

end Graph

/-- **No size below zero.** Over concrete inputs whose tensors have no size below
zero, a run of a new engine leaves no tensor that has one, whether it succeeds or
stops and wherever it stops, provided that no node is an embedding bag. -/
theorem nonneg_inferShapes {g : Graph} {inputs : List Datum} {config : Config}
    (hnodes : ∀ node ∈ g.nodes, ¬ node.IsEmbeddingBag)
    (hinputs : ∀ d ∈ inputs, ∀ sizes, Input.toMeta d = .ok (.tensor sizes) → sizes.Nonneg) :
    ∀ name sizes, (name, Meta.tensor sizes) ∈ (inferShapes g inputs config).engine.store →
      sizes.Nonneg := by
  intro name sizes hmem
  have hbound : ∀ d ∈ inputs, ∀ m, Input.toMeta d = .ok m → m.Nonneg := by
    rintro d hd m hm sizes rfl
    exact hinputs d hd sizes hm
  unfold inferShapes at hmem
  rcases Engine.store_run_cases g { inputs, config } with hempty | hwalk
  · rw [hempty] at hmem
    cases hmem
  · rw [hwalk] at hmem
    exact Graph.nonneg_walk hnodes hbound _ hmem sizes rfl

/-- A slice, a reshape of what is left of it, and a cut that cannot be made. -/
def Graph.emptying : Graph where
  nodes :=
    [{ op := .text "aten::slice", inputs := ["x", "axis", "start", "stop", "step"].map .text,
       outputs := [.text "none"] },
     { op := .text "aten::reshape", inputs := ["none", "target"].map .text,
       outputs := [.text "wide"] },
     { op := .text "prim::ConstantChunk", inputs := [.text "x"],
       outputs := ["p", "q", "r", "s"].map .text,
       attributes := [(.text "chunks", .int 4), (.text "dim", .int 0)] }]
  inputs := ["x", "axis", "start", "stop", "step", "target"].map .text

/-- Bounds of a slice that lie in front of an axis of size five, and a target with
an open size. -/
def Input.emptying : List Datum :=
  [.array [5, 3] .float32, .int 0, .int (-100), .int (-6), .int 2, .list [.int (-1), .int 7]]

/-- A slice that keeps nothing leaves a size of zero, and so does the open size of
its reshape; four pieces of five would leave a last one of size minus one, so the
run stops there. -/
theorem nonneg_inferShapes_emptying :
    (inferShapes .emptying Input.emptying).result.toOption = none ∧
      (inferShapes .emptying Input.emptying).engine.store.map Prod.snd
        = [.tensor [5, 3], .scalar 0, .scalar (-100), .scalar (-6), .scalar 2, .ints [-1, 7],
           .tensor [0, 3], .tensor [0, 7]] ∧
      ∀ name sizes,
        (name, Meta.tensor sizes) ∈ (inferShapes .emptying Input.emptying).engine.store →
          sizes.Nonneg := by
  refine ⟨by decide +kernel, by decide +kernel, nonneg_inferShapes ?_ ?_⟩
  · simp [Graph.emptying, Node.IsEmbeddingBag, Operator.tag]
  · simp [Input.emptying, Input.toMeta, Input.ofList, Datum.asInt?, Datum.isIntegral,
      Datum.isWhole, Datum.asInts?, Shape.Nonneg]

end GraphShapes
