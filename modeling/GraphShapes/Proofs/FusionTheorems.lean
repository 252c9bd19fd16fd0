/-
GraphShapes.Proofs.FusionTheorems — a fused multiply-add, and the product and sum in it.

The rule of a fused multiply-add contracts its two factors and then does what the rule of sums
does (`multiplyAdd_eq`), unless the second factor is an integer, in which case there is no
product at all. So in place of one answer there are two in a row, and they end in the same way
(`sameAnswer_multiplyAdd`): only the words for the first factor differ, and if a size is too
long for the one message it is too long for the other (`fused_untold`). In a graph, the product
needs a name. If the name is fresh, what is known of all others solves the equations with the
product known beside it (`Assignment.Solves.set`), and so a walk over the graph with the two
nodes finds what it found before, and the product (`Graph.Unfused.walk_eq`).

  §1 Rules     — the same answer in one step and in two.
  §2 Equations — a fresh name beside what is known.
  §3 Runs      — a node in a graph replaced by two.
-/
import GraphShapes.Proofs.EngineTheorems
import GraphShapes.Proofs.OutcomeTheorems
import GraphShapes.Proofs.ToleranceTheorems

namespace GraphShapes

/-! ## §1 Rules -/

namespace Rule

variable {a b c : Meta} {rest : List Meta}

/-- Answers that are the same: equal results, or defects with one code, of which both have texts
or neither. -/
inductive SameAnswer : Answer → Answer → Prop where
  | ok (results : List Meta) : SameAnswer (.ok results) (.ok results)
  | defect {d d' : NodeDefect} (hcode : d.code = d'.code)
      (hwritable : d.isWritable = d'.isWritable) :
      SameAnswer (.error (.defect d)) (.error (.defect d'))

theorem SameAnswer.eq_ok_iff {x y : Answer} (h : SameAnswer x y) {results : List Meta} :
    x = .ok results ↔ y = .ok results := by
  cases h with
  | ok => rfl
  | defect => simp

theorem Proper.sameAnswer {x : Answer} (h : Proper (fun _ => False) x) : SameAnswer x x := by
  rcases h.ok_or_defect with ⟨results, rfl⟩ | ⟨d, rfl⟩
  · exact .ok results
  · exact .defect rfl rfl

/-- A sum with a tensor is the same inside a fused multiply-add: there are no two integers. -/
theorem combine_addmm_tensor (c : Meta) (sizes : Shape) :
    combine .addmm c (.tensor sizes) = combine .add c (.tensor sizes) := by
  cases c <;> rfl

/-- What a product and a sum make of three operands, with a word for the first factor. -/
def productSum (word : String) (c a b : Meta) : Answer := do
  let s ← tensor word "EMM_RANK" a
  let t ← tensor "mat2" "EMM_RANK" b
  return [← combine .add c (.tensor (← shaped (Shape.matmul s t)))]

theorem multiplyAdd_eq (hb : ∀ n, b ≠ .scalar n) :
    multiplyAdd (c :: a :: b :: rest) = productSum "mat1" c a b := by
  have hinner : innerProduct a b = (do
      let s ← tensor "mat1" "EMM_RANK" a
      let t ← tensor "mat2" "EMM_RANK" b
      return .tensor (← shaped (Shape.matmul s t))) := by
    cases b with
    | scalar n => exact absurd rfl (hb n)
    | tensor | ints | nothing => rfl
  simp only [multiplyAdd, hinner, productSum, bind_assoc, pure_bind, combine_addmm_tensor]

theorem binary_matrixProduct_eq :
    (do binary .add (c :: (← matrixProduct [a, b]))) = productSum "self" c a b := by
  simp only [matrixProduct, binary, productSum, bind_assoc, pure_bind]

/-- Only for the first factor does the word matter, and not for the code. -/
theorem sameAnswer_productSum (word word' : String) (c a b : Meta) :
    SameAnswer (productSum word c a b) (productSum word' c a b) := by
  cases a with
  | scalar | ints | nothing => exact .defect rfl rfl
  | tensor s =>
    have hproper : Proper (fun _ => False) (productSum word c (.tensor s) b) :=
      proper_tensor.bind fun _ => proper_tensor.bind fun _ => (proper_shaped _).bind fun _ =>
        proper_combine.bind fun _ => proper_pure _
    exact hproper.sameAnswer

/-- **Fused multiply-adds.** A fused multiply-add of which the second factor is no integer
answers what the sum with the product does. -/
theorem sameAnswer_multiplyAdd (hb : ∀ n, b ≠ .scalar n) :
    SameAnswer (multiplyAdd [c, a, b]) (do binary .add (c :: (← matrixProduct [a, b]))) := by
  rw [multiplyAdd_eq hb, binary_matrixProduct_eq]
  exact sameAnswer_productSum "mat1" "self" c a b

/-- A product of factors that have texts has one. -/
theorem isWritable_matmul {x y u : Shape} (hx : (Meta.tensor x).isWritable = true)
    (hy : (Meta.tensor y).isWritable = true) (h : Shape.matmul x y = .ok u) :
    (Meta.tensor u).isWritable = true := by
  obtain ⟨n, k, l, rfl, rfl, rfl⟩ := Shape.matmul_eq_ok_iff.mp h
  simp only [Meta.isWritable, List.all_cons, List.all_nil, Bool.and_true, Bool.and_eq_true] at *
  exact ⟨hx.1, hy.2⟩

/-- What a fused multiply-add answers, the sum answers from what the product does. -/
theorem exists_product_of_multiplyAdd {results : List Meta} (hb : ∀ n, b ≠ .scalar n)
    (ha' : a.isWritable = true) (hb' : b.isWritable = true)
    (h : multiplyAdd [c, a, b] = .ok results) :
    ∃ product, matrixProduct [a, b] = .ok [product] ∧ binary .add [c, product] = .ok results ∧
      product.isWritable = true := by
  obtain ⟨products, hproduct, hsum⟩ :=
    bind_eq_ok_iff.mp ((sameAnswer_multiplyAdd hb).eq_ok_iff.mp h)
  obtain ⟨x, y, u, hfactors, hu, rfl⟩ := matrixProduct_eq_ok hproduct
  obtain ⟨rfl, rfl⟩ : a = .tensor x ∧ b = .tensor y := by simpa using hfactors
  exact ⟨.tensor u, hproduct, hsum, isWritable_matmul ha' hb' hu⟩

end Rule

variable {A : Assignment} {g g' : Graph} {e : Engine} {config : Config} {inputs : List Datum}
  {node fused product sum : Node} {front back : List Node} {a b c t : Name} {m : Meta}
  {shapes : List Shape}

/-! ## §2 Equations -/

/-- A graph that declares all names but one with the types that another declares them with. -/
def Graph.DeclaresBut (g' g : Graph) (t : Name) : Prop :=
  ∀ name, t.same name = false → g'.valueType name = g.valueType name

/-- A name of which nothing is known is none of the names that are known. -/
theorem Assignment.isAmong_eq_false (ht : A.meta? t = none) {names : List Name}
    {metas : List Meta} (h : names.map A.meta? = metas.map some) : t.isAmong names = false := by
  rw [← Bool.not_eq_true, Name.isAmong_iff]
  intro hmem
  obtain ⟨name, hname, hkey⟩ := List.mem_map.mp hmem
  have hknown : A.meta? name ∈ metas.map some := h ▸ List.mem_map_of_mem hname
  rw [A.congr (Name.same_iff.mpr hkey), ht] at hknown
  simp at hknown

/-- What is known of one name more makes no difference to an equation that holds already. -/
theorem Assignment.Solves.set (h : A.Solves g config node) (ht : A.meta? t = none)
    (hdeclares : g'.DeclaresBut g t) (m : Meta) : (A.set t m).Solves g' config node := by
  obtain ⟨results, ⟨op, metas, _, hmetas, _⟩, hresults⟩ := id h
  have hinputs : t.isAmong node.inputs = false := isAmong_eq_false ht hmetas
  have htracked : t.isAmong node.tracked = false := isAmong_eq_false ht hresults
  refine h.congr ?_ ?_
  · intro name hname
    rcases List.mem_append.mp hname with hmem | hmem
    · exact meta?_set_of_ne (Name.same_eq_false hinputs (Name.isAmong_of_mem hmem))
    · exact meta?_set_of_ne (Name.same_eq_false htracked (Name.isAmong_of_mem hmem))
  · intro name hname
    exact hdeclares name (Name.same_eq_false htracked (Name.isAmong_of_mem hname))

/-- A fused multiply-add of three operands, and in place of it a product with a name of its own
and a sum. -/
structure Node.IsFused (fused product sum : Node) (c a b t : Name) : Prop where
  fused_op : fused.op = .text Operator.addmm.tag
  fused_inputs : fused.inputs = [c, a, b]
  product_op : product.op = .text Operator.mm.tag
  product_inputs : product.inputs = [a, b]
  product_outputs : product.outputs = [t]
  sum_op : sum.op = .text Operator.add.tag
  sum_inputs : sum.inputs = [c, t]
  sum_outputs : sum.outputs = fused.outputs

namespace Node.IsFused

variable (h : IsFused fused product sum c a b t)
include h

theorem ofTag?_fused : Operator.ofTag? fused.op = some .addmm :=
  h.fused_op ▸ Operator.ofTag?_tag .addmm

theorem ofTag?_product : Operator.ofTag? product.op = some .mm :=
  h.product_op ▸ Operator.ofTag?_tag .mm

theorem ofTag?_sum : Operator.ofTag? sum.op = some .add :=
  h.sum_op ▸ Operator.ofTag?_tag .add

theorem tracked_product : product.tracked = [t] := by
  rw [Node.tracked_of_ofTag? h.ofTag?_product, h.product_outputs]
  rfl

theorem tracked_sum : sum.tracked = fused.tracked := by
  rw [Node.tracked_of_ofTag? h.ofTag?_sum, Node.tracked_of_ofTag? h.ofTag?_fused, h.sum_outputs]
  rfl

/-- Where the fused node is solved, with a second factor that is no integer, and nothing is
known of the name of the product, the two nodes are solved by what the product is. -/
theorem exists_solves (g' : Graph) (hfused : A.Solves g config fused)
    (hb : ∀ n, A.meta? b ≠ some (.scalar n)) (ht : A.meta? t = none)
    (htext : ∀ name m, A.meta? name = some m → m.isWritable = true) :
    ∃ m, (A.set t m).Solves g' config product ∧ (A.set t m).Solves g' config sum ∧
      m.isWritable = true := by
  obtain ⟨results, ⟨op, metas, htag, hmetas, hrule⟩, hresults⟩ := hfused
  obtain rfl : Operator.addmm = op := Option.some.inj (h.ofTag?_fused.symm.trans htag)
  have hinputs : t.isAmong fused.inputs = false := Assignment.isAmong_eq_false ht hmetas
  have houtputs : t.isAmong fused.tracked = false := Assignment.isAmong_eq_false ht hresults
  rw [h.fused_inputs] at hmetas hinputs
  obtain ⟨mc, ma, mb, rfl⟩ := List.length_eq_three.mp (length_eq_of_map_eq hmetas).symm
  obtain ⟨hc, ha, hb'⟩ : A.meta? c = some mc ∧ A.meta? a = some ma ∧ A.meta? b = some mb := by
    simpa using hmetas
  have hfactor : ∀ n, mb ≠ .scalar n := by
    rintro n rfl
    exact hb n hb'
  obtain ⟨m, hproduct, hsum, hm⟩ :=
    Rule.exists_product_of_multiplyAdd hfactor (htext a ma ha) (htext b mb hb') hrule
  -- The operands are known as they were, and the product is known beside them.
  have hkept : [c, a, b].map (A.set t m).meta? = [mc, ma, mb].map some := by
    rw [Assignment.map_meta?_set hinputs, hmetas]
  obtain ⟨hc', ha', hb''⟩ : (A.set t m).meta? c = some mc ∧ (A.set t m).meta? a = some ma ∧
      (A.set t m).meta? b = some mb := by
    simpa using hkept
  have hset : (A.set t m).meta? t = some m := Assignment.meta?_set_self (Name.same_iff.mpr rfl)
  refine ⟨m, ⟨[m], ⟨.mm, [ma, mb], h.ofTag?_product, ?_, hproduct⟩, ?_⟩,
    ⟨results, ⟨.add, [mc, m], h.ofTag?_sum, ?_, hsum⟩, ?_⟩, hm⟩
  · simp [h.product_inputs, ha', hb'']
  · simp [h.tracked_product, hset]
  · simp [h.sum_inputs, hc', hset]
  · rw [h.tracked_sum, Assignment.map_meta?_set houtputs, hresults]

end Node.IsFused

/-! ## §3 Runs -/

namespace Graph

/-- A graph with the two nodes in place of the fused one, in which all names but that of the
product are declared as they were. -/
structure Unfused (g g' : Graph) (front back : List Node) (fused product sum : Node)
    (c a b t : Name) : Prop where
  isFused : fused.IsFused product sum c a b t
  nodes_eq : g.nodes = front ++ fused :: back
  nodes_eq' : g'.nodes = front ++ product :: sum :: back
  inputs_eq : g'.inputs = g.inputs
  outputs_eq : g'.outputs = g.outputs
  declares : g'.DeclaresBut g t

namespace Unfused

variable (h : Unfused g g' front back fused product sum c a b t)
include h

/-- The names are those of before, and that of the product. -/
theorem perm_names :
    (g'.inputs ++ trackedNames g'.nodes).Perm (t :: (g.inputs ++ trackedNames g.nodes)) := by
  rw [h.inputs_eq, h.nodes_eq, h.nodes_eq']
  simp only [trackedNames_append, trackedNames_cons, h.isFused.tracked_product,
    h.isFused.tracked_sum, List.singleton_append, ← List.append_assoc g.inputs]
  exact List.perm_middle

theorem isAmong_names (name : Name) : name.isAmong (g'.inputs ++ trackedNames g'.nodes) = true ↔
    t.same name = true ∨ name.isAmong (g.inputs ++ trackedNames g.nodes) = true := by
  rw [Name.isAmong_perm h.perm_names]
  simp [Name.isAmong]

/-- With the product in front of the sum, operands come first. -/
theorem ordered (ho : Ordered g.inputs g.nodes) : Ordered g'.inputs g'.nodes := by
  rw [h.nodes_eq, ordered_append] at ho
  obtain ⟨hfront, hfused, hback⟩ := ho
  rw [h.isFused.fused_inputs] at hfused
  simp only [List.forall_mem_cons] at hfused
  obtain ⟨hc, ha, hb, _⟩ := hfused
  rw [h.inputs_eq, h.nodes_eq', ordered_append]
  refine ⟨hfront, ?_, ?_, hback.mono ?_⟩
  · rw [h.isFused.product_inputs]
    simp [ha, hb]
  · have hc' : c.isAmong (g.inputs ++ trackedNames front ++ [t]) = true :=
      Name.isAmong_append.mpr (.inl hc)
    have ht : t.isAmong (g.inputs ++ trackedNames front ++ [t]) = true :=
      Name.isAmong_append.mpr (.inr (Name.isAmong_of_mem List.mem_cons_self))
    rw [h.isFused.sum_inputs, h.isFused.tracked_product]
    exact List.forall_mem_cons.mpr ⟨hc', List.forall_mem_singleton.mpr ht⟩
  · intro name
    rw [h.isFused.tracked_sum]
    simp only [Name.isAmong_append]
    exact Or.imp_left .inl

theorem distinct (hd : Name.Distinct (g.inputs ++ trackedNames g.nodes))
    (hfresh : t.isAmong (g.inputs ++ trackedNames g.nodes) = false) :
    Name.Distinct (g'.inputs ++ trackedNames g'.nodes) :=
  (hd.concat hfresh).perm ((List.perm_append_singleton t _).trans h.perm_names.symm)

/-- What solves the graph's equations solves those of the graph with the two nodes, if what is
known of the product beside it solves these two. -/
theorem solution (hsol : A.Solution g config inputs) (ht : A.meta? t = none)
    (hproduct : (A.set t m).Solves g' config product) (hsum : (A.set t m).Solves g' config sum) :
    (A.set t m).Solution g' config inputs := by
  obtain ⟨metas, hmetas, hbound⟩ := hsol.bound
  refine ⟨⟨metas, hmetas, ?_⟩, ?_⟩
  · rw [h.inputs_eq, Assignment.map_meta?_set (Assignment.isAmong_eq_false ht hbound), hbound]
  · intro node hnode
    have hkept (hmem : node ∈ front ++ fused :: back) : (A.set t m).Solves g' config node :=
      (hsol.solved node (h.nodes_eq ▸ hmem)).set ht h.declares m
    rw [h.nodes_eq', List.mem_append, List.mem_cons, List.mem_cons] at hnode
    rcases hnode with hfront | rfl | rfl | hback
    · exact hkept (List.mem_append_left _ hfront)
    · exact hproduct
    · exact hsum
    · exact hkept (List.mem_append_right _ (List.mem_cons_of_mem _ hback))

/-- **Walks.** If a walk over the graph goes through, finds no integer for the second factor and
nothing for the name of the product, then a walk over the graph with the two nodes goes through
and finds the same for all other names. -/
theorem walk_eq (hwalk : (g.walk config inputs).fault = none)
    (hb : ∀ n, lookup? (g.walk config inputs).store b ≠ some (.scalar n))
    (hfresh : t.isAmong (g.inputs ++ trackedNames g.nodes) = false) :
    (g'.walk config inputs).fault = none ∧ ∀ name, t.same name = false →
      lookup? (g'.walk config inputs).store name = lookup? (g.walk config inputs).store name := by
  obtain ⟨hvalid, hnames, ho, hsol⟩ := walked_walk hwalk
  have hnone (name : Name) (hname : name.isAmong (g.inputs ++ trackedNames g.nodes) = false) :
      lookup? (g.walk config inputs).store name = none :=
    Store.lookup?_eq_none_of_names (by rw [hnames, hname])
  have htext : ∀ name m, lookup? (g.walk config inputs).store name = some m →
      m.isWritable = true := by
    intro name m hm
    obtain ⟨n, hmem, _⟩ := exists_of_lookup? hm
    exact hvalid.writable (n, m) hmem
  have hfused := hsol.solved fused (by simp [h.nodes_eq])
  obtain ⟨m, hproduct, hsum, hm⟩ := h.isFused.exists_solves g' hfused hb (hnone t hfresh) htext
  have hsol' := h.solution hsol (hnone t hfresh) hproduct hsum
  have hwalk' : (g'.walk config inputs).fault = none := by
    refine fault_walk_eq_none (h.distinct (hnames ▸ hvalid.distinct) hfresh) (h.ordered ho) hsol' ?_
    intro name _
    exact Assignment.forall_set htext hm name
  refine ⟨hwalk', ?_⟩
  intro name hname
  rw [lookup?_walk_eq hwalk' hsol' ?_ name, Assignment.meta?_set_of_ne hname]
  · rfl
  · intro other hother
    rw [← Bool.not_eq_true, h.isAmong_names, not_or, Bool.not_eq_true, Bool.not_eq_true] at hother
    rw [Assignment.meta?_set_of_ne hother.1]
    exact hnone other hother.2

end Unfused

end Graph

/-- A layer that multiplies by weights and adds a bias in one. -/
def Node.affine : Node where
  op := .text "aten::addmm"
  inputs := ["bias", "x", "weights"].map .text
  outputs := [.text "y"]

/-- The product inside the layer. -/
def Node.affineProduct : Node where
  op := .text "aten::mm"
  inputs := ["x", "weights"].map .text
  outputs := [.text "product"]

/-- The sum inside the layer. -/
def Node.affineSum : Node where
  op := .text "aten::add"
  inputs := ["bias", "product"].map .text
  outputs := [.text "y"]

/-- What follows the layer. -/
def Node.affineActivation : Node where
  op := .text "aten::relu"
  inputs := [.text "y"]
  outputs := [.text "z"]

/-- A layer with a bias. -/
def Graph.affine : Graph where
  nodes := [.affine, .affineActivation]
  values := ["bias", "x", "weights", "y", "z"].map fun name => (.text name, {})
  inputs := ["bias", "x", "weights"].map .text
  outputs := [.text "z"]

/-- The layer in two steps. -/
def Graph.affineUnfused : Graph :=
  Graph.affine.withNodes [.affineProduct, .affineSum, .affineActivation]

/-- Two rows of width four, and weights and a bias for three features. -/
def Engine.affine : Engine where
  inputs := [.array [3] .float32, .array [2, 4] .float32, .array [4, 3] .float32]

namespace Engine

/-- **Runs.** If a run without validation succeeds, then so does a run with the two nodes in
place of the fused one, with the same shapes and the same entries for all other names. -/
theorem run_unfused (hflag : e.config.validateGraph = false) (h : (run g e).result = .ok shapes)
    (hunfused : g.Unfused g' front back fused product sum c a b t)
    (hb : ∀ n, lookup? (run g e).engine.store b ≠ some (.scalar n))
    (hfresh : t.isAmong (g.inputs ++ Graph.trackedNames g.nodes) = false) :
    (run g' e).result = .ok shapes ∧ ∀ name, t.same name = false →
      lookup? (run g' e).engine.store name = lookup? (run g e).engine.store name := by
  have hoff := validate_of_flag hflag
  obtain ⟨_, hwalk, hshapes⟩ := run_eq_ok_iff.mp h
  rw [store_run (hoff _)] at hb
  obtain ⟨hwalk', hsame⟩ := hunfused.walk_eq hwalk hb hfresh
  rw [store_run (hoff _), store_run (hoff _)]
  refine ⟨run_eq_ok_iff.mpr ⟨hoff _, hwalk', ?_⟩, hsame⟩
  have houtputs := Graph.isAmong_of_outputShapes hshapes
  rw [(Graph.walked_walk hwalk).2.1] at houtputs
  rw [Graph.outputShapes_eq_ok_iff] at hshapes ⊢
  rw [hunfused.outputs_eq, ← hshapes]
  apply List.map_congr_left
  intro name hname
  rw [hsame name (Name.same_eq_false hfresh (houtputs name hname))]

/-- **Fused multiply-adds.** The rule of a fused multiply-add with a second factor that is no
integer answers what the rules of products and of sums answer in a row, or all fail with one
code; operands behind the third make no difference to it. So in a graph over which a run without
validation succeeds, a product under a fresh name and a sum may take the place of a fused
multiply-add: the shapes are the same, and so is the entry of every other name. -/
theorem fused_eq_unfused :
    (∀ (c a b : Meta) (fused product sum : Node) (ctx ctx' ctx'' : Context),
      (∀ n, b ≠ .scalar n) → Rule.SameAnswer (Rule.apply .addmm [c, a, b] fused ctx)
        (do Rule.apply .add (c :: (← Rule.apply .mm [a, b] product ctx')) sum ctx'')) ∧
    (∀ (c a b : Meta) (rest : List Meta) (node : Node) (ctx : Context),
      Rule.apply .addmm (c :: a :: b :: rest) node ctx = Rule.apply .addmm [c, a, b] node ctx) ∧
    ∀ (g g' : Graph) (e : Engine) (shapes : List Shape) (front back : List Node)
      (fused product sum : Node) (c a b t : Name), e.config.validateGraph = false →
      (run g e).result = .ok shapes → g.Unfused g' front back fused product sum c a b t →
      (∀ n, lookup? (run g e).engine.store b ≠ some (.scalar n)) →
      t.isAmong (g.inputs ++ Graph.trackedNames g.nodes) = false →
        (run g' e).result = .ok shapes ∧ ∀ name, t.same name = false →
          lookup? (run g' e).engine.store name = lookup? (run g e).engine.store name := by
  refine ⟨?_, ?_, ?_⟩
  · intro c a b fused product sum ctx ctx' ctx'' hb
    exact Rule.sameAnswer_multiplyAdd hb
  · intro c a b rest node ctx
    rfl
  · intro g g' e shapes front back fused product sum c a b t hflag h hunfused hb hfresh
    exact run_unfused hflag h hunfused hb hfresh

/-- A list of integers is no first factor, whichever way it is met, and a layer with a bias comes
to the same in two steps. -/
theorem fused_eq_unfused_affine :
    (∀ n, Meta.tensor [4, 3] ≠ .scalar n) ∧
      Rule.SameAnswer (Rule.apply .addmm [.scalar 1, .ints [2, 4], .tensor [4, 3]] .affine {})
        (do
          let results ← Rule.apply .mm [.ints [2, 4], .tensor [4, 3]] .affineProduct {}
          Rule.apply .add (.scalar 1 :: results) .affineSum {}) ∧
      (run .affine .affine).result = .ok [[2, 3]] ∧
      (run .affineUnfused .affine).result = .ok [[2, 3]] ∧
      lookup? (run .affineUnfused .affine).engine.store (.text "y")
        = lookup? (run .affine .affine).engine.store (.text "y") := by
  obtain ⟨hrules, _, hruns⟩ := fused_eq_unfused
  have hweights : ∀ n, Meta.tensor [4, 3] ≠ .scalar n := nofun
  have h : (run .affine .affine).result = .ok [[2, 3]] := eq_ok_of_toOption (by decide +kernel)
  have hfactor : lookup? (run .affine .affine).engine.store (.text "weights")
      = some (.tensor [4, 3]) := by
    decide +kernel
  have hunfused : Graph.affine.Unfused .affineUnfused [] [.affineActivation] .affine
      .affineProduct .affineSum (.text "bias") (.text "x") (.text "weights") (.text "product") :=
    ⟨⟨rfl, rfl, rfl, rfl, rfl, rfl, rfl, rfl⟩, rfl, rfl, rfl, rfl, fun _ _ => rfl⟩
  obtain ⟨hresult, hsame⟩ := hruns _ _ _ _ _ _ _ _ _ _ _ _ _ rfl h hunfused
    (by simp [hfactor]) (by decide +kernel)
  exact ⟨hweights, hrules _ _ _ _ _ _ _ _ _ hweights, h, hresult, hsame _ (by decide +kernel)⟩

/-- Two factors do not match, and the size that does not is too long to write: neither way ends
in an error with a code. -/
theorem fused_untold :
    (∀ n, Meta.tensor [3, 4] ≠ .scalar n) ∧
      Rule.answer Operator.all (.text "aten::addmm")
          [.tensor [4], .tensor [2, (Decimal.bound : Int)], .tensor [3, 4]] .affine {}
        = .error (.misuse .badValue) ∧
      Rule.answer Operator.all (.text "aten::mm")
          [.tensor [2, (Decimal.bound : Int)], .tensor [3, 4]] .affineProduct {}
        = .error (.misuse .badValue) := by
  have hbound := Decimal.byte_lt_bound
  have hthree : (Decimal.bound : Int) ≠ 3 := by omega
  have hmatmul : Shape.matmul [2, (Decimal.bound : Int)] [3, 4]
      = .error (.matmulSizes Decimal.bound 3) := by
    simp [Shape.matmul, hthree]
  have huntold (tag : Datum) :
      (Refusal.toFault tag (.defect (.shape (.matmulSizes Decimal.bound 3)))).settled
        = .misuse .badValue := by
    apply Fault.settled_node
    simp [NodeDefect.isWritable, Shape.Defect.isWritable, Shape.Defect.integers]
  refine ⟨?_, ?_, ?_⟩
  · intro n h
    cases h
  · have hfind : Rule.find Operator.all (.text "aten::addmm") = .ok .addmm := by rfl
    have happly : Rule.apply .addmm
          [.tensor [4], .tensor [2, (Decimal.bound : Int)], .tensor [3, 4]] .affine {}
        = .error (.defect (.shape (.matmulSizes Decimal.bound 3))) := by
      simp only [Rule.apply, Rule.multiplyAdd, Rule.innerProduct, Rule.tensor, hmatmul,
        Rule.shaped, ok_bind]
      rfl
    simp only [Rule.answer, hfind, happly, huntold]
  · have hfind : Rule.find Operator.all (.text "aten::mm") = .ok .mm := by rfl
    have happly : Rule.apply .mm [.tensor [2, (Decimal.bound : Int)], .tensor [3, 4]]
          .affineProduct {}
        = .error (.defect (.shape (.matmulSizes Decimal.bound 3))) := by
      simp only [Rule.apply, Rule.matrixProduct, Rule.tensor, hmatmul, Rule.shaped, ok_bind]
      rfl
    simp only [Rule.answer, hfind, happly, huntold]

end Engine

end GraphShapes
