/-
GraphShapes.Proofs.OutcomeTheorems — what can come of a rule.

A rule answers, or it refuses with a defect of the node. It does neither only
where a value gets to it that it takes for what it is not: an object that merely
exposes sizes as an attribute, a span of time where an integer is asked for, or
an array as the declared type of an output. The first is left out here. With the
others there are two ways in which a rule may slip (`Slip`), and on any operands
whatever it fails in no third one: a computation is `Proper` for a set of misuses
if it fails for defects and for those only. `apply_outcome` says of both spellings
of the rules (see `GraphShapes.Proofs.CheckedRules`) what they answer, how much of
it, and how they may slip; `apply_slips` shows that they do.

  §1 Proper     — computations that fail for defects and for what is allowed.
  §2 Attributes — which attributes are read without harm.
  §3 Rules      — rule by rule, and the number of results.
-/
import GraphShapes.Proofs.CheckedTheorems

namespace GraphShapes

namespace Datum

/-- Is the value built in, or an array or an element of one? -/
def isPlain : Datum → Bool
  | .placeholder _ => false
  | .shaped _ _ => false
  | _ => true

/-- Does the value pass for an integer and cannot be made one? -/
def isSham (d : Datum) : Bool := d.isIntegral && d.asInt?.isNone

/-- Is the value such a one, or does it have one for an item? -/
def hasSham (d : Datum) : Bool := d.isSham || d.items?.any (·.any isSham)

end Datum

namespace Rule

variable {what code name : String} {m a b : Meta} {metas results : List Meta} {node : Node}
  {ctx : Context} {op : Operator} {allowed : Misuse → Prop}

/-! ## §1 Proper -/

/-- The computation fails, if it does, for a defect of the node or for a misuse that
is allowed. -/
def Proper {α : Type} (allowed : Misuse → Prop) (x : Except Refusal α) : Prop :=
  ∀ m, x = .error (.misuse m) → allowed m

/-- A proper computation has a result, finds a defect or misuses something as allowed. -/
theorem Proper.cases {α : Type} {x : Except Refusal α} (h : Proper allowed x) :
    (∃ y, x = .ok y) ∨ (∃ d, x = .error (.defect d)) ∨
      ∃ m, x = .error (.misuse m) ∧ allowed m := by
  cases x with
  | ok y => exact Or.inl ⟨y, rfl⟩
  | error r =>
    cases r with
    | defect d => exact Or.inr (Or.inl ⟨d, rfl⟩)
    | misuse m => exact Or.inr (Or.inr ⟨m, rfl, h m rfl⟩)

/-- With no misuse allowed there is a result or a defect. -/
theorem Proper.ok_or_defect {α : Type} {x : Except Refusal α} (h : Proper (fun _ => False) x) :
    (∃ y, x = .ok y) ∨ ∃ d, x = .error (.defect d) :=
  h.cases.imp_right fun hrest => hrest.resolve_right fun ⟨_, _, hno⟩ => hno

@[simp] theorem proper_ok {α : Type} (x : α) : Proper allowed (.ok x) := nofun

@[simp] theorem proper_pure {α : Type} (x : α) : Proper allowed (pure x) := nofun

@[simp] theorem proper_refuse {α : Type} (d : NodeDefect) :
    Proper allowed (refuse d : Except _ α) :=
  nofun

@[simp] theorem proper_arity {α : Type} {least : Nat} {greatest : Option Nat} :
    Proper allowed (arity least greatest metas : Except _ α) := nofun

/-- What is proper up to a value that the computation goes on with is proper, if it
goes on properly from every value that there is. -/
theorem Proper.bind_of_ok {α β : Type} {x : Except Refusal α} {f : α → Except Refusal β}
    (hx : Proper allowed x) (hf : ∀ y, x = .ok y → Proper allowed (f y)) :
    Proper allowed (x >>= f) := by
  intro m hm
  rcases bind_eq_error_iff.mp hm with hfirst | ⟨y, hy, hsecond⟩
  · exact hx m hfirst
  · exact hf y hy m hsecond

/-- Computations in a row are proper if each is, whatever the ones before it result in. -/
theorem Proper.bind {α β : Type} {x : Except Refusal α} {f : α → Except Refusal β}
    (hx : Proper allowed x) (hf : ∀ y, Proper allowed (f y)) : Proper allowed (x >>= f) :=
  hx.bind_of_ok fun y _ => hf y

@[simp] theorem proper_shaped {α : Type} (x : Except Shape.Defect α) :
    Proper allowed (shaped x) := by
  cases x <;> simp

/-- Most rules end so: shapes are combined, and the result is returned. -/
theorem proper_shaped_pure {α β : Type} (x : Except Shape.Defect α) (f : α → β) :
    Proper allowed (shaped x >>= fun y => pure (f y)) :=
  (proper_shaped x).bind fun _ => proper_pure _

@[simp] theorem proper_tensor : Proper allowed (tensor what code m) := by cases m <;> simp [tensor]

@[simp] theorem proper_scalar : Proper allowed (scalar what code m) := by cases m <;> simp [scalar]

@[simp] theorem proper_integers : Proper allowed (integers what code m) := by
  cases m <;> simp [integers]

theorem proper_tensors {i : Nat} : Proper allowed (tensors code i metas) := by
  induction metas generalizing i with
  | nil => exact proper_ok []
  | cons m rest ih => exact proper_tensor.bind fun _ => ih.bind fun _ => proper_pure _

theorem proper_elements {i : Nat} : Proper allowed (elements code i metas) := by
  induction metas generalizing i with
  | nil => exact proper_ok []
  | cons m rest ih => exact proper_scalar.bind fun _ => ih.bind fun _ => proper_pure _

/-! ## §2 Attributes -/

theorem proper_attr : Proper allowed (node.attr name) := by
  unfold Node.attr
  split <;> exact nofun

/-- Every attribute of a node that has a name is one of its attributes. -/
theorem exists_of_attr_eq_ok {d : Datum} (h : node.attr name = .ok d) :
    ∃ entry ∈ node.attributes, entry.2 = d := by
  unfold Node.attr at h
  split at h
  · next d' hfound =>
    obtain ⟨key, hmem, _⟩ := exists_of_lookup? hfound
    exact ⟨(key, d'), hmem, Except.ok.inj h⟩
  · cases h

/-- An integer is read without harm unless a sham is in its place. -/
theorem proper_intAttribute
    (hsham : ∀ entry ∈ node.attributes, entry.2.hasSham = true → allowed .wrongKind) :
    Proper allowed (node.intAttribute name) := by
  refine proper_attr.bind_of_ok fun d hd => ?_
  obtain ⟨entry, hmem, rfl⟩ := exists_of_attr_eq_ok hd
  split
  · exact proper_pure _
  · next hnone =>
    split
    · next hintegral =>
      rintro m ⟨⟩
      refine hsham entry hmem ?_
      simp [Datum.hasSham, Datum.isSham, hintegral, hnone]
    · exact proper_refuse _

/-- What passes for a whole number and cannot be converted passes for an integer. -/
theorem isSham_of_asWhole?_eq_none {d : Datum} (hwhole : d.isWhole = true)
    (hnone : d.asWhole? = none) : d.isSham = true := by
  cases d with
  | bool | int | elementInt => cases hnone
  | elementSpan s => exact (congrArg Option.isNone hnone : s.whole?.isNone = true)
  | _ => cases hwhole

/-- Where all items pass for whole numbers and cannot all be converted, one is a sham. -/
theorem any_isSham_of_mapM_eq_none {items : List Datum} (hall : items.all Datum.isWhole = true)
    (hnone : items.mapM Datum.asWhole? = none) : items.any Datum.isSham = true := by
  induction items with
  | nil => cases hnone
  | cons d items ih =>
    rw [List.all_cons, Bool.and_eq_true] at hall
    rw [List.any_cons, Bool.or_eq_true]
    cases hd : d.asWhole? with
    | none => exact Or.inl (isSham_of_asWhole?_eq_none hall.1 hd)
    | some n =>
      refine Or.inr (ih hall.2 ?_)
      cases hrest : items.mapM Datum.asWhole? with
      | none => rfl
      | some ns => simp [hd, hrest] at hnone

/-- A list of integers is read without harm unless it has a sham for an item. -/
theorem proper_intsAttribute
    (hsham : ∀ entry ∈ node.attributes, entry.2.hasSham = true → allowed .wrongKind) :
    Proper allowed (node.intsAttribute name) := by
  refine proper_attr.bind_of_ok fun d hd => ?_
  obtain ⟨entry, hmem, rfl⟩ := exists_of_attr_eq_ok hd
  split
  · exact proper_pure _
  · next hnone =>
    split
    · next hall =>
      rintro m ⟨⟩
      refine hsham entry hmem ?_
      cases hitems : entry.2.items? with
      | none => simp [hitems] at hall
      | some items =>
        rw [hitems, Option.any_some] at hall
        rw [hitems, Option.bind_some] at hnone
        simp [Datum.hasSham, hitems, any_isSham_of_mapM_eq_none hall hnone]
    · exact proper_refuse _

/-- An element of an array exposes no sizes, which leaves none to convert. -/
theorem toSizes_nil : Datum.toSizes 1 [] = .ok [] := rfl

theorem proper_tensorAttribute (hplain : ∀ entry ∈ node.attributes, entry.2.isPlain = true) :
    Proper allowed (node.tensorAttribute name) := by
  refine proper_attr.bind_of_ok fun d hd => ?_
  obtain ⟨entry, hmem, rfl⟩ := exists_of_attr_eq_ok hd
  have hentry := hplain entry hmem
  cases hd' : entry.2 with
  | placeholder | shaped => simp [hd', Datum.isPlain] at hentry
  | elementInt | elementBool | elementFloat | elementSpan =>
    simp only [Datum.exposedSizes?, toSizes_nil]
    exact proper_pure _
  | array => exact proper_pure _
  | _ => exact proper_refuse _

/-! ## §3 Rules -/

/-- The ways in which a rule may fail for something other than a defect of the node. -/
inductive Slip (node : Node) (ctx : Context) : Misuse → Prop
  /-- An attribute, or an item of it, passes for an integer and cannot be made one. -/
  | sham {entry : Name × Datum} (hmem : entry ∈ node.attributes)
    (hsham : entry.2.hasSham = true) : Slip node ctx .wrongKind
  /-- An array is declared as the type of an output, and cannot be compared with one. -/
  | array {type : Datum} (hmem : type ∈ ctx.outputTypes)
    (harray : Checked.isArray type = true) : Slip node ctx .badValue

theorem Slip.of_hasSham (entry : Name × Datum) (hmem : entry ∈ node.attributes)
    (hsham : entry.2.hasSham = true) : Slip node ctx .wrongKind := .sham hmem hsham

/-- Only an array is compared in vain. -/
theorem exists_isArray_of_incomparable (h : constantKind ctx = .incomparable) :
    ∃ type ∈ ctx.outputTypes, Checked.isArray type = true := by
  unfold constantKind at h
  cases htypes : ctx.outputTypes with
  | nil => simp [htypes, ConstantKind.ofType] at h
  | cons type rest =>
    rw [htypes, List.headD_cons] at h
    refine ⟨type, List.mem_cons_self, ?_⟩
    fun_cases ConstantKind.ofType type with
    | case8 => rfl
    | _ => simp_all [ConstantKind.ofType]

theorem proper_constant (hplain : ∀ entry ∈ node.attributes, entry.2.isPlain = true) :
    Proper (Slip node ctx) (constant node ctx) := by
  unfold constant
  cases hkind : constantKind ctx with
  | incomparable =>
    rintro m ⟨⟩
    obtain ⟨type, hmem, harray⟩ := exists_isArray_of_incomparable hkind
    exact .array hmem harray
  | float | nothing | untracked => exact proper_pure _
  | integer => exact (proper_intAttribute Slip.of_hasSham).bind fun _ => proper_pure _
  | tensor => exact (proper_tensorAttribute hplain).bind fun _ => proper_pure _
  | integers => exact (proper_intsAttribute Slip.of_hasSham).bind fun _ => proper_pure _

theorem proper_elementwise : Proper allowed (elementwise metas) := by
  unfold elementwise
  split
  · exact proper_ok _
  · exact proper_arity

theorem proper_fold (x y : Int) : Proper allowed (fold op x y) := by
  unfold fold
  repeat' split
  all_goals exact nofun

theorem proper_combine : Proper allowed (combine op a b) := by
  unfold combine
  split
  · exact proper_shaped_pure _ _
  · exact proper_ok _
  · exact proper_ok _
  · exact proper_fold _ _
  · exact proper_refuse _

theorem proper_binary : Proper allowed (binary op metas) := by
  unfold binary
  split
  · exact proper_combine.bind fun _ => proper_pure _
  · exact proper_combine.bind fun _ => proper_pure _
  · exact proper_arity

theorem proper_matrixProduct : Proper allowed (matrixProduct metas) := by
  unfold matrixProduct
  split
  · exact proper_tensor.bind fun _ => proper_tensor.bind fun _ => proper_shaped_pure _ _
  · exact proper_arity

theorem proper_batchProduct : Proper allowed (batchProduct metas) := by
  unfold batchProduct
  split
  · exact proper_tensor.bind fun _ => proper_tensor.bind fun _ => proper_shaped_pure _ _
  · exact proper_arity

theorem proper_multiplyAdd : Proper allowed (multiplyAdd metas) := by
  have hinner (a b : Meta) : Proper allowed (innerProduct a b) := by
    unfold innerProduct
    split
    · exact proper_ok _
    · exact proper_tensor.bind fun _ => proper_tensor.bind fun _ => proper_shaped_pure _ _
  unfold multiplyAdd
  split
  · exact (hinner _ _).bind fun _ => proper_combine.bind fun _ => proper_pure _
  · exact proper_arity

theorem proper_constantChunk : Proper (Slip node ctx) (constantChunk node metas) := by
  unfold constantChunk
  split
  · exact proper_tensor.bind fun _ => (proper_intAttribute Slip.of_hasSham).bind fun _ =>
      (proper_intAttribute Slip.of_hasSham).bind fun _ => proper_shaped_pure _ _
  · exact proper_arity

theorem proper_joined {operation : Shape → List Shape → Int → Except Shape.Defect Shape} :
    Proper (Slip node ctx) (joined code operation node metas) := by
  unfold joined
  split
  · exact proper_arity
  · exact proper_ok _
  · exact proper_tensor.bind fun _ => proper_tensors.bind fun _ =>
      (proper_intAttribute Slip.of_hasSham).bind fun _ => proper_shaped_pure _ _

theorem proper_listConstruct : Proper allowed (listConstruct metas) := by
  unfold listConstruct
  split
  · exact proper_arity
  · exact proper_elements.bind fun _ => proper_pure _

theorem proper_sliced : Proper allowed (sliced metas) := by
  unfold sliced
  split
  · exact proper_tensor.bind fun _ => proper_scalar.bind fun _ => proper_scalar.bind fun _ =>
      proper_scalar.bind fun _ => proper_scalar.bind fun _ => proper_shaped_pure _ _
  · exact proper_arity

theorem proper_reshaped : Proper allowed (reshaped metas) := by
  unfold reshaped
  split
  · exact proper_tensor.bind fun _ => proper_integers.bind fun _ => proper_shaped_pure _ _
  · exact proper_arity

theorem proper_permuted : Proper allowed (permuted metas) := by
  unfold permuted
  split
  · exact proper_tensor.bind fun _ => proper_integers.bind fun _ => proper_shaped_pure _ _
  · exact proper_arity

theorem proper_tableWidth : Proper allowed (tableWidth m) := by
  refine proper_tensor.bind fun sizes => ?_
  split
  · exact proper_pure _
  · exact proper_refuse _

theorem proper_bagCount : Proper allowed (bagCount ctx m) := by
  have hoffsets : Proper allowed (offsetCount m) := by
    refine proper_tensor.bind fun sizes => ?_
    split
    · exact proper_pure _
    · exact proper_refuse _
  exact hoffsets.bind fun _ => proper_pure _

theorem proper_embeddingBag : Proper allowed (embeddingBag ctx metas) := by
  unfold embeddingBag
  split
  · refine proper_tableWidth.bind fun _ => proper_tensor.bind fun sizes => ?_
    split
    · exact proper_bagCount.bind fun _ => proper_pure _
    · exact proper_pure _
    · exact proper_refuse _
  · exact proper_arity

theorem proper_embeddingBagRowwise : Proper allowed (embeddingBagRowwise ctx metas) := by
  unfold embeddingBagRowwise
  split
  · exact proper_tableWidth.bind fun _ => proper_bagCount.bind fun _ => proper_pure _
  · exact proper_arity

/-- No rule fails for anything but a defect of the node or a slip. -/
theorem proper_apply (hplain : ∀ entry ∈ node.attributes, entry.2.isPlain = true) :
    Proper (Slip node ctx) (apply op metas node ctx) := by
  cases op with
  | constant => exact proper_constant hplain
  | listConstruct => exact proper_listConstruct
  | constantChunk => exact proper_constantChunk
  | fusedConcat | fusedStack => exact proper_joined
  | tanh | relu | sigmoid => exact proper_elementwise
  | add | sub | mul | pow => exact proper_binary
  | mm => exact proper_matrixProduct
  | bmm => exact proper_batchProduct
  | addmm => exact proper_multiplyAdd
  | slice => exact proper_sliced
  | reshape => exact proper_reshaped
  | permute => exact proper_permuted
  | embeddingBag => exact proper_embeddingBag
  | embeddingBagRowwise => exact proper_embeddingBagRowwise

theorem length_constant (h : constant node ctx = .ok results) : results.length = 1 := by
  rcases constant_eq_ok h with rfl | rfl | ⟨_, _, rfl⟩ | ⟨_, _, rfl⟩ | ⟨_, _, rfl⟩ <;> rfl

theorem length_joined {operation : Shape → List Shape → Int → Except Shape.Defect Shape}
    (h : joined code operation node metas = .ok results) : results.length = 1 := by
  rcases joined_eq_ok h with ⟨_, _, rfl⟩ | ⟨_, _, _, _, _, _, _, rfl⟩ <;> rfl

/-- A cut makes as many pieces as were asked for. -/
theorem length_constantChunk (h : constantChunk node metas = .ok results) :
    ∃ n, node.intAttribute "chunks" = .ok n ∧ (results.length : Int) = n := by
  obtain ⟨shape, chunks, axis, pieces, _, hchunks, _, hpieces, rfl⟩ := constantChunk_eq_ok h
  obtain ⟨hpositive, i, _, _, rfl⟩ := Shape.chunk_eq_ok_iff.mp hpieces
  refine ⟨chunks, hchunks, ?_⟩
  rw [List.length_map, Shape.length_pieces]
  omega

/-- Every rule but that of a cut has one result. -/
theorem length_apply (hop : op ≠ .constantChunk) (h : apply op metas node ctx = .ok results) :
    results.length = 1 := by
  cases op with
  | constant => exact length_constant h
  | listConstruct =>
    obtain ⟨_, _, rfl⟩ := listConstruct_eq_ok h
    rfl
  | constantChunk => exact absurd rfl hop
  | fusedConcat | fusedStack => exact length_joined h
  | tanh | relu | sigmoid =>
    obtain ⟨_, _, rfl⟩ := elementwise_eq_ok_iff.mp h
    rfl
  | add | sub | mul | pow =>
    obtain ⟨_, _, _, _, _, _, rfl⟩ := binary_eq_ok h
    rfl
  | mm =>
    obtain ⟨_, _, _, _, _, rfl⟩ := matrixProduct_eq_ok h
    rfl
  | bmm =>
    obtain ⟨_, _, _, _, _, rfl⟩ := batchProduct_eq_ok h
    rfl
  | addmm =>
    obtain ⟨_, _, _, _, _, _, _, _, _, rfl⟩ := multiplyAdd_eq_ok h
    rfl
  | slice =>
    obtain ⟨_, _, _, _, _, _, _, _, rfl⟩ := sliced_eq_ok h
    rfl
  | reshape =>
    obtain ⟨_, _, _, _, _, rfl⟩ := reshaped_eq_ok h
    rfl
  | permute =>
    obtain ⟨_, _, _, _, _, rfl⟩ := permuted_eq_ok h
    rfl
  | embeddingBag =>
    obtain ⟨_, _, rfl⟩ := embeddingBag_eq_ok h
    rfl
  | embeddingBagRowwise =>
    obtain ⟨_, _, rfl⟩ := embeddingBagRowwise_eq_ok h
    rfl

/-- **What comes of a rule.** With no foreign object among the attributes, whatever
the operands and the declared types are: the rule with every partial step checked
does what the rule does, and that is to answer one result, or as many as the pieces
that a cut is asked for, or to find a defect of the node, or to slip over an
attribute that passes for an integer or over an array as a declared type. -/
theorem apply_outcome (hplain : ∀ entry ∈ node.attributes, entry.2.isPlain = true) :
    Checked.apply op metas node ctx = apply op metas node ctx ∧
      ((∃ results, apply op metas node ctx = .ok results ∧
          if op = .constantChunk then
            ∃ n, node.intAttribute "chunks" = .ok n ∧ (results.length : Int) = n
          else results.length = 1) ∨
        (∃ d, apply op metas node ctx = .error (.defect d)) ∨
        ∃ m, apply op metas node ctx = .error (.misuse m) ∧ Slip node ctx m) := by
  refine ⟨Checked.apply_eq op metas node ctx, ?_⟩
  refine (proper_apply hplain).cases.imp_left fun ⟨results, hresults⟩ => ?_
  refine ⟨results, hresults, ?_⟩
  split
  · next hop =>
    subst hop
    exact length_constantChunk hresults
  · next hop => exact length_apply hop hresults

/-- A cut of the last axis, which is named by a truth value, into a number of
pieces that was taken out of an array. -/
def splitting : Node where
  op := .text "prim::ConstantChunk"
  attributes := [(.text "chunks", .elementInt 3), (.text "dim", .bool true)]

/-- Where the cut is made: offsets have no sentinel, all pieces are declared as tensors. -/
def splittingContext : Context where
  endOffset := false
  outputTypes := List.replicate 3 (.text "Tensor")

/-- An axis of size seven is cut into two pieces of size three and a last one of
size one; that the other axis has a size below zero does not matter. -/
theorem apply_outcome_splitting :
    (apply .constantChunk [.tensor [-2, 7]] splitting splittingContext).toOption
        = some [.tensor [-2, 3], .tensor [-2, 3], .tensor [-2, 1]] ∧
      Checked.apply .constantChunk [.tensor [-2, 7]] splitting splittingContext
        = apply .constantChunk [.tensor [-2, 7]] splitting splittingContext ∧
      ((∃ results,
          apply .constantChunk [.tensor [-2, 7]] splitting splittingContext = .ok results ∧
          ∃ n, splitting.intAttribute "chunks" = .ok n ∧ (results.length : Int) = n) ∨
        (∃ d, apply .constantChunk [.tensor [-2, 7]] splitting splittingContext
          = .error (.defect d)) ∨
        ∃ m, apply .constantChunk [.tensor [-2, 7]] splitting splittingContext
            = .error (.misuse m) ∧ Slip splitting splittingContext m) := by
  have hplain : ∀ entry ∈ splitting.attributes, entry.2.isPlain = true := by
    simp [splitting, Datum.isPlain]
  exact ⟨by decide +kernel, apply_outcome hplain⟩

/-- A constant whose value is a span of five seconds. -/
def lasting : Node where
  op := .text "prim::Constant"
  attributes := [(.text "value", .elementSpan ⟨some 5, 1, ⟨"s"⟩⟩)]

/-- A rule may slip. A span passes for an integer and is none, so a constant that is
declared one breaks off; and whatever its value is, a constant breaks off if the type
declared for it is an array of two elements. -/
theorem apply_slips :
    (∀ entry ∈ lasting.attributes, entry.2.isPlain = true) ∧
      apply .constant [] lasting ⟨true, [.text "int"]⟩ = .error (.misuse .wrongKind) ∧
      apply .constant [] lasting ⟨true, [.array [2] .float64]⟩ = .error (.misuse .badValue) := by
  refine ⟨by simp [lasting, Datum.isPlain], ?_, ?_⟩
  · rfl
  · rfl

end Rule

end GraphShapes
