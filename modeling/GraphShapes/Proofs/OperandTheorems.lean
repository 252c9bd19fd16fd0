/-
GraphShapes.Proofs.OperandTheorems — the operands that a rule looks at.

Not every operand has a say (`looksAt`): a third operand of arithmetic has none, nor has one
of an embedding bag that comes after its offsets. A rule answers the same whatever these
operands are (`apply_congr_of_looksAt`). Where it does look at an operand, it never answers
for a list of integers what it answers for a tensor (`apply_ne_of_looksAt`): it takes one or
the other, or it passes the operand on as it is.

  §1 Places — the operands that have a say.
  §2 Others — answers whatever the others are.
  §3 Kinds  — what a rule takes where it looks.
-/
import GraphShapes.Proofs.RuleTheorems

namespace GraphShapes.Rule

variable {op : Operator} {node : Node} {ctx : Context} {metas metas' results : List Meta}
  {a b m : Meta} {i : Nat}

/-! ## §1 Places -/

/-- Is the operand a tensor of two dimensions? -/
def isMatrix : Option Meta → Bool
  | some (.tensor [_, _]) => true
  | _ => false

/-- Does the rule look at its operand in a place? An embedding bag has no use for offsets
where the rows of its indices are the bags. -/
def looksAt (op : Operator) (metas : List Meta) (i : Nat) : Bool :=
  match op with
  | .constant => false
  | .add | .sub | .mul | .pow => i < 2
  | .addmm => i < 3
  | .embeddingBag => i < 2 || i == 2 && !isMatrix metas[1]?
  | .embeddingBagRowwise => i == 0 || i == 2
  | _ => true

/-! ## §2 Others -/

theorem binary_congr (hlen : metas'.length = metas.length) (hfirst : metas'[0]? = metas[0]?)
    (hsecond : metas'[1]? = metas[1]?) : binary op metas' = binary op metas := by
  match metas, metas', hlen with
  | [], [], _ => rfl
  | [_], [_], _ => rfl
  | [_, _], [_, _], _ =>
    cases hfirst
    cases hsecond
    rfl
  | [_, _, _], [_, _, _], _ =>
    cases hfirst
    cases hsecond
    rfl
  | _ :: _ :: _ :: _ :: _, _ :: _ :: _ :: _ :: _, hlen =>
    exact congrArg (fun n => refuse (.arity 2 (some 3) n)) hlen

theorem multiplyAdd_congr (hlen : metas'.length = metas.length) (hfirst : metas'[0]? = metas[0]?)
    (hsecond : metas'[1]? = metas[1]?) (hthird : metas'[2]? = metas[2]?) :
    multiplyAdd metas' = multiplyAdd metas := by
  match metas, metas', hlen with
  | [], [], _ => rfl
  | [_], [_], _ => rfl
  | [_, _], [_, _], _ => rfl
  | _ :: _ :: _ :: _, _ :: _ :: _ :: _, _ =>
    cases hfirst
    cases hsecond
    cases hthird
    rfl

/-- An embedding bag refuses another number of operands for its length. -/
theorem embeddingBag_of_length (h : metas.length ≠ embeddingArity) :
    embeddingBag ctx metas = arity embeddingArity (some embeddingArity) metas := by
  unfold embeddingBag
  split
  · exact absurd rfl h
  · rfl

theorem embeddingBagRowwise_of_length (h : metas.length ≠ embeddingArity) :
    embeddingBagRowwise ctx metas = arity embeddingArity (some embeddingArity) metas := by
  unfold embeddingBagRowwise
  split
  · exact absurd rfl h
  · rfl

/-- Offsets have no say where the rows of the indices are the bags. -/
theorem embeddingBag_congr (hlen : metas'.length = metas.length) (hweight : metas'[0]? = metas[0]?)
    (hindices : metas'[1]? = metas[1]?)
    (hoffsets : isMatrix metas[1]? = false → metas'[2]? = metas[2]?) :
    embeddingBag ctx metas' = embeddingBag ctx metas := by
  by_cases hcount : metas.length = embeddingArity
  · match metas, metas', hcount, hlen with
    | [_, indices, offsets, _, _, _, _, _], [_, indices', offsets', _, _, _, _, _], _, _ =>
      cases hweight
      cases hindices
      cases hmatrix : isMatrix (some indices) with
      | true =>
        unfold isMatrix at hmatrix
        split at hmatrix
        · next heq =>
          cases heq
          rfl
        · cases hmatrix
      | false =>
        cases hoffsets hmatrix
        rfl
  · rw [embeddingBag_of_length hcount, embeddingBag_of_length (hlen ▸ hcount), arity, arity, hlen]

theorem embeddingBagRowwise_congr (hlen : metas'.length = metas.length)
    (hweight : metas'[0]? = metas[0]?) (hoffsets : metas'[2]? = metas[2]?) :
    embeddingBagRowwise ctx metas' = embeddingBagRowwise ctx metas := by
  by_cases hcount : metas.length = embeddingArity
  · match metas, metas', hcount, hlen with
    | [_, _, _, _, _, _, _, _], [_, _, _, _, _, _, _, _], _, _ =>
      cases hweight
      cases hoffsets
      rfl
  · rw [embeddingBagRowwise_of_length hcount, embeddingBagRowwise_of_length (hlen ▸ hcount), arity,
      arity, hlen]

/-- **Operands that have no say.** A rule answers the same for as many operands that are the
same wherever it looks. -/
theorem apply_congr_of_looksAt (hlen : metas'.length = metas.length)
    (h : ∀ i, looksAt op metas i = true → metas'[i]? = metas[i]?) :
    apply op metas' node ctx = apply op metas node ctx := by
  cases op with
  | constant => rfl
  | add => exact binary_congr hlen (h 0 rfl) (h 1 rfl)
  | sub => exact binary_congr hlen (h 0 rfl) (h 1 rfl)
  | mul => exact binary_congr hlen (h 0 rfl) (h 1 rfl)
  | pow => exact binary_congr hlen (h 0 rfl) (h 1 rfl)
  | addmm => exact multiplyAdd_congr hlen (h 0 rfl) (h 1 rfl) (h 2 rfl)
  | embeddingBag =>
    refine embeddingBag_congr hlen (h 0 rfl) (h 1 rfl) fun hmatrix => h 2 ?_
    rw [looksAt, hmatrix]
    rfl
  | embeddingBagRowwise => exact embeddingBagRowwise_congr hlen (h 0 rfl) (h 2 rfl)
  | _ =>
    -- Every operand has a say.
    have hall : metas' = metas := List.ext_getElem? fun i => h i rfl
    rw [hall]

/-! ## §3 Kinds -/

/-- Does the rule take a list of integers in the place? -/
def takesIntegers (op : Operator) (i : Nat) : Bool :=
  match op with
  | .reshape | .permute => i == 1
  | _ => false

/-- What a rule makes of an operand that it looks at, when it answers: it is a tensor or an
integer, or a list of integers where that is due, or the only operand, and passed on as
whatever it is. -/
inductive Takes (op : Operator) (node : Node) (ctx : Context) (i : Nat) : List Meta → Meta → Prop
  | arithmetic {metas : List Meta} {m : Meta} (kind : isArithmetic m = true)
      (due : takesIntegers op i = false) : Takes op node ctx i metas m
  | integers {metas : List Meta} (ns : List Int) (due : takesIntegers op i = true) :
      Takes op node ctx i metas (.ints ns)
  | passed {m : Meta} (all : ∀ m', apply op [m'] node ctx = .ok [m']) : Takes op node ctx i [m] m

/-- Where all operands are tensors or integers, each is. -/
theorem takes_of_forall (h : ∀ m ∈ metas, isArithmetic m = true) (hdue : takesIntegers op i = false)
    (hi : metas[i]? = some m) : Takes op node ctx i metas m :=
  .arithmetic (h m (List.mem_of_getElem? hi)) hdue

theorem isArithmetic_of_combine (h : combine op a b = .ok m) :
    isArithmetic a = true ∧ isArithmetic b = true := by
  rcases combine_eq_ok h with ⟨_, _, _, rfl, rfl, _⟩ | ⟨_, _, rfl, rfl, _⟩ | ⟨_, _, rfl, rfl, _⟩ |
    ⟨_, _, _, rfl, rfl, _⟩ <;> exact ⟨rfl, rfl⟩

theorem takes_binary (h : binary op metas = .ok results) (hi : metas[i]? = some m) (hlt : i < 2)
    (hdue : takesIntegers op i = false) : Takes op node ctx i metas m := by
  obtain ⟨a, b, rest, _, rfl, hcombine, _⟩ := binary_eq_ok h
  have hkinds := isArithmetic_of_combine hcombine
  match i, hi, hlt with
  | 0, rfl, _ => exact .arithmetic hkinds.1 hdue
  | 1, rfl, _ => exact .arithmetic hkinds.2 hdue

theorem takes_multiplyAdd (h : multiplyAdd metas = .ok results) (hi : metas[i]? = some m)
    (hlt : i < 3) (hdue : takesIntegers op i = false) : Takes op node ctx i metas m := by
  obtain ⟨c, a, b, rest, product, _, rfl, hproduct, hcombine, _⟩ := multiplyAdd_eq_ok h
  have hkinds := isArithmetic_of_combine hcombine
  have hfactors : isArithmetic a = true ∧ isArithmetic b = true := by
    rcases innerProduct_eq_ok hproduct with ⟨_, rfl, rfl⟩ | ⟨_, _, _, rfl, rfl, _⟩
    · exact ⟨hkinds.2, rfl⟩
    · exact ⟨rfl, rfl⟩
  match i, hi, hlt with
  | 0, rfl, _ => exact .arithmetic hkinds.1 hdue
  | 1, rfl, _ => exact .arithmetic hfactors.1 hdue
  | 2, rfl, _ => exact .arithmetic hfactors.2 hdue

/-- A join passes on its only operand, and takes tensors otherwise. -/
theorem takes_joined {code : String}
    {operation : Shape → List Shape → Int → Except Shape.Defect Shape}
    (happly : ∀ metas, apply op metas node ctx = joined code operation node metas)
    (h : apply op metas node ctx = .ok results) (hi : metas[i]? = some m)
    (hdue : takesIntegers op i = false) : Takes op node ctx i metas m := by
  rw [happly] at h
  rcases joined_eq_ok h with ⟨m', rfl, _⟩ | ⟨first, rest, _, _, rfl, _⟩
  · cases List.mem_singleton.mp (List.mem_of_getElem? hi)
    exact .passed fun _ => happly _
  · refine takes_of_forall (fun m hm => ?_) hdue hi
    obtain ⟨_, _, rfl⟩ := List.mem_map.mp hm
    rfl

theorem takes_elementwise (happly : ∀ metas, apply op metas node ctx = elementwise metas)
    (h : apply op metas node ctx = .ok results) (hi : metas[i]? = some m) :
    Takes op node ctx i metas m := by
  rw [happly, elementwise_eq_ok_iff] at h
  obtain ⟨m', rfl, _⟩ := h
  cases List.mem_singleton.mp (List.mem_of_getElem? hi)
  exact .passed fun _ => happly _

theorem tableWidth_eq_ok {weight : Meta} {width : Int} (h : tableWidth weight = .ok width) :
    isArithmetic weight = true := by
  unfold tableWidth at h
  obtain ⟨_, hsizes, _⟩ := bind_eq_ok_iff.mp h
  rw [tensor_eq_ok_iff] at hsizes
  rw [hsizes]
  rfl

theorem bagCount_eq_ok {offsets : Meta} {bags : Int} (h : bagCount ctx offsets = .ok bags) :
    isArithmetic offsets = true := by
  unfold bagCount at h
  obtain ⟨_, hcount, _⟩ := bind_eq_ok_iff.mp h
  unfold offsetCount at hcount
  obtain ⟨_, hsizes, _⟩ := bind_eq_ok_iff.mp hcount
  rw [tensor_eq_ok_iff] at hsizes
  rw [hsizes]
  rfl

/-- An embedding bag takes tensors wherever it looks. -/
theorem isArithmetic_of_embeddingBag (h : embeddingBag ctx metas = .ok results)
    (hi : metas[i]? = some m) (hlook : looksAt .embeddingBag metas i = true) :
    isArithmetic m = true := by
  unfold embeddingBag at h
  split at h
  · next weight indices offsets _ _ _ _ _ =>
    obtain ⟨width, hwidth, hrest⟩ := bind_eq_ok_iff.mp h
    obtain ⟨sizes, hsizes, hcount⟩ := bind_eq_ok_iff.mp hrest
    rw [tensor_eq_ok_iff] at hsizes
    subst hsizes
    have hoffsets : isMatrix (some (.tensor sizes)) = true ∨ isArithmetic offsets = true := by
      split at hcount
      · obtain ⟨bags, hbags, _⟩ := bind_eq_ok_iff.mp hcount
        exact Or.inr (bagCount_eq_ok hbags)
      · exact Or.inl rfl
      · cases hcount
    match i, hi, hlook with
    | 0, rfl, _ => exact tableWidth_eq_ok hwidth
    | 1, rfl, _ => rfl
    | 2, rfl, hlook =>
      refine hoffsets.resolve_left fun hmatrix => ?_
      change (!isMatrix (some (.tensor sizes))) = true at hlook
      rw [hmatrix] at hlook
      cases hlook
  · cases h

theorem isArithmetic_of_embeddingBagRowwise (h : embeddingBagRowwise ctx metas = .ok results)
    (hi : metas[i]? = some m) (hlook : looksAt .embeddingBagRowwise metas i = true) :
    isArithmetic m = true := by
  unfold embeddingBagRowwise at h
  split at h
  · obtain ⟨width, hwidth, h⟩ := bind_eq_ok_iff.mp h
    obtain ⟨bags, hbags, _⟩ := bind_eq_ok_iff.mp h
    match i, hi, hlook with
    | 0, rfl, _ => exact tableWidth_eq_ok hwidth
    | 2, rfl, _ => exact bagCount_eq_ok hbags
  · cases h

/-- **Operands that have a say.** Operator by operator, what a rule that answers makes of an
operand that it looks at. -/
theorem takes_of_apply (h : apply op metas node ctx = .ok results)
    (hlook : looksAt op metas i = true) (hi : metas[i]? = some m) :
    Takes op node ctx i metas m := by
  cases op with
  | constant => cases hlook
  | listConstruct =>
    obtain ⟨ns, rfl, _⟩ := listConstruct_eq_ok h
    refine takes_of_forall (fun m hm => ?_) rfl hi
    obtain ⟨_, _, rfl⟩ := List.mem_map.mp hm
    rfl
  | constantChunk =>
    obtain ⟨_, _, _, _, rfl, _⟩ := constantChunk_eq_ok h
    exact takes_of_forall (by simp [isArithmetic]) rfl hi
  | fusedConcat => exact takes_joined (fun _ => rfl) h hi rfl
  | fusedStack => exact takes_joined (fun _ => rfl) h hi rfl
  | tanh => exact takes_elementwise (fun _ => rfl) h hi
  | relu => exact takes_elementwise (fun _ => rfl) h hi
  | sigmoid => exact takes_elementwise (fun _ => rfl) h hi
  | add => exact takes_binary h hi (of_decide_eq_true hlook) rfl
  | sub => exact takes_binary h hi (of_decide_eq_true hlook) rfl
  | mul => exact takes_binary h hi (of_decide_eq_true hlook) rfl
  | pow => exact takes_binary h hi (of_decide_eq_true hlook) rfl
  | mm =>
    obtain ⟨_, _, _, rfl, _⟩ := matrixProduct_eq_ok h
    exact takes_of_forall (by simp [isArithmetic]) rfl hi
  | bmm =>
    obtain ⟨_, _, _, rfl, _⟩ := batchProduct_eq_ok h
    exact takes_of_forall (by simp [isArithmetic]) rfl hi
  | addmm => exact takes_multiplyAdd h hi (of_decide_eq_true hlook) rfl
  | slice =>
    obtain ⟨_, _, _, _, _, _, rfl, _⟩ := sliced_eq_ok h
    exact takes_of_forall (by simp [isArithmetic]) rfl hi
  | reshape =>
    obtain ⟨_, target, _, rfl, _⟩ := reshaped_eq_ok h
    match i, hi with
    | 0, rfl => exact .arithmetic rfl rfl
    | 1, rfl => exact .integers target rfl
  | permute =>
    obtain ⟨_, axes, _, rfl, _⟩ := permuted_eq_ok h
    match i, hi with
    | 0, rfl => exact .arithmetic rfl rfl
    | 1, rfl => exact .integers axes rfl
  | embeddingBag => exact .arithmetic (isArithmetic_of_embeddingBag h hi hlook) rfl
  | embeddingBagRowwise => exact .arithmetic (isArithmetic_of_embeddingBagRowwise h hi hlook) rfl

/-- Some operands turn into lists of integers. -/
def Turned (metas metas' : List Meta) : Prop :=
  List.Forall₂ (fun m m' => m' = m ∨ ∃ ns, m' = .ints ns) metas metas'

/-- A rule still looks where it did. -/
theorem Turned.looksAt (h : Turned metas metas') (hlook : looksAt op metas i = true) :
    Rule.looksAt op metas' i = true := by
  cases op with
  | embeddingBag =>
    have hmatrix : isMatrix metas[1]? = false → isMatrix metas'[1]? = false := by
      match metas, metas', h with
      | [], [], _ => exact id
      | [_], [_], _ => exact id
      | _ :: _ :: _, _ :: m' :: _, .cons _ (.cons hsecond _) =>
        intro hplain
        rcases hsecond with rfl | ⟨ns, rfl⟩
        · exact hplain
        · rfl
    simp only [Rule.looksAt, Bool.or_eq_true, Bool.and_eq_true, Bool.not_eq_true'] at hlook ⊢
    exact hlook.imp_right fun hthird => ⟨hthird.1, hmatrix hthird.2⟩
  | _ => exact hlook

/-- **Lists of integers for tensors.** A rule that looks at a tensor does not answer the
same when it has turned. -/
theorem apply_ne_of_looksAt {sizes : Shape} {ns : List Int}
    (h : apply op metas node ctx = .ok results) (hlook : looksAt op metas i = true)
    (hi : metas[i]? = some (.tensor sizes)) (hturned : Turned metas metas')
    (hi' : metas'[i]? = some (.ints ns)) : apply op metas' node ctx ≠ .ok results := by
  intro h'
  have hbefore := takes_of_apply h hlook hi
  cases takes_of_apply h' (hturned.looksAt hlook) hi' with
  | arithmetic kind => cases kind
  | integers _ due =>
    cases hbefore with
    | arithmetic _ due' => cases due.symm.trans due'
    | passed =>
      -- The only operand is in the first place, where no list is due.
      cases i with
      | zero => cases op <;> cases due
      | succ => cases hi
  | passed all =>
    -- What is passed on is what there is.
    obtain ⟨m, rfl⟩ := List.length_eq_one_iff.mp hturned.length_eq
    have hzero : i = 0 := by
      cases i with
      | zero => rfl
      | succ => cases hi
    subst hzero
    cases hi
    cases (all _).symm.trans h
    cases (all _).symm.trans h'

end GraphShapes.Rule
