/-
GraphShapes.Proofs.GroupingTheorems — sums and products of many operands.

A sum or a product of many values is built of sums or products of two. Whatever
the values are, tensors, integers or neither, it does not matter in which order they
are taken and how they are grouped: either every way comes to the same, or every way
ends in a defect of the operator (`value_of_perm`). What its message shows does depend
on the way, so that one way may end in an inference error and another one in none, for
a size that is too long to write (`value_untold`).

With failure as one more value, sums of two values are a commutative semigroup, and
so are products (`arithmetic`). For two tensors this is what `BroadcastTheorems`
says of joins, for two integers it is arithmetic, and a tensor beside an integer does
not change.

  §1 Two operands  — the semigroup.
  §2 Failures      — what the message of a failed sum or product shows.
  §3 Groupings     — groupings of the same operands in a commutative semigroup.
  §4 Many operands — the rule, applied pair by pair.
-/
import GraphShapes.Proofs.BroadcastTheorems
import GraphShapes.Proofs.OutcomeTheorems
import Mathlib.Algebra.BigOperators.Group.List.Basic
import Mathlib.Algebra.Group.WithOne.Basic

namespace GraphShapes

/-- Nothing that arithmetic says of the value is too long to write: a tensor is spoken
of through its sizes and axes, an integer never is. -/
def Meta.IsTellable : Meta → Prop
  | .tensor sizes => (∀ x ∈ sizes, Decimal.isWritable x = true) ∧ sizes.length < Decimal.bound
  | .scalar _ => True
  | .ints ns => ∀ n ∈ ns, Decimal.isWritable n = true
  | .nothing => True

namespace Rule

variable {op : Operator} {a b c m r : Meta} {node : Node} {ctx : Context}

/-! ## §1 Two operands -/

@[simp] theorem combine_tensor_scalar {s : Shape} {n : Int} :
    combine op (.tensor s) (.scalar n) = .ok (.tensor s) := rfl

@[simp] theorem combine_scalar_tensor {s : Shape} {n : Int} :
    combine op (.scalar n) (.tensor s) = .ok (.tensor s) := rfl

theorem combine_tensor_eq_ok_iff {s t : Shape} :
    combine op (.tensor s) (.tensor t) = .ok m ↔
      ∃ u, Shape.broadcast s t = .ok u ∧ .tensor u = m := by
  rw [combine, bind_eq_ok_iff]
  simp only [shaped_eq_ok_iff, pure_eq_ok_iff]

/-- Two tensors have a sum with a property when they have a broadcast with it. -/
theorem exists_combine_tensor_iff {s t : Shape} {P : Meta → Prop} :
    (∃ m, combine op (.tensor s) (.tensor t) = .ok m ∧ P m) ↔
      ∃ u, Shape.broadcast s t = .ok u ∧ P (.tensor u) := by
  simp only [combine_tensor_eq_ok_iff]
  constructor
  · rintro ⟨_, ⟨u, hu, rfl⟩, hp⟩
    exact ⟨u, hu, hp⟩
  · rintro ⟨u, hu, hp⟩
    exact ⟨_, ⟨u, hu, rfl⟩, hp⟩

/-- Two values have the same sum, or product, in either order. -/
theorem combine_comm_iff (hop : op = .add ∨ op = .mul) :
    combine op a b = .ok r ↔ combine op b a = .ok r := by
  cases a with
  | ints | nothing => cases b <;> simp [combine]
  | tensor s =>
    cases b with
    | scalar | ints | nothing => simp [combine]
    | tensor t =>
      simp only [combine_tensor_eq_ok_iff, Shape.broadcast_comm_iff (a := s)]
  | scalar x =>
    cases b with
    | tensor | ints | nothing => simp [combine]
    | scalar y => rcases hop with rfl | rfl <;> simp [combine, fold, Int.add_comm, Int.mul_comm]

/-- Three values have the same sum, or product, in either grouping. -/
theorem combine_assoc_iff (hop : op = .add ∨ op = .mul) :
    (∃ m, combine op a b = .ok m ∧ combine op m c = .ok r) ↔
      ∃ m, combine op b c = .ok m ∧ combine op a m = .ok r := by
  cases a with
  | ints | nothing => simp [combine]
  | tensor s =>
    cases b with
    | ints | nothing => simp [combine]
    | tensor t =>
      rw [exists_combine_tensor_iff]
      cases c with
      | ints | nothing => simp [combine]
      | scalar z => simp [combine_tensor_eq_ok_iff]
      | tensor u =>
        rw [exists_combine_tensor_iff]
        simp only [combine_tensor_eq_ok_iff]
        constructor
        · rintro ⟨p, hp, q, hq, rfl⟩
          obtain ⟨p', hp', hq'⟩ := Shape.broadcast_assoc_iff.mp ⟨p, hp, hq⟩
          exact ⟨p', hp', q, hq', rfl⟩
        · rintro ⟨p, hp, q, hq, rfl⟩
          obtain ⟨p', hp', hq'⟩ := Shape.broadcast_assoc_iff.mpr ⟨p, hp, hq⟩
          exact ⟨p', hp', q, hq', rfl⟩
    | scalar y =>
      cases c with
      | tensor | ints | nothing => simp [combine]
      | scalar z => rcases hop with rfl | rfl <;> simp [combine, fold]
  | scalar x =>
    cases b with
    | ints | nothing => simp [combine]
    | tensor t =>
      cases c with
      | scalar | ints | nothing => simp [combine]
      | tensor u => simp [combine_tensor_eq_ok_iff]
    | scalar y =>
      cases c with
      | ints | nothing => rcases hop with rfl | rfl <;> simp [combine, fold]
      | tensor u => rcases hop with rfl | rfl <;> simp [combine, fold]
      | scalar z =>
        rcases hop with rfl | rfl <;> simp [combine, fold, Int.add_assoc, Int.mul_assoc]

/-- The sum or product of two values, either of which may be missing. -/
def combine? (op : Operator) (a b : Option Meta) : Option Meta :=
  a.bind fun x => b.bind fun y => (combine op x y).toOption

theorem combine?_eq_some_iff {x y : Option Meta} :
    combine? op x y = some r ↔ ∃ a b, x = some a ∧ y = some b ∧ combine op a b = .ok r := by
  have htoOption (z : Except Refusal Meta) : z.toOption = some r ↔ z = .ok r := by
    cases z <;> simp [Except.toOption]
  simp [combine?, Option.bind_eq_some_iff, htoOption]

/-- **Arithmetic.** Values that may be missing are a commutative semigroup under sums,
and under products. -/
abbrev arithmetic (hop : op = .add ∨ op = .mul) : CommSemigroup (Option Meta) where
  mul := combine? op
  mul_assoc x y z := by
    refine Option.ext fun r => ?_
    show combine? op (combine? op x y) z = some r ↔ combine? op x (combine? op y z) = some r
    simp only [combine?_eq_some_iff]
    constructor
    · rintro ⟨m, c, ⟨a, b, rfl, rfl, hm⟩, rfl, hr⟩
      obtain ⟨n, hn, hr⟩ := (combine_assoc_iff hop).mp ⟨m, hm, hr⟩
      exact ⟨a, n, rfl, ⟨b, c, rfl, rfl, hn⟩, hr⟩
    · rintro ⟨a, n, rfl, ⟨b, c, rfl, rfl, hn⟩, hr⟩
      obtain ⟨m, hm, hr⟩ := (combine_assoc_iff hop).mpr ⟨n, hn, hr⟩
      exact ⟨m, c, ⟨a, b, rfl, rfl, hm⟩, rfl, hr⟩
  mul_comm x y := by
    refine Option.ext fun r => ?_
    show combine? op x y = some r ↔ combine? op y x = some r
    simp only [combine?_eq_some_iff]
    constructor
    · rintro ⟨a, b, rfl, rfl, hr⟩
      exact ⟨b, a, rfl, rfl, (combine_comm_iff hop).mp hr⟩
    · rintro ⟨b, a, rfl, rfl, hr⟩
      exact ⟨a, b, rfl, rfl, (combine_comm_iff hop).mp hr⟩

/-! ## §2 Failures -/

/-- A sum or product of values that can be told can be told. -/
theorem isTellable_combine (ha : a.IsTellable) (hb : b.IsTellable) (h : combine op a b = .ok m) :
    m.IsTellable := by
  rcases combine_eq_ok h with ⟨s, t, u, rfl, rfl, hu, rfl⟩ | ⟨s, n, rfl, rfl, rfl⟩ |
    ⟨n, t, rfl, rfl, rfl⟩ | ⟨x, y, n, rfl, rfl, rfl⟩
  · obtain ⟨hlength, hsizes⟩ := Shape.sizes_broadcast hu
    refine ⟨fun x hx => (hsizes x hx).elim (ha.1 x) (hb.1 x), ?_⟩
    exact Nat.lt_of_le_of_lt hlength (Nat.max_lt.mpr ⟨ha.2, hb.2⟩)
  · exact ha
  · exact hb
  · trivial

/-- Why values that can be told have no sum, or product, can be told. -/
theorem isWritable_of_combine_eq_error (hop : op = .add ∨ op = .mul) (ha : a.IsTellable)
    (hb : b.IsTellable) {d : NodeDefect} (h : combine op a b = .error (.defect d)) :
    d.isWritable = true := by
  -- A value that is no operand of arithmetic is shown as it is.
  have hkind (found : Meta) (hfound : found.IsTellable) (hnot : isArithmetic found = false) :
      (NodeDefect.operandKind found).isWritable = true := by
    cases found with
    | tensor | scalar => cases hnot
    | ints ns => exact List.all_eq_true.mpr hfound
    | nothing => rfl
  cases a with
  | ints | nothing => cases b <;> (cases h; exact hkind _ ha rfl)
  | tensor s =>
    cases b with
    | ints | nothing => cases h; exact hkind _ hb rfl
    | scalar => cases h
    | tensor t =>
      cases hbroadcast : Shape.broadcast s t with
      | ok u => simp [combine, hbroadcast] at h
      | error d' =>
        rw [combine, hbroadcast] at h
        cases h
        exact Shape.isWritable_of_broadcast_eq_error ha.1 ha.2 hb.1 hbroadcast
  | scalar x =>
    cases b with
    | ints | nothing => cases h; exact hkind _ hb rfl
    | tensor => cases h
    | scalar y => rcases hop with rfl | rfl <;> cases h

end Rule

/-! ## §3 Groupings -/

/-- Operands that are taken two at a time. -/
inductive Grouping where
  | operand (m : Meta)
  | pair (s t : Grouping)

namespace Grouping

variable {op : Operator} {node : Node} {ctx : Context} {s t : Grouping} {m : Meta} {f : Fault}

/-- The operands from left to right. -/
def operands : Grouping → List Meta
  | operand m => [m]
  | pair s t => s.operands ++ t.operands

/-- The product of the operands' images. -/
def product {α : Type} [Mul α] (image : Meta → α) : Grouping → α
  | operand m => image m
  | pair s t => s.product image * t.product image

/-- With a unit added, the product is one over the list of operands. -/
theorem coe_product {α : Type} [CommSemigroup α] (image : Meta → α) (s : Grouping) :
    ((s.product image : α) : WithOne α)
      = (s.operands.map fun m => ((image m : α) : WithOne α)).prod := by
  induction s with
  | operand m => simp [product, operands]
  | pair s t ihs iht => simp [product, operands, ihs, iht]

/-- Groupings of the same operands have the same product. -/
theorem product_eq_of_perm {α : Type} [CommSemigroup α] (image : Meta → α)
    (h : s.operands.Perm t.operands) : s.product image = t.product image := by
  rw [← WithOne.coe_inj, coe_product, coe_product]
  exact (h.map _).prod_eq

/-! ## §4 Many operands -/

/-- What the rule of an operator makes of the operands, applied to two at a time. -/
def value (op : Operator) (node : Node) (ctx : Context) : Grouping → Except Fault Meta
  | operand m => .ok m
  | pair s t => do
    let a ← s.value op node ctx
    let b ← t.value op node ctx
    let (_, results, _) ← Rule.answer Operator.all (.text op.tag) [a, b] node ctx
    return results.headD .nothing

/-- The rule combines the values of the two sides, in the words of a fault. -/
theorem value_pair (hop : op = .add ∨ op = .mul) :
    (pair s t).value op node ctx = (do
      let a ← s.value op node ctx
      let b ← t.value op node ctx
      (Rule.combine op a b).mapError fun r => (r.toFault (.text op.tag)).settled) := by
  have hanswer (a b : Meta) :
      (do
        let (_, results, _) ← Rule.answer Operator.all (.text op.tag) [a, b] node ctx
        return results.headD .nothing) =
      (Rule.combine op a b).mapError fun r => (r.toFault (.text op.tag)).settled := by
    have hfind : Rule.find Operator.all (.text op.tag) = .ok op := by
      rw [Rule.find, show Operator.find? Operator.all (.text op.tag) = some op from
        Operator.ofTag?_tag op]
    have happly : Rule.apply op [a, b] node ctx = (Rule.combine op a b).map ([·]) := by
      rcases hop with rfl | rfl <;> rfl
    rw [Rule.answer, hfind]
    simp only [happly]
    cases Rule.combine op a b <;> rfl
  simp only [value, hanswer]

/-- Two tensors that do not broadcast have no value. -/
theorem value_of_broadcast_eq_error (hop : op = .add ∨ op = .mul) {a b : Shape} {d : Shape.Defect}
    (h : Shape.broadcast a b = .error d) :
    (pair (operand (.tensor a)) (operand (.tensor b))).value op node ctx
      = .error (Fault.inference (.node (.text op.tag) (.shape d))).settled := by
  rw [value_pair hop]
  simp only [value, Rule.combine, h, Rule.shaped, Rule.refuse, Refusal.toFault, ok_bind,
    error_bind, mapError_error]

/-- Where failures are left out, the value is the product of the operands. -/
theorem toOption_value (hop : op = .add ∨ op = .mul) (node : Node) (ctx : Context)
    (s : Grouping) :
    letI := Rule.arithmetic hop
    (s.value op node ctx).toOption = s.product some := by
  induction s with
  | operand m => rfl
  | pair s t ihs iht =>
    show _ = Rule.combine? op _ _
    rw [← ihs, ← iht, value_pair hop]
    cases s.value op node ctx with
    | error f => rfl
    | ok a =>
      cases t.value op node ctx with
      | error f => rfl
      | ok b =>
        show (Except.mapError _ (Rule.combine op a b)).toOption = (Rule.combine op a b).toOption
        cases Rule.combine op a b <;> rfl

/-- A value of operands that can be told can be told. -/
theorem isTellable_value (hop : op = .add ∨ op = .mul) (htell : ∀ m ∈ s.operands, m.IsTellable)
    (h : s.value op node ctx = .ok m) : m.IsTellable := by
  induction s generalizing m with
  | operand m' =>
    cases h
    exact htell m' List.mem_cons_self
  | pair s t ihs iht =>
    rw [operands, List.forall_mem_append] at htell
    simp only [value_pair hop, bind_eq_ok_iff, mapError_eq_ok_iff] at h
    obtain ⟨a, ha, b, hb, hm⟩ := h
    exact Rule.isTellable_combine (ihs htell.1 ha) (iht htell.2 hb) hm

/-- Where there is no value, some sum or product of two is refused, and for a reason
that can be told if the operands can. -/
theorem value_eq_error (hop : op = .add ∨ op = .mul) (h : s.value op node ctx = .error f) :
    ∃ d, f = (Fault.inference (.node (.text op.tag) d)).settled ∧
      ((∀ m ∈ s.operands, m.IsTellable) → d.isWritable = true) := by
  induction s with
  | operand m => cases h
  | pair s t ihs iht =>
    simp only [value_pair hop, bind_eq_error_iff, mapError_eq_error_iff] at h
    simp only [operands, List.forall_mem_append]
    rcases h with hs | ⟨a, ha, ht | ⟨b, hb, r, hr, rfl⟩⟩
    · obtain ⟨d, rfl, hd⟩ := ihs hs
      exact ⟨d, rfl, fun htell => hd htell.1⟩
    · obtain ⟨d, rfl, hd⟩ := iht ht
      exact ⟨d, rfl, fun htell => hd htell.2⟩
    · rcases Rule.proper_combine.ok_or_defect with ⟨m, hm⟩ | ⟨d, hd⟩
      · rw [hm] at hr
        cases hr
      · rw [hd] at hr
        cases hr
        refine ⟨d, rfl, fun htell => ?_⟩
        exact Rule.isWritable_of_combine_eq_error hop (isTellable_value hop htell.1 ha)
          (isTellable_value hop htell.2 hb) hd

/-- A reason that can be told is told. -/
theorem settled_of_isWritable {d : NodeDefect} (h : d.isWritable = true) :
    (Fault.inference (.node (.text op.tag) d)).settled = .inference (.node (.text op.tag) d) :=
  if_pos h

/-- **Order and grouping do not matter.** Take the same operands, tensors, integers or
neither, in two orders and groupings, and apply the rule of sums to two of them at a
time, or that of products. Either both come to the same value, or both end in an
inference error of the operator. The error is told as it is, if no size and no integer
of a list among the operands is too long for its text. -/
theorem value_of_perm (hop : op = .add ∨ op = .mul) (h : s.operands.Perm t.operands)
    (node : Node) (ctx : Context) :
    (∃ m, s.value op node ctx = .ok m ∧ t.value op node ctx = .ok m) ∨
      ∃ d d', s.value op node ctx = .error (Fault.inference (.node (.text op.tag) d)).settled ∧
        t.value op node ctx = .error (Fault.inference (.node (.text op.tag) d')).settled ∧
        ((∀ m ∈ s.operands, m.IsTellable) →
          s.value op node ctx = .error (.inference (.node (.text op.tag) d)) ∧
            t.value op node ctx = .error (.inference (.node (.text op.tag) d'))) := by
  have hsame : (s.value op node ctx).toOption = (t.value op node ctx).toOption := by
    rw [toOption_value hop, toOption_value hop]
    exact @product_eq_of_perm s t _ (Rule.arithmetic hop) some h
  cases hs : s.value op node ctx with
  | ok m =>
    rw [hs] at hsame
    exact Or.inl ⟨m, rfl, eq_ok_of_toOption hsame.symm⟩
  | error f =>
    rw [hs] at hsame
    obtain ⟨f', hf'⟩ := exists_error_of_toOption hsame.symm
    obtain ⟨d, rfl, hd⟩ := value_eq_error hop hs
    obtain ⟨d', rfl, hd'⟩ := value_eq_error hop hf'
    refine Or.inr ⟨d, d', rfl, hf', fun htell => ?_⟩
    have htell' : ∀ m ∈ t.operands, m.IsTellable := fun m hm => htell m (h.mem_iff.mpr hm)
    rw [hf', settled_of_isWritable (hd htell), settled_of_isWritable (hd' htell')]
    exact ⟨rfl, rfl⟩

/-- A column, an integer and a row. -/
def columnFirst : Grouping :=
  pair (pair (operand (.tensor [2, 1])) (operand (.scalar 7))) (operand (.tensor [5]))

/-- The row, and then the column with the integer. -/
def rowFirst : Grouping :=
  pair (operand (.tensor [5])) (pair (operand (.tensor [2, 1])) (operand (.scalar 7)))

/-- Column and row make the same table either way. -/
theorem value_columnFirst_of_perm :
    columnFirst.operands.Perm rowFirst.operands ∧
      columnFirst.value .mul { op := .text "aten::mul" } {} = .ok (.tensor [2, 5]) ∧
      rowFirst.value .mul { op := .text "aten::mul" } {} = .ok (.tensor [2, 5]) := by
  have hperm : columnFirst.operands.Perm rowFirst.operands := by decide
  have hcolumn : columnFirst.value .mul { op := .text "aten::mul" } {} = .ok (.tensor [2, 5]) :=
    eq_ok_of_toOption (by decide +kernel)
  rcases value_of_perm (Or.inr rfl) hperm { op := .text "aten::mul" } {} with
    ⟨m, hm, hrow⟩ | ⟨d, _, hfault, _⟩
  · rw [hcolumn] at hm
    cases hm
    exact ⟨hperm, hcolumn, hrow⟩
  · rw [hcolumn] at hfault
    cases hfault

/-- A row with a length that is too long to write, and two short ones. -/
def longFirst : Grouping :=
  pair (pair (operand (.tensor [(Decimal.bound : Int)])) (operand (.tensor [3])))
    (operand (.tensor [2]))

/-- The short ones first. -/
def shortFirst : Grouping :=
  pair (operand (.tensor [(Decimal.bound : Int)]))
    (pair (operand (.tensor [3])) (operand (.tensor [2])))

/-- No two of them have a sum. Which two are met first says whether an error can tell. -/
theorem value_untold :
    longFirst.operands.Perm shortFirst.operands ∧
      longFirst.value .add { op := .text "aten::add" } {} = .error (.misuse .badValue) ∧
      shortFirst.value .add { op := .text "aten::add" } {}
        = .error (.inference (.node (.text "aten::add") (.shape (.broadcast 3 2 (-1))))) := by
  have hbound := Decimal.byte_lt_bound
  have hone : (Decimal.bound : Int) ≠ 1 := by omega
  have hthree : (Decimal.bound : Int) ≠ 3 := by omega
  have hfirst : Shape.broadcast [(Decimal.bound : Int)] [3]
      = .error (.broadcast Decimal.bound 3 (-1)) := by
    simp [Shape.broadcast, Shape.broadcastFromEnd, hone, hthree]
    rfl
  have hshort : Shape.broadcast [3] [2] = .error (.broadcast 3 2 (-1)) := rfl
  have huntold : (NodeDefect.shape (.broadcast Decimal.bound 3 (-1))).isWritable = false := by
    simp [NodeDefect.isWritable, Shape.Defect.isWritable, Shape.Defect.integers]
  refine ⟨List.Perm.refl _, ?_, ?_⟩
  · rw [longFirst, value_pair (.inl rfl), value_of_broadcast_eq_error (.inl rfl) hfirst,
      Fault.settled_node huntold]
    rfl
  · rw [shortFirst, value_pair (.inl rfl), value_of_broadcast_eq_error (.inl rfl) hshort,
      settled_of_isWritable (by decide +kernel)]
    rfl

end Grouping

end GraphShapes
