/-
GraphShapes.Proofs.ArithmeticTheorems — constant folding is exact.

A graph of integer constants and two-operand arithmetic computes expressions. Which
one a name stands for is read off the graph, by following operands back to the
constants and inputs (`Graph.Denotes`); an expression that is shared is met as often
as it is used, and where no name is written twice there is no other
(`Denotes.unique`). Such an expression has a value in the unbounded integers, unless
some power in it has a negative exponent.

A walk knows every name as the value of what the name stands for. That is the
invariant (`Store.Evaluated`), and one node keeps it or stops for a negative
exponent (`evaluated_inferNode`). By induction on the nodes a walk either evaluates
everything or stops at the first power that has none (`evaluated_inferNodes`), and a
run does the same (`run_arithmetic`).

  §1 Expressions — `Arithmetic`, `Expression`, and their values.
  §2 Graphs      — `Graph.IsArithmetic`, `Graph.Denotes`.
  §3 Walks       — the invariant, one node, nodes.
  §4 Runs        — the values that a run stores.
-/
import GraphShapes.Proofs.EngineTheorems
import GraphShapes.Proofs.RuleTheorems

namespace GraphShapes

/-! ## §1 Expressions -/

/-- The arithmetic of integers. -/
inductive Arithmetic where
  | add
  | sub
  | mul
  | pow

namespace Arithmetic

/-- The operator of the nodes that do it. -/
def operator : Arithmetic → Operator
  | add => .add
  | sub => .sub
  | mul => .mul
  | pow => .pow

theorem operator_injective {op op' : Arithmetic} (h : op.operator = op'.operator) : op = op' := by
  cases op <;> cases op' <;> first | rfl | cases h

theorem operator_ne_constant (op : Arithmetic) : op.operator ≠ .constant := by
  cases op <;> decide

/-- Its result. A power with a negative exponent has none. -/
def result? : Arithmetic → Int → Int → Option Int
  | add, x, y => some (x + y)
  | sub, x, y => some (x - y)
  | mul, x, y => some (x * y)
  | pow, x, y => if y < 0 then none else some (x ^ y.toNat)

end Arithmetic

/-- An expression over integers. -/
inductive Expression where
  | number (n : Int)
  | operation (op : Arithmetic) (left right : Expression)

/-- The value of an expression, if no power in it has a negative exponent. -/
def Expression.value? : Expression → Option Int
  | number n => some n
  | operation op left right => do op.result? (← left.value?) (← right.value?)

namespace Rule

/-- Two integers are folded to the result that they have. -/
theorem binary_scalar {op : Arithmetic} {p q n : Int} (h : op.result? p q = some n) :
    binary op.operator [.scalar p, .scalar q] = .ok [.scalar n] := by
  cases op with
  | add | sub | mul => cases h; rfl
  | pow =>
    rw [Arithmetic.result?] at h
    split at h
    · cases h
    · next hexponent =>
      cases h
      simp only [binary, Arithmetic.operator, combine, fold, if_neg hexponent, power_eq]
      rfl

/-- Only a power can have no result, and only for its exponent. -/
theorem binary_scalar_eq_error {op : Arithmetic} {p q : Int} (h : op.result? p q = none) :
    op = .pow ∧ q < 0 ∧
      binary op.operator [.scalar p, .scalar q] = .error (.defect (.negativeExponent q)) := by
  cases op with
  | add | sub | mul => cases h
  | pow =>
    rw [Arithmetic.result?] at h
    split at h
    · next hexponent =>
      refine ⟨rfl, hexponent, ?_⟩
      simp only [binary, Arithmetic.operator, combine, fold, if_pos hexponent]
      rfl
    · cases h

theorem apply_operator (op : Arithmetic) (metas : List Meta) (node : Node) (ctx : Context) :
    apply op.operator metas node ctx = binary op.operator metas := by
  cases op <;> rfl

end Rule

/-! ## §2 Graphs -/

/-- The node does arithmetic on the values of two names. -/
structure Node.Applies (node : Node) (op : Arithmetic) (a b name : Name) : Prop where
  tag : Operator.ofTag? node.op = some op.operator
  inputs : node.inputs = [a, b]
  outputs : node.outputs = [name]

theorem Node.Applies.tracked {node : Node} {op : Arithmetic} {a b name : Name}
    (h : node.Applies op a b name) : node.tracked = [name] := by
  rw [Node.tracked_of_ofTag? h.tag, h.outputs]
  cases op <;> rfl

namespace Graph

/-- The node is a constant that is declared as an integer. -/
structure IsNumber (g : Graph) (node : Node) (n : Int) (name : Name) : Prop where
  tag : Operator.ofTag? node.op = some .constant
  outputs : node.outputs = [name]
  type : g.valueType name = .text "int"
  value : node.intAttribute "value" = .ok n

/-- A graph of integer constants and two-operand arithmetic over integer inputs, in
which no name is written twice and operands come first. -/
structure IsArithmetic (g : Graph) (inputs : List Datum) : Prop where
  integers : ∃ ns : List Int, inputs.map Datum.asInt? = ns.map some ∧ ns.length = g.inputs.length
  nodes : ∀ node ∈ g.nodes,
    (∃ n name, g.IsNumber node n name) ∨ ∃ op a b name, node.Applies op a b name
  distinct : Name.Distinct (g.inputs ++ trackedNames g.nodes)
  ordered : Ordered g.inputs g.nodes

/-- The expression that a name stands for, from the inputs and constants on. -/
inductive Denotes (g : Graph) (inputs : List Datum) : Name → Expression → Prop
  | input {i : Nat} {spelled name : Name} {d : Datum} {n : Int}
      (bound : g.inputs[i]? = some spelled) (given : inputs[i]? = some d)
      (integer : d.asInt? = some n) (same : spelled.key = name.key) :
      Denotes g inputs name (.number n)
  | constant {node : Node} {spelled name : Name} {n : Int} (mem : node ∈ g.nodes)
      (number : g.IsNumber node n spelled) (same : spelled.key = name.key) :
      Denotes g inputs name (.number n)
  | operation {node : Node} {op : Arithmetic} {a b spelled name : Name} {x y : Expression}
      (mem : node ∈ g.nodes) (applies : node.Applies op a b spelled)
      (left : Denotes g inputs a x) (right : Denotes g inputs b y)
      (same : spelled.key = name.key) : Denotes g inputs name (.operation op x y)

/-- The node is a power, and its exponent stands for an expression whose value is
below zero. -/
def HasNegativeExponent (g : Graph) (inputs : List Datum) (node : Node) (k : Int) : Prop :=
  ∃ a b name x, node.Applies .pow a b name ∧ g.Denotes inputs b x ∧ x.value? = some k ∧ k < 0

variable {g : Graph} {config : Config} {inputs : List Datum} {node : Node} {nodes : List Node}
  {name : Name} {s : Store} {x y : Expression} {n k : Int}

theorem IsNumber.tracked (h : g.IsNumber node n name) : node.tracked = [name] := by
  rw [Node.tracked_of_ofTag? h.tag, h.outputs]
  rfl

/-- Inputs with one name are one input. -/
theorem IsArithmetic.index_unique (h : g.IsArithmetic inputs) {i j : Nat} {a b : Name}
    (ha : g.inputs[i]? = some a) (hb : g.inputs[j]? = some b) (hkey : a.key = b.key) : i = j := by
  have hd : (g.inputs.map Name.key).Nodup := (Name.distinct_append.mp h.distinct).1
  have hi : i < (g.inputs.map Name.key).length := by
    rw [List.length_map]
    exact (List.getElem?_eq_some_iff.mp ha).1
  apply (List.getElem?_inj hi hd).mp
  rw [List.getElem?_map, List.getElem?_map, ha, hb, Option.map_some, Option.map_some, hkey]

/-- No node tracks an input. -/
theorem IsArithmetic.input_fresh (h : g.IsArithmetic inputs) {i : Nat} {a b : Name}
    (ha : g.inputs[i]? = some a) (hnode : node ∈ g.nodes) (hb : node.tracked = [b]) :
    a.key ≠ b.key := by
  intro hkey
  apply (Name.distinct_append.mp h.distinct).2.2 a (List.mem_of_getElem? ha)
  rw [← Name.isAmong_iff, trackedNames, Name.isAmong_flatMap]
  exact ⟨node, hnode, by rw [hb, Name.isAmong_iff]; simp [hkey]⟩

/-- Nodes that track one name are one node. -/
theorem IsArithmetic.node_unique (h : g.IsArithmetic inputs) {node' : Node} {a b : Name}
    (hnode : node ∈ g.nodes) (hnode' : node' ∈ g.nodes) (ha : node.tracked = [a])
    (hb : node'.tracked = [b]) (hkey : a.key = b.key) : node = node' := by
  have hfirst : a.isAmong node.tracked = true := by
    rw [ha, Name.isAmong_iff]
    simp
  have hsecond : a.isAmong node'.tracked = true := by
    rw [hb, Name.isAmong_iff]
    simp [hkey]
  exact eq_of_isAmong_tracked (Name.distinct_append.mp h.distinct).2.1 hnode hnode' hfirst hsecond

/-- **A name stands for one expression.** By induction on how it comes to stand for
the first: names are written once, so the second is read off the same input or node. -/
theorem Denotes.unique (hg : g.IsArithmetic inputs) (h : g.Denotes inputs name x)
    {name' : Name} (hkey : name.key = name'.key) (h' : g.Denotes inputs name' y) : x = y := by
  induction h generalizing name' y with
  | @input i a name d n hi hd hn ha =>
    cases h' with
    | input hj hd' hn' hb =>
      have hij := hg.index_unique hi hj ((ha.trans hkey).trans hb.symm)
      subst hij
      rw [hd] at hd'
      cases hd'
      rw [hn] at hn'
      cases hn'
      rfl
    | constant hnode' hnumber' hb =>
      exact absurd ((ha.trans hkey).trans hb.symm) (hg.input_fresh hi hnode' hnumber'.tracked)
    | operation hnode' happlies' _ _ hb =>
      exact absurd ((ha.trans hkey).trans hb.symm) (hg.input_fresh hi hnode' happlies'.tracked)
  | @constant node a name n hnode hnumber ha =>
    cases h' with
    | input hj _ _ hb =>
      exact absurd ((hb.trans hkey.symm).trans ha.symm) (hg.input_fresh hj hnode hnumber.tracked)
    | constant hnode' hnumber' hb =>
      obtain rfl := hg.node_unique hnode hnode' hnumber.tracked hnumber'.tracked
        ((ha.trans hkey).trans hb.symm)
      have hvalue := hnumber.value.symm.trans hnumber'.value
      cases hvalue
      rfl
    | operation hnode' happlies' _ _ hb =>
      obtain rfl := hg.node_unique hnode hnode' hnumber.tracked happlies'.tracked
        ((ha.trans hkey).trans hb.symm)
      have htag := happlies'.tag.symm.trans hnumber.tag
      exact absurd (Option.some.inj htag) (Arithmetic.operator_ne_constant _)
  | @operation node op a b c name x y hnode happlies hx hy hc ihx ihy =>
    cases h' with
    | input hj _ _ hb =>
      exact absurd ((hb.trans hkey.symm).trans hc.symm) (hg.input_fresh hj hnode happlies.tracked)
    | constant hnode' hnumber' hb =>
      obtain rfl := hg.node_unique hnode hnode' happlies.tracked hnumber'.tracked
        ((hc.trans hkey).trans hb.symm)
      have htag := happlies.tag.symm.trans hnumber'.tag
      exact absurd (Option.some.inj htag) (Arithmetic.operator_ne_constant _)
    | @operation node' op' a' b' c' name' x' y' hnode' happlies' hx' hy' hc' =>
      obtain rfl := hg.node_unique hnode hnode' happlies.tracked happlies'.tracked
        ((hc.trans hkey).trans hc'.symm)
      have htag := happlies.tag.symm.trans happlies'.tag
      have hop : op = op' := Arithmetic.operator_injective (Option.some.inj htag)
      cases happlies.inputs.symm.trans happlies'.inputs
      rw [hop, ihx rfl hx', ihy rfl hy']

/-- Only inputs and tracked names stand for anything. -/
theorem Denotes.isAmong (h : g.Denotes inputs name x) :
    name.isAmong (g.inputs ++ trackedNames g.nodes) = true := by
  have htracked {node : Node} {spelled : Name} (hnode : node ∈ g.nodes)
      (htracked : node.tracked = [spelled]) (hkey : spelled.key = name.key) :
      name.isAmong (trackedNames g.nodes) = true := by
    rw [trackedNames, Name.isAmong_flatMap]
    exact ⟨node, hnode, by rw [htracked, Name.isAmong_iff]; simp [hkey]⟩
  rw [Name.isAmong_append]
  cases h with
  | @input i spelled name d n hi _ _ hsame =>
    left
    rw [Name.isAmong_iff, ← hsame]
    exact List.mem_map_of_mem (List.mem_of_getElem? hi)
  | constant hnode hnumber hsame => exact Or.inr (htracked hnode hnumber.tracked hsame)
  | operation hnode happlies _ _ hsame => exact Or.inr (htracked hnode happlies.tracked hsame)

/-- Spellings of one name stand for the same. -/
theorem Denotes.congr (h : g.Denotes inputs name x) {name' : Name} (hkey : name.key = name'.key) :
    g.Denotes inputs name' x := by
  cases h with
  | input hi hd hn hsame => exact .input hi hd hn (hsame.trans hkey)
  | constant hnode hnumber hsame => exact .constant hnode hnumber (hsame.trans hkey)
  | operation hnode happlies hx hy hsame =>
    exact .operation hnode happlies hx hy (hsame.trans hkey)

end Graph

/-! ## §3 Walks -/

/-- Every entry is the value of what its name stands for. -/
def Store.Evaluated (s : Store) (g : Graph) (inputs : List Datum) : Prop :=
  ∀ name m, lookup? s name = some m →
    ∃ x n, g.Denotes inputs name x ∧ x.value? = some n ∧ m = .scalar n

/-- The reason to stop at a power with a negative exponent. -/
def Fault.negativeExponent (k : Int) : Fault :=
  .inference (.node (.text "aten::pow") (.negativeExponent k))

namespace Graph

variable {g : Graph} {config : Config} {inputs : List Datum} {node : Node} {nodes : List Node}
  {name : Name} {s : Store} {x : Expression} {n : Int}

/-- All values of names have texts. -/
def IsTellable (g : Graph) (inputs : List Datum) : Prop :=
  ∀ name x n, g.Denotes inputs name x → x.value? = some n → Decimal.isWritable n = true

/-- It is enough to look at one expression for every input and tracked name. -/
theorem isTellable_of_forall (hg : g.IsArithmetic inputs)
    (h : ∀ name ∈ g.inputs ++ trackedNames g.nodes, ∃ x, g.Denotes inputs name x ∧
      ∀ n, x.value? = some n → Decimal.isWritable n = true) : g.IsTellable inputs := by
  intro name x n hx hn
  obtain ⟨spelled, hspelled, hkey⟩ := List.mem_map.mp (Name.isAmong_iff.mp hx.isAmong)
  obtain ⟨y, hy, htext⟩ := h spelled hspelled
  rw [hx.unique hg hkey.symm hy] at hn
  exact htext n hn

/-- A node with one tracked output, the value of which its rule answers, adds that value. -/
theorem evaluated_of_answers (config : Config) (hg : g.IsTellable inputs) (hs : s.Valid)
    (he : s.Evaluated g inputs) (hfresh : lookup? s name = none)
    (htracked : node.tracked = [name]) (hans : g.Answers config (lookup? s) node [.scalar n])
    (hx : g.Denotes inputs name x) (hn : x.value? = some n) :
    (g.inferNode config s node).fault = none ∧
      (g.inferNode config s node).store.Evaluated g inputs := by
  have hvalid : Store.Valid (s ++ node.tracked.zip [.scalar n]) := by
    rw [htracked]
    exact (Store.valid_append_singleton hs).mpr ⟨hg name x n hx hn, hfresh⟩
  have hstep : (g.inferNode config s node).fault = none :=
    (fault_inferNode_eq_none_iff hs).mpr ⟨_, hans, by rw [htracked]; rfl, hvalid⟩
  obtain ⟨results, hans', _, hstore⟩ := exists_store_inferNode hstep
  refine ⟨hstep, ?_⟩
  rw [hstore, ← hans.unique hans', htracked]
  intro name' m hm
  cases hold : lookup? s name' with
  | some m' =>
    rw [lookup?_append_of_some hold] at hm
    exact he name' m (hold.trans hm)
  | none =>
    rw [lookup?_append_of_none hold, List.zip_cons_cons, lookup?_cons] at hm
    split at hm
    · next hsame =>
      cases hm
      exact ⟨x, n, hx.congr (Name.same_iff.mp hsame), hn, rfl⟩
    · cases hm

/-- A power with a negative exponent adds nothing. -/
theorem inferNode_of_negativeExponent {a b : Name} {p q : Int} (hq : Decimal.isWritable q = true)
    (happlies : node.Applies .pow a b name) (ha : lookup? s a = some (.scalar p))
    (hb : lookup? s b = some (.scalar q)) (hnone : Arithmetic.pow.result? p q = none) :
    (g.inferNode config s node).fault = some (.negativeExponent q) ∧
      (g.inferNode config s node).store = s := by
  have htag : node.op = .text "aten::pow" := Operator.tag_of_ofTag? happlies.tag
  have hoperands : operands s Operator.pow.tag node.inputs = .ok [.scalar p, .scalar q] := by
    rw [operands_eq_ok_iff, happlies.inputs, List.map_cons, List.map_cons, ha, hb]
    rfl
  have hrule : Rule.apply .pow [.scalar p, .scalar q] node (g.context config node)
      = .error (.defect (.negativeExponent q)) :=
    (Rule.binary_scalar_eq_error hnone).2.2
  have heval : g.evaluate config s node = .error (.negativeExponent q) := by
    have hop : Operator.ofTag? node.op = some .pow := happlies.tag
    simp only [evaluate, hop, hoperands, hrule]
    rw [htag]
    rfl
  have hsettled : (Fault.negativeExponent q).settled = .negativeExponent q :=
    if_pos (by simpa [Fault.negativeExponent, Fault.isWritable, InferenceError.isWritable,
      NodeDefect.isWritable, Datum.isWritable] using hq)
  rw [inferNode, heval]
  exact ⟨congrArg some hsettled, rfl⟩

/-- A name that is tracked next has no entry yet. -/
theorem lookup?_eq_none_of_tracked (hd : Name.Distinct (s.names ++ node.tracked))
    (htracked : node.tracked = [name]) : lookup? s name = none := by
  apply Store.lookup?_eq_none_of_names
  rw [← Bool.not_eq_true]
  intro hin
  have hfree := hd.not_isAmong hin
  rw [htracked, Name.isAmong_of_mem List.mem_cons_self] at hfree
  cases hfree

/-- A constant is evaluated, and has no exponent. -/
theorem evaluated_number (config : Config) (htext : g.IsTellable inputs) (hnode : node ∈ g.nodes)
    (hs : s.Valid) (he : s.Evaluated g inputs)
    (hbound : ∀ name ∈ node.inputs, name.isAmong s.names = true)
    (hd : Name.Distinct (s.names ++ node.tracked)) (hnumber : g.IsNumber node n name) :
    (g.inferNode config s node).fault = none ∧
      (g.inferNode config s node).store.Evaluated g inputs ∧
      ∀ k, ¬ g.HasNegativeExponent inputs node k := by
  obtain ⟨metas, hmetas⟩ := Store.exists_metas_of_isAmong hbound
  have hrule : Rule.apply .constant metas node (g.context config node) = .ok [.scalar n] := by
    simp [Rule.apply, Rule.constant, Rule.constantKind, context, hnumber.outputs, hnumber.type,
      Rule.ConstantKind.ofType, hnumber.value]
  have hstep := evaluated_of_answers config htext hs he
    (lookup?_eq_none_of_tracked hd hnumber.tracked) hnumber.tracked
    ⟨.constant, metas, hnumber.tag, hmetas, hrule⟩ (.constant hnode hnumber rfl) rfl
  refine ⟨hstep.1, hstep.2, fun k => ?_⟩
  rintro ⟨_, _, _, _, happlies, _⟩
  exact absurd (Option.some.inj (happlies.tag.symm.trans hnumber.tag))
    (Arithmetic.operator_ne_constant _)

/-- Arithmetic that has a result has no negative exponent. -/
theorem not_hasNegativeExponent {op : Arithmetic} {a b : Name} {p q : Int}
    (hg : g.IsArithmetic inputs) (happlies : node.Applies op a b name)
    (hx : g.Denotes inputs b x) (hq : x.value? = some q) (hresult : op.result? p q = some n)
    (k : Int) : ¬ g.HasNegativeExponent inputs node k := by
  rintro ⟨a', b', name', x', happlies', hx', hk, hneg⟩
  -- The exponent is the second operand, whose value is `q`.
  have hop : op = .pow :=
    Arithmetic.operator_injective (Option.some.inj (happlies.tag.symm.trans happlies'.tag))
  cases happlies.inputs.symm.trans happlies'.inputs
  rw [← hx.unique hg rfl hx', hq] at hk
  cases hk
  rw [hop, Arithmetic.result?, if_pos hneg] at hresult
  cases hresult

/-- **One node.** A node whose operands are evaluated is evaluated, or it is a power
that stops for its negative exponent. -/
theorem evaluated_inferNode (config : Config) (hg : g.IsArithmetic inputs)
    (htext : g.IsTellable inputs) (hnode : node ∈ g.nodes) (hs : s.Valid)
    (he : s.Evaluated g inputs)
    (hbound : ∀ name ∈ node.inputs, name.isAmong s.names = true)
    (hd : Name.Distinct (s.names ++ node.tracked)) :
    ((g.inferNode config s node).fault = none ∧
        (g.inferNode config s node).store.Evaluated g inputs ∧
        ∀ k, ¬ g.HasNegativeExponent inputs node k) ∨
      ∃ k, g.HasNegativeExponent inputs node k ∧
        (g.inferNode config s node).fault = some (.negativeExponent k) ∧
        (g.inferNode config s node).store = s := by
  rcases hg.nodes node hnode with ⟨n, name, hnumber⟩ | ⟨op, a, b, name, happlies⟩
  · exact Or.inl (evaluated_number config htext hnode hs he hbound hd hnumber)
  · have hinputs := happlies.inputs
    obtain ⟨ma, hma⟩ := exists_lookup?_iff.mpr (hbound a (by simp [hinputs]))
    obtain ⟨mb, hmb⟩ := exists_lookup?_iff.mpr (hbound b (by simp [hinputs]))
    obtain ⟨x, p, hx, hp, rfl⟩ := he a ma hma
    obtain ⟨y, q, hy, hq, rfl⟩ := he b mb hmb
    have hmetas : node.inputs.map (lookup? s) = [Meta.scalar p, .scalar q].map some := by
      simp [hinputs, hma, hmb]
    cases hresult : op.result? p q with
    | some n =>
      left
      have hrule : Rule.apply op.operator [.scalar p, .scalar q] node (g.context config node)
          = .ok [.scalar n] := (Rule.apply_operator ..).trans (Rule.binary_scalar hresult)
      have hvalue : (Expression.operation op x y).value? = some n := by
        simp [Expression.value?, hp, hq, hresult]
      have hstep := evaluated_of_answers config htext hs he
        (lookup?_eq_none_of_tracked hd happlies.tracked) happlies.tracked
        ⟨op.operator, _, happlies.tag, hmetas, hrule⟩ (.operation hnode happlies hx hy rfl) hvalue
      exact ⟨hstep.1, hstep.2, not_hasNegativeExponent hg happlies hy hq hresult⟩
    | none =>
      right
      obtain ⟨rfl, hneg, _⟩ := Rule.binary_scalar_eq_error hresult
      exact ⟨q, ⟨a, b, name, y, happlies, hy, hq, hneg⟩,
        inferNode_of_negativeExponent (htext b y q hy hq) happlies hma hmb hresult⟩

/-- **Nodes.** A walk over nodes evaluates all of them, or it evaluates those in front
of the first power with a negative exponent and stops there. By induction on the
nodes. -/
theorem evaluated_inferNodes (config : Config) (hg : g.IsArithmetic inputs)
    (htext : g.IsTellable inputs) (hnodes : ∀ node ∈ nodes, node ∈ g.nodes) (hs : s.Valid)
    (he : s.Evaluated g inputs)
    (hd : Name.Distinct (s.names ++ trackedNames nodes)) (ho : Ordered s.names nodes) :
    ((g.inferNodes config s nodes).fault = none ∧
        (g.inferNodes config s nodes).store.Evaluated g inputs ∧
        ∀ node ∈ nodes, ∀ k, ¬ g.HasNegativeExponent inputs node k) ∨
      ∃ front node rest k, nodes = front ++ node :: rest ∧
        (∀ earlier ∈ front, ∀ k, ¬ g.HasNegativeExponent inputs earlier k) ∧
        g.HasNegativeExponent inputs node k ∧
        (g.inferNodes config s nodes).fault = some (.negativeExponent k) ∧
        (g.inferNodes config s nodes).store.names = s.names ++ trackedNames front := by
  induction nodes generalizing s with
  | nil => exact Or.inl ⟨rfl, he, nofun⟩
  | cons node rest ih =>
    rw [List.forall_mem_cons] at hnodes
    obtain ⟨hbound, hrest⟩ := ho
    rw [trackedNames_cons, ← List.append_assoc] at hd
    rw [inferNodes]
    rcases evaluated_inferNode config hg htext hnodes.1 hs he hbound
      (Name.distinct_append.mp hd).1 with ⟨hstep, he', hnone⟩ | ⟨k, hneg, hfault, hstore⟩
    · obtain ⟨results, hans, hlen, hstore⟩ := exists_store_inferNode hstep
      have hnames : (g.inferNode config s node).store.names = s.names ++ node.tracked := by
        rw [hstore, Store.names_append_zip hlen]
      have hvalid : (g.inferNode config s node).store.Valid := by
        obtain ⟨results', hans', _, hvalid⟩ := (fault_inferNode_eq_none_iff hs).mp hstep
        rwa [hstore, hans.unique hans']
      rw [Progress.fault_andThen hstep, Progress.store_andThen hstep]
      rw [← hnames] at hd hrest
      rcases ih hnodes.2 hvalid he' hd hrest with ⟨hfault, heval, hall⟩ |
        ⟨front, stop, rest', k, rfl, hfront, hneg, hfault, hstop⟩
      · exact Or.inl ⟨hfault, heval, List.forall_mem_cons.mpr ⟨hnone, hall⟩⟩
      · refine Or.inr ⟨node :: front, stop, rest', k, rfl, ?_, hneg, hfault, ?_⟩
        · exact List.forall_mem_cons.mpr ⟨hnone, hfront⟩
        · rw [hstop, hnames, trackedNames_cons, List.append_assoc]
    · rw [Progress.andThen_of_fault hfault]
      exact Or.inr ⟨[], node, rest, k, rfl, nofun, hneg, hfault, by simp [hstore]⟩

/-- Integers that are given are known as themselves. -/
theorem map_toMeta_of_asInt? {ns : List Int} (h : inputs.map Datum.asInt? = ns.map some) :
    inputs.map Input.toMeta = (ns.map Meta.scalar).map .ok := by
  have htoMeta {d : Datum} {n : Int} (h : d.asInt? = some n) :
      Input.toMeta d = .ok (.scalar n) := by
    cases d with
    | bool | int | elementInt | elementBool => cases h; rfl
    | elementSpan s => simp only [Input.toMeta, h]
    | _ => cases h
  induction map_eq_map_some_iff.mp h with
  | nil => rfl
  | cons hd hrest ih =>
    simp only [List.map_cons, htoMeta hd, ih (map_eq_map_some_iff.mpr hrest)]

/-- An input stands for the integer that is given for it. -/
theorem denotes_of_mem_zip {ns : List Int} (hns : inputs.map Datum.asInt? = ns.map some)
    {entry : Name × Meta} (hmem : entry ∈ g.inputs.zip (ns.map .scalar)) :
    ∃ n, g.Denotes inputs entry.1 (.number n) ∧ entry.2 = .scalar n := by
  obtain ⟨i, hi⟩ := List.mem_iff_getElem?.mp hmem
  obtain ⟨hname, hm⟩ := List.getElem?_zip_eq_some.mp hi
  rw [List.getElem?_map, Option.map_eq_some_iff] at hm
  obtain ⟨n, hn, hscalar⟩ := hm
  obtain ⟨d, hd, hint⟩ := exists_getElem?_of_map_eq hns hn
  exact ⟨n, .input hname hd hint rfl, hscalar.symm⟩

/-- Integer inputs are bound, each as the number that its name stands for. -/
theorem evaluated_bindInputs (hg : g.IsArithmetic inputs) (htext : g.IsTellable inputs) :
    (g.bindInputs inputs []).fault = none ∧
      (g.bindInputs inputs []).store.Valid ∧
      (g.bindInputs inputs []).store.names = g.inputs ∧
      (g.bindInputs inputs []).store.Evaluated g inputs := by
  obtain ⟨ns, hns, hlen⟩ := hg.integers
  have hmetas := map_toMeta_of_asInt? hns
  have hcount : (ns.map Meta.scalar).length = g.inputs.length := by rw [List.length_map, hlen]
  have hvalid : Store.Valid ([] ++ g.inputs.zip (ns.map Meta.scalar)) := by
    refine ⟨?_, fun entry hmem => ?_⟩
    · rw [List.nil_append, Store.names_zip hcount]
      exact (Name.distinct_append.mp hg.distinct).1
    · obtain ⟨n, hn, hscalar⟩ := denotes_of_mem_zip hns hmem
      rw [hscalar]
      exact htext _ _ n hn rfl
  have hbind : (g.bindInputs inputs []).fault = none :=
    (fault_bindInputs_eq_none_iff Store.valid_nil).mpr ⟨_, hmetas, hcount, hvalid⟩
  rw [store_bindInputs hbind hmetas]
  refine ⟨hbind, hvalid, Store.names_zip hcount, fun name m hm => ?_⟩
  obtain ⟨spelled, hmem, hkey⟩ := exists_of_lookup? hm
  obtain ⟨n, hn, hscalar⟩ := denotes_of_mem_zip hns hmem
  exact ⟨_, n, hn.congr hkey, rfl, hscalar⟩

/-- **Walks.** A walk starts from integer inputs, so it evaluates all nodes, or those in
front of the first power with a negative exponent. -/
theorem evaluated_walk (config : Config) (hg : g.IsArithmetic inputs)
    (htext : g.IsTellable inputs) :
    ((g.walk config inputs).fault = none ∧
        (g.walk config inputs).store.Evaluated g inputs ∧
        ∀ node ∈ g.nodes, ∀ k, ¬ g.HasNegativeExponent inputs node k) ∨
      ∃ front node rest k, g.nodes = front ++ node :: rest ∧
        (∀ earlier ∈ front, ∀ k, ¬ g.HasNegativeExponent inputs earlier k) ∧
        g.HasNegativeExponent inputs node k ∧
        (g.walk config inputs).fault = some (.negativeExponent k) ∧
        (g.walk config inputs).store.names = g.inputs ++ trackedNames front := by
  obtain ⟨hbind, hvalid, hnames, he⟩ := evaluated_bindInputs hg htext
  have hd := hg.distinct
  have ho := hg.ordered
  rw [← hnames] at hd ho
  rw [walk, Progress.fault_andThen hbind, Progress.store_andThen hbind, ← hnames]
  exact evaluated_inferNodes config hg htext (fun _ hnode => hnode) hvalid he hd ho

end Graph

/-! ## §4 Runs -/

/-- A power of two, taken twice. -/
def Graph.powering : Graph where
  nodes :=
    [{ op := .text "prim::Constant", outputs := [.text "two"],
       attributes := [(.text "value", .int 2)] },
     { op := .text "aten::pow", inputs := ["two", "n"].map .text, outputs := [.text "p"] },
     { op := .text "aten::sub", inputs := ["n", "p"].map .text, outputs := [.text "d"] },
     { op := .text "aten::mul", inputs := ["d", "p"].map .text, outputs := [.text "q"] }]
  values := [(.text "two", { type := .text "int" })]
  inputs := [.text "n"]
  outputs := [.text "q"]

/-- It is a graph of arithmetic for every integer. -/
theorem Graph.isArithmetic_powering (n : Int) : powering.IsArithmetic [.int n] where
  integers := ⟨[n], rfl, rfl⟩
  nodes := by
    simp only [powering, List.forall_mem_cons, List.not_mem_nil, false_implies, implies_true,
      and_true]
    exact ⟨Or.inl ⟨2, .text "two", rfl, rfl, rfl, rfl⟩,
      Or.inr ⟨.pow, .text "two", .text "n", .text "p", rfl, rfl, rfl⟩,
      Or.inr ⟨.sub, .text "n", .text "p", .text "d", rfl, rfl, rfl⟩,
      Or.inr ⟨.mul, .text "d", .text "p", .text "q", rfl, rfl, rfl⟩⟩
  distinct := by decide +kernel
  ordered := by decide +kernel

/-- What its names stand for. The power is used twice, and met twice in the product. -/
def Graph.poweringExpressions (n : Int) : List (Name × Expression) :=
  let p := Expression.operation .pow (.number 2) (.number n)
  let d := Expression.operation .sub (.number n) p
  [(.text "n", .number n), (.text "two", .number 2), (.text "p", p), (.text "d", d),
    (.text "q", .operation .mul d p)]

theorem Graph.denotes_powering (n : Int) :
    ∀ entry ∈ poweringExpressions n, powering.Denotes [.int n] entry.1 entry.2 := by
  have hn : powering.Denotes [.int n] (.text "n") (.number n) :=
    .input (i := 0) rfl rfl rfl rfl
  have htwo : powering.Denotes [.int n] (.text "two") (.number 2) :=
    .constant List.mem_cons_self ⟨rfl, rfl, rfl, rfl⟩ rfl
  have hp : powering.Denotes [.int n] (.text "p") (.operation .pow (.number 2) (.number n)) :=
    .operation (List.mem_of_getElem? (i := 1) rfl) ⟨rfl, rfl, rfl⟩ htwo hn rfl
  have hd := Denotes.operation (List.mem_of_getElem? (i := 2) rfl)
    (Node.Applies.mk rfl rfl rfl : powering.nodes[2].Applies .sub _ _ (.text "d")) hn hp rfl
  have hq := Denotes.operation (List.mem_of_getElem? (i := 3) rfl)
    (Node.Applies.mk rfl rfl rfl : powering.nodes[3].Applies .mul _ _ (.text "q")) hd hp rfl
  unfold poweringExpressions
  simp only [List.forall_mem_cons]
  exact ⟨hn, htwo, hp, hd, hq, nofun⟩

theorem Graph.isTellable_powering {n : Int}
    (h : (poweringExpressions n).all (·.2.value?.all Decimal.isWritable) = true) :
    powering.IsTellable [.int n] := by
  refine isTellable_of_forall (isArithmetic_powering n) fun name hname => ?_
  have hnames : powering.inputs ++ trackedNames powering.nodes
      = (poweringExpressions n).map Prod.fst := rfl
  rw [hnames, List.mem_map] at hname
  obtain ⟨entry, hentry, rfl⟩ := hname
  refine ⟨entry.2, denotes_powering n entry hentry, fun k hk => ?_⟩
  simpa only [hk, Option.all_some] using List.all_eq_true.mp h entry hentry

/-- The exponent of its power is the input. -/
theorem Graph.hasNegativeExponent_powering {n k : Int} {node : Node}
    (hnode : node ∈ powering.nodes) (h : powering.HasNegativeExponent [.int n] node k) :
    k = n ∧ n < 0 := by
  obtain ⟨a, b, name, x, happlies, hx, hk, hneg⟩ := h
  have hn : powering.Denotes [.int n] (.text "n") (.number n) :=
    denotes_powering n _ List.mem_cons_self
  have hb : b = .text "n" := by
    have htag := happlies.tag
    have hinputs := happlies.inputs
    simp only [powering, List.mem_cons, List.not_mem_nil, or_false] at hnode
    rcases hnode with rfl | rfl | rfl | rfl
    · cases hinputs
    · cases hinputs
      rfl
    · exact absurd htag (by decide)
    · exact absurd htag (by decide)
  subst hb
  rw [hx.unique (isArithmetic_powering n) rfl hn, Expression.value?, Option.some.injEq] at hk
  subst hk
  exact ⟨rfl, hneg⟩

open GraphShapes.Graph (trackedNames)

namespace Engine

variable {g : Graph} {e : Engine}

/-- **Constant folding is exact.** Take a graph of integer constants and two-operand
arithmetic, shared and ordered in any way, over integer inputs, and let the values of
all its names have texts. If no power has a negative exponent, then a run knows every
name as the integer that the one expression it stands for has as its value, and it
succeeds if its graph outputs are among these names. Otherwise it is refused at the
first power in node order whose exponent is negative, with what was known in front. -/
theorem run_arithmetic (hg : g.IsArithmetic e.inputs) (htext : g.IsTellable e.inputs)
    (hvalid : e.config.validateGraph = true → g.validate = .ok ()) :
    ((∀ node ∈ g.nodes, ∀ k, ¬ g.HasNegativeExponent e.inputs node k) →
      (∀ name, name.isAmong (g.inputs ++ trackedNames g.nodes) = true →
        ∃ x n, g.Denotes e.inputs name x ∧ (∀ y, g.Denotes e.inputs name y → y = x) ∧
          x.value? = some n ∧ lookup? (run g e).engine.store name = some (.scalar n)) ∧
      ((∀ name ∈ g.outputs, name.isAmong (g.inputs ++ trackedNames g.nodes) = true) →
        (run g e).result = .ok (g.outputs.map fun _ => [1]))) ∧
    ((∃ node ∈ g.nodes, ∃ k, g.HasNegativeExponent e.inputs node k) →
      ∃ front node rest k, g.nodes = front ++ node :: rest ∧
        (∀ earlier ∈ front, ∀ k, ¬ g.HasNegativeExponent e.inputs earlier k) ∧
        g.HasNegativeExponent e.inputs node k ∧
        (run g e).result = .error (.inference (.node (.text "aten::pow") (.negativeExponent k))) ∧
        (NodeDefect.negativeExponent k).code = "EBINARY_ARG" ∧
        (run g e).engine.store.names = g.inputs ++ trackedNames front) := by
  rw [store_run hvalid]
  rcases Graph.evaluated_walk e.config hg htext with ⟨hwalk, he, hnone⟩ |
    ⟨front, node, rest, k, hnodes, hfront, hneg, hfault, hnames⟩
  · refine ⟨fun _ => ?_, fun ⟨node, hnode, k, hneg⟩ => absurd hneg (hnone node hnode k)⟩
    have hentry (name : Name) (hname : name.isAmong (g.inputs ++ trackedNames g.nodes) = true) :
        ∃ x n, g.Denotes e.inputs name x ∧ x.value? = some n ∧
          lookup? (g.walk e.config e.inputs).store name = some (.scalar n) := by
      rw [← (Graph.walked_walk hwalk).2.1] at hname
      obtain ⟨m, hm⟩ := exists_lookup?_iff.mpr hname
      obtain ⟨x, n, hx, hn, rfl⟩ := he name m hm
      exact ⟨x, n, hx, hn, hm⟩
    constructor
    · intro name hname
      obtain ⟨x, n, hx, hn, hm⟩ := hentry name hname
      exact ⟨x, n, hx, fun y hy => hy.unique hg rfl hx, hn, hm⟩
    · intro houtputs
      refine run_eq_ok_iff.mpr ⟨hvalid, hwalk, Graph.outputShapes_eq_ok_iff.mpr ?_⟩
      rw [List.map_map]
      refine List.map_congr_left fun name hname => ?_
      obtain ⟨_, _, _, _, hm⟩ := hentry name (houtputs name hname)
      rw [hm]
      rfl
  · refine ⟨fun hnone => ?_, fun _ => ?_⟩
    · have hnode : node ∈ g.nodes := by simp [hnodes]
      exact absurd hneg (hnone node hnode k)
    · refine ⟨front, node, rest, k, hnodes, hfront, hneg, ?_, rfl, hnames⟩
      rw [run_of_validate hvalid, finish, hfault]
      rfl

/-- Of three, the names are 8, -5 and -40. Of minus one there is no power. -/
theorem run_powering :
    (∀ entry ∈ [("p", (8 : Int)), ("d", -5), ("q", -40)],
        lookup? (run .powering { inputs := [.int 3] }).engine.store (.text entry.1)
          = some (.scalar entry.2)) ∧
      (run .powering { inputs := [.int 3] }).result = .ok [[1]] ∧
      (run .powering { inputs := [.int (-1)] }).result
        = .error (.inference (.node (.text "aten::pow") (.negativeExponent (-1)))) := by
  have hthree := (run_arithmetic (g := .powering) (e := { inputs := [.int 3] })
    (Graph.isArithmetic_powering 3) (Graph.isTellable_powering (by decide +kernel)) nofun).1
  have hminus := (run_arithmetic (g := .powering) (e := { inputs := [.int (-1)] })
    (Graph.isArithmetic_powering (-1)) (Graph.isTellable_powering (by decide +kernel)) nofun).2
  have hnone (node : Node) (hnode : node ∈ Graph.powering.nodes) (k : Int) :
      ¬ Graph.powering.HasNegativeExponent [.int 3] node k := by
    intro h
    have hneg := (Graph.hasNegativeExponent_powering hnode h).2
    omega
  obtain ⟨hentries, hresult⟩ := hthree hnone
  refine ⟨?_, hresult (by decide +kernel), ?_⟩
  · have hentry {name : Name} {x : Expression} {m : Int}
        (hmem : (name, x) ∈ Graph.poweringExpressions 3) (hm : x.value? = some m) :
        lookup? (run .powering { inputs := [.int 3] }).engine.store name = some (.scalar m) := by
      have hx := Graph.denotes_powering 3 (name, x) hmem
      obtain ⟨y, k, _, hunique, hk, hlookup⟩ := hentries name hx.isAmong
      rw [← hunique x hx, hm] at hk
      cases hk
      exact hlookup
    simp only [List.forall_mem_cons]
    exact ⟨hentry (List.mem_of_getElem? (i := 2) rfl) rfl,
      hentry (List.mem_of_getElem? (i := 3) rfl) rfl,
      hentry (List.mem_of_getElem? (i := 4) rfl) rfl, nofun⟩
  · have hpower : Graph.powering.HasNegativeExponent [.int (-1)]
        (Graph.powering.nodes[1]) (-1) :=
      ⟨_, _, _, _, ⟨rfl, rfl, rfl⟩, Graph.denotes_powering (-1) _ List.mem_cons_self, rfl,
        by decide⟩
    obtain ⟨front, node, rest, k, hnodes, _, hneg, hfault, _⟩ :=
      hminus ⟨_, List.getElem_mem _, -1, hpower⟩
    have hnode : node ∈ Graph.powering.nodes := by simp [hnodes]
    rwa [(Graph.hasNegativeExponent_powering hnode hneg).1] at hfault

end Engine

end GraphShapes
