/-
GraphShapes.Proofs.LiteralTheorems — the constants of a model in its graph.

A constant of the model, be it an initializer or a constant node, is one constant node of
the graph: a list of integers where its name is the target of a reshape, and a tensor
otherwise (`Piece.ofConstant`, `Model.Converts.mem_nodes`). A conversion only grows from
there on (`Conversion.Extends`), and names are written once in a run, so what is declared
of the constant stays (`Model.Converts.valueType`), and so do the integers that are kept
for reshapes (`Model.Converts.lookup?_targets`).

  §1 Constants — the constants that a model holds, and their pieces.
  §2 Growth    — `Extends`, what a conversion keeps.
  §3 Targets   — `Backed`, constant nodes behind what is kept for reshapes.
  §4 Models    — the constants of a model that is converted, and their equations.
  §5 Texts     — integers of constants, which are short enough to be written.
-/
import GraphShapes.Proofs.ConversionTheorems

namespace GraphShapes.Onnx

open Conversion

/-! ## §1 Constants -/

/-- The model has an initializer or constant node of the name that holds the constant. -/
inductive Model.Holds (m : Model) (name : Name) (k : Constant) : Prop
  | initializer {constants : List (Name × Constant)} (read : m.constants = .ok constants)
      (mem : (name, k) ∈ constants) : Holds m name k
  | node {n : Node} (mem : n ∈ m.nodes) (literal : n.op = .text "Constant")
      (first : n.outputs.head? = some name) (held : n.literal? = some k) : Holds m name k

variable {c c' c'' : Conversion} {n : Node} {ns : List Node} {targets : List Name} {index : Nat}
  {k : Constant} {name : Name} {t : List Int} {p : Piece} {ps : List Piece} {m : Model}
  {initializers : List Name}

/-- The elements of a constant of integers. -/
theorem Constant.integers_of_items (h : k.items = t.map .int) : k.integers = .ok t := by
  rw [integers, h, mapM_eq_ok_iff, List.forall₂_map_left_iff, List.forall₂_same]
  exact fun _ _ => rfl

/-- What a constant of integers becomes. -/
def Piece.ofConstant (targets : List Name) (name : Name) (k : Constant) (t : List Int) : Piece :=
  if targets.contains name then .target name t else .constant name k.toDatum

namespace Piece

theorem ofInitializer_iff (ht : k.integers = .ok t) :
    OfInitializer targets (name, k) p ↔ p = ofConstant targets name k t := by
  unfold ofConstant
  constructor
  · intro h
    cases h with
    | constant plain => rw [plain, if_neg Bool.false_ne_true]
    | target used integers =>
      cases integers.symm.trans ht
      rw [used, if_pos rfl]
  · rintro rfl
    split
    · next used => exact .target used ht
    · next plain => exact .constant (Bool.not_eq_true _ ▸ plain)

/-- The one node of a constant. -/
theorem nodes_ofConstant (targets : List Name) (name : Name) (k : Constant) (t : List Int) :
    (ofConstant targets name k t).nodes
      = [.fixed name (if targets.contains name then .list (t.map .int) else k.toDatum)] := by
  unfold ofConstant
  split <;> rfl

end Piece

namespace Conversion

/-- A constant node that holds integers adds them. -/
theorem addNode_of_literal (c : Conversion) (targets : List Name) (index : Nat)
    (hop : n.op = .text "Constant") (hfirst : n.outputs.head? = some name)
    (hheld : n.literal? = some k) (ht : k.integers = .ok t) :
    c.addNode targets index n = .ok (c.add (.ofConstant targets name k t)) := by
  obtain ⟨settings, hsettings, hvalue⟩ := Node.literal?_eq_some_iff.mp hheld
  have hdirect : direct? (.text "Constant") = none := rfl
  have hliteral : c.addNode targets index n = c.addLiteral targets n (.constant k) := by
    simp only [addNode, hsettings, Fault.ofMisuse, Except.mapError, ok_bind, hop, hdirect, hvalue]
  rw [hliteral, addLiteral, firstOf_eq_ok_iff.mpr hfirst, ok_bind, Piece.ofConstant]
  split
  · simp only [Fault.ofMisuse, ht]
    rfl
  · rfl

/-- A node that is converted is converted somewhere on the way. -/
theorem exists_addNode_of_mem (h : addNodes targets c index ns = .ok c') (hn : n ∈ ns) :
    ∃ ps ps' i d, (c.addAll ps).addNode targets i n = .ok d ∧ c' = d.addAll ps' := by
  induction ns generalizing c index with
  | nil => cases hn
  | cons first rest ih =>
    obtain ⟨d, hd, hrest⟩ := addNodes_cons_eq_ok_iff.mp h
    rcases List.mem_cons.mp hn with rfl | htail
    · obtain ⟨ps', _, rfl⟩ := exists_pieces_of_addNodes hrest
      exact ⟨[], ps', index, d, hd, rfl⟩
    · obtain ⟨p, _, rfl, _⟩ := exists_piece_of_addNode hd
      obtain ⟨ps, ps', i, d, hadd, rfl⟩ := ih hrest htail
      exact ⟨p :: ps, ps', i, d, hadd, rfl⟩

/-! ## §2 Growth -/

/-- What a piece declares anew is tracked by a node of it. -/
theorem isAmong_tracked_of_declared (p : Piece)
    (h : name.isAmong (p.declared.map Prod.fst) = true) :
    name.isAmong (Graph.trackedNames p.nodes) = true := by
  cases p with
  | constant | target => exact h
  | node => cases h
  | pair =>
    rw [Piece.nodes, Graph.trackedNames_cons, Name.isAmong_append, Node.tracked_fixed]
    exact Or.inl h

/-- What a conversion keeps as it grows. A value that is bound stays declared as it is,
provided that names are written once. -/
structure Extends (c c' : Conversion) : Prop where
  nodes : c.graph.nodes <+: c'.graph.nodes
  inputs : c.graph.inputs <+: c'.graph.inputs
  targets : ∀ name ns, lookup? c.targets name = some ns → ∃ ns', lookup? c'.targets name = some ns'
  values : Name.Distinct (c'.graph.inputs ++ Graph.trackedNames c'.graph.nodes) →
    ∀ name v, name.isAmong (c.graph.inputs ++ Graph.trackedNames c.graph.nodes) = true →
      c.graph.value? name = some v → c'.graph.value? name = some v

namespace Extends

theorem refl (c : Conversion) : c.Extends c :=
  ⟨List.prefix_rfl, List.prefix_rfl, fun _ _ h => ⟨_, h⟩, fun _ _ _ _ h => h⟩

/-- What is tracked stays so. -/
theorem tracked (h : c.Extends c') :
    Graph.trackedNames c.graph.nodes <+: Graph.trackedNames c'.graph.nodes := by
  obtain ⟨more, hmore⟩ := h.nodes
  exact ⟨Graph.trackedNames more, by rw [← hmore, Graph.trackedNames_append]⟩

theorem isAmong (h : c.Extends c')
    (hname : name.isAmong (c.graph.inputs ++ Graph.trackedNames c.graph.nodes) = true) :
    name.isAmong (c'.graph.inputs ++ Graph.trackedNames c'.graph.nodes) = true :=
  Name.isAmong_of_subset (h.inputs.sublist.append h.tracked.sublist).subset hname

theorem trans (h : c.Extends c') (h' : c'.Extends c'') : c.Extends c'' where
  nodes := h.nodes.trans h'.nodes
  inputs := h.inputs.trans h'.inputs
  targets name ns hns := by
    obtain ⟨ns', hns'⟩ := h.targets name ns hns
    exact h'.targets name ns' hns'
  values hd name v hname hv := by
    have hfirst := hd.sublist (h'.inputs.sublist.append h'.tracked.sublist)
    exact h'.values hd name v (h.isAmong hname) (h.values hfirst name v hname hv)

theorem add (c : Conversion) (p : Piece) : c.Extends (c.add p) where
  nodes := ⟨p.nodes, nodes_add.symm⟩
  inputs := inputs_add ▸ List.prefix_rfl
  targets name ns hns := by
    rw [lookup?_targets_add, hns, ← Option.isSome_iff_exists, Option.isSome_or]
    exact Bool.or_true _
  values hd name v hname hv := by
    rw [inputs_add, nodes_add, Graph.trackedNames_append, ← List.append_assoc] at hd
    have hnone : lookup? p.declared name = none := by
      by_contra hsome
      have htracked := isAmong_tracked_of_declared p
        (exists_lookup?_iff.mp (Option.ne_none_iff_exists'.mp hsome))
      rw [hd.not_isAmong hname] at htracked
      cases htracked
    rw [value?_add, hnone, hv, Option.none_or, Option.some_or]

theorem addAll (c : Conversion) (ps : List Piece) : c.Extends (c.addAll ps) := by
  induction ps generalizing c with
  | nil => exact .refl c
  | cons p ps ih => exact (add c p).trans (ih (c.add p))

theorem declareModel (c : Conversion) (m : Model) (initializers : List Name) :
    c.Extends (c.declareModel m initializers) where
  nodes := nodes_declareModel c m initializers ▸ List.prefix_rfl
  inputs := inputs_declareModel c m initializers ▸ List.prefix_append _ _
  targets name ns hns := ⟨ns, hns⟩
  values hd name v hname hv := by
    -- What is bound is no input that is declared now.
    have hnone : lookup? ((inputsOf m initializers).map entryOf).reverse name = none := by
      have hperm : (c.graph.inputs ++ (inputsOf m initializers).map (·.name) ++
          Graph.trackedNames c.graph.nodes).Perm (c.graph.inputs ++
            Graph.trackedNames c.graph.nodes ++ (inputsOf m initializers).map (·.name)) := by
        rw [List.append_assoc, List.append_assoc]
        exact List.perm_append_comm.append_left _
      rw [inputs_declareModel, nodes_declareModel] at hd
      have hfree := (hd.perm hperm).not_isAmong hname
      have hentries : ((inputsOf m initializers).map entryOf).reverse.map Prod.fst
          = ((inputsOf m initializers).map (·.name)).reverse := by
        rw [List.map_reverse, List.map_map]
        rfl
      rw [lookup?_eq_none_iff, ← Name.isAmong_iff, hentries,
        Name.isAmong_perm (List.reverse_perm _), hfree]
      exact Bool.false_ne_true
    rw [value?_declareModel, hnone, hv, Option.none_or, Option.some_or]

end Extends

/-! ## §3 Targets -/

/-- Every target has a constant node that holds its integers. -/
def Backed (c : Conversion) : Prop :=
  ∀ name ns, lookup? c.targets name = some ns →
    ∃ spelled, spelled.key = name.key ∧
      GraphShapes.Node.fixed spelled (.list (ns.map .int)) ∈ c.graph.nodes

theorem backed_start (m : Model) : (start m).Backed := nofun

theorem Backed.add (h : c.Backed) (p : Piece) : (c.add p).Backed := by
  intro name ns hns
  rw [lookup?_targets_add] at hns
  rw [nodes_add]
  cases hkept : lookup? p.kept name with
  | none =>
    rw [hkept, Option.none_or] at hns
    obtain ⟨spelled, hkey, hmem⟩ := h name ns hns
    exact ⟨spelled, hkey, List.mem_append_left _ hmem⟩
  | some ns' =>
    rw [hkept, Option.some_or] at hns
    cases hns
    obtain ⟨spelled, hmem, hkey⟩ := exists_of_lookup? hkept
    refine ⟨spelled, hkey, List.mem_append_right _ ?_⟩
    cases p with
    | target =>
      cases List.mem_singleton.mp hmem
      exact List.mem_cons_self
    | _ => cases hmem

theorem Backed.addAll (h : c.Backed) (ps : List Piece) : (c.addAll ps).Backed := by
  induction ps generalizing c with
  | nil => exact h
  | cons p ps ih => exact ih (h.add p)

theorem Backed.declareModel (h : c.Backed) (m : Model) (initializers : List Name) :
    (c.declareModel m initializers).Backed := by
  intro name ns hns
  rw [nodes_declareModel]
  exact h name ns hns

/-- Where names are written once, constants of one name are one value. -/
theorem eq_of_fixed_mem {nodes : List GraphShapes.Node} {a b : Name} {v w : Datum}
    (hd : Name.Distinct (Graph.trackedNames nodes)) (ha : GraphShapes.Node.fixed a v ∈ nodes)
    (hb : GraphShapes.Node.fixed b w ∈ nodes) (hkey : a.key = b.key) : v = w := by
  have hsecond : a.isAmong (GraphShapes.Node.fixed b w).tracked = true := by
    rw [Name.isAmong_congr hkey]
    exact Node.isAmong_tracked_fixed b w
  have hsame := Graph.eq_of_isAmong_tracked hd ha hb (Node.isAmong_tracked_fixed a v) hsecond
  simp only [GraphShapes.Node.fixed, GraphShapes.Node.mk.injEq, List.cons.injEq, Prod.mk.injEq,
    true_and, and_true] at hsame
  exact hsame.2

/-- Lists are the same when they hold the same integers. -/
theorem eq_of_list_int {s t : List Int} (h : Datum.list (s.map .int) = .list (t.map .int)) :
    s = t :=
  List.map_injective_iff.mpr (fun _ _ => Datum.int.inj) (Datum.list.inj h)

/-- The integers that are kept for a target are those of its constant node, also where
that is added later. -/
theorem Backed.eq {s : List Int} (h : c.Backed) (hext : c.Extends c')
    (hd : Name.Distinct (Graph.trackedNames c'.graph.nodes))
    (hmem : GraphShapes.Node.fixed name (.list (t.map .int)) ∈ c'.graph.nodes)
    (hkept : lookup? c.targets name = some s) : s = t := by
  obtain ⟨spelled, hkey, hlisted⟩ := h name s hkept
  exact eq_of_list_int (eq_of_fixed_mem hd (hext.nodes.subset hlisted) hmem hkey)

end Conversion

/-! ## §4 Models -/

namespace Model.Converts

theorem backed (h : m.Converts targets c) : c.Backed := by
  obtain @⟨constants, front, _, _, hnodes⟩ := h
  obtain ⟨ps, _, rfl⟩ := exists_pieces_of_addNodes hnodes
  exact (((backed_start m).addAll front).declareModel m _).addAll ps

/-- A node was converted somewhere on the way. -/
theorem exists_addNode (h : m.Converts targets c) (hn : n ∈ m.nodes) :
    ∃ (c₀ d : Conversion) (index : Nat) (ps : List Piece), c₀.Backed ∧
      c₀.addNode targets index n = .ok d ∧ c = d.addAll ps := by
  obtain @⟨constants, front, _, _, hnodes⟩ := h
  obtain ⟨ps, ps', i, d, hadd, rfl⟩ := exists_addNode_of_mem hnodes hn
  exact ⟨_, d, i, ps', (((backed_start m).addAll front).declareModel m _).addAll ps, hadd, rfl⟩

/-- A constant of integers that the model holds was added somewhere on the way. -/
theorem exists_extends (h : m.Converts targets c) (hheld : m.Holds name k)
    (ht : k.integers = .ok t) :
    ∃ c₀ : Conversion, (c₀.add (.ofConstant targets name k t)).Extends c := by
  obtain @⟨constants, front, hconstants, hfront, hnodes⟩ := h
  cases hheld with
  | initializer read mem =>
    cases hconstants.symm.trans read
    obtain ⟨p, hp, hof⟩ := exists_of_forall₂_of_mem hfront.flip mem
    cases (Piece.ofInitializer_iff ht).mp hof
    obtain ⟨before, behind, rfl⟩ := List.append_of_mem hp
    obtain ⟨ps, _, rfl⟩ := exists_pieces_of_addNodes hnodes
    rw [addAll_append, addAll_cons]
    exact ⟨_, ((Extends.addAll _ behind).trans (.declareModel _ m _)).trans (.addAll _ ps)⟩
  | node mem literal first held =>
    obtain ⟨c₀, d, i, ps, _, hadd, rfl⟩ := exists_addNode ⟨hconstants, hfront, hnodes⟩ mem
    rw [addNode_of_literal c₀ targets i literal first held ht] at hadd
    cases hadd
    exact ⟨c₀, .addAll _ ps⟩

/-- **Constants.** A constant of integers that the model holds is a constant node. -/
theorem mem_nodes (h : m.Converts targets c) (hheld : m.Holds name k) (ht : k.integers = .ok t) :
    GraphShapes.Node.fixed name
      (if targets.contains name then .list (t.map .int) else k.toDatum) ∈ c.graph.nodes := by
  obtain ⟨c₀, hext⟩ := h.exists_extends hheld ht
  apply hext.nodes.subset
  rw [nodes_add, Piece.nodes_ofConstant]
  exact List.mem_append_right _ List.mem_cons_self

/-- Its integers are kept if it is a target. -/
theorem lookup?_targets (h : m.Converts targets c)
    (hd : Name.Distinct (Graph.trackedNames c.graph.nodes)) (hheld : m.Holds name k)
    (ht : k.integers = .ok t) (hmem : targets.contains name = true) :
    lookup? c.targets name = some t := by
  have hlisted := h.mem_nodes hheld ht
  rw [if_pos hmem] at hlisted
  obtain ⟨c₀, hext⟩ := h.exists_extends hheld ht
  rw [Piece.ofConstant, if_pos hmem] at hext
  have hfirst : lookup? (c₀.add (.target name t)).targets name = some t := by
    rw [lookup?_targets_add, Piece.kept, lookup?_cons, if_pos (Name.same_iff.mpr rfl),
      Option.some_or]
  obtain ⟨s, hs⟩ := hext.targets name t hfirst
  rw [hs, h.backed.eq (.refl c) hd hlisted hs]

/-- It is declared as a list of integers if it is a target, and as a tensor otherwise. -/
theorem valueType (h : m.Converts targets c)
    (hd : Name.Distinct (c.graph.inputs ++ Graph.trackedNames c.graph.nodes))
    (hheld : m.Holds name k) (ht : k.integers = .ok t) :
    c.graph.valueType name = .text (if targets.contains name then "int[]" else "Tensor") := by
  obtain ⟨c₀, hext⟩ := h.exists_extends hheld ht
  obtain ⟨v, hv, htype⟩ : ∃ v : Value, (c₀.add (.ofConstant targets name k t)).graph.value? name
      = some v ∧ v.type = .text (if targets.contains name then "int[]" else "Tensor") := by
    rw [Piece.ofConstant]
    split
    all_goals
      rw [value?_add, Piece.declared, lookup?_cons, if_pos (Name.same_iff.mpr rfl)]
      exact ⟨_, rfl, rfl⟩
  have hbound : name.isAmong ((c₀.add (.ofConstant targets name k t)).graph.inputs ++
      Graph.trackedNames (c₀.add (.ofConstant targets name k t)).graph.nodes) = true := by
    rw [Name.isAmong_append, nodes_add, Graph.trackedNames_append, Name.isAmong_append,
      Piece.nodes_ofConstant]
    exact Or.inr (Or.inr (Name.isAmong_of_mem List.mem_cons_self))
  rw [Graph.valueType, hext.values hd name _ hbound hv]
  exact htype

end Model.Converts

section Equations

variable {g : Graph} {config : Config} {A : Assignment}

theorem mapM_asWhole?_int (t : List Int) : (t.map Datum.int).mapM Datum.asWhole? = some t := by
  induction t with
  | nil => rfl
  | cons n t ih => simp [Datum.asWhole?, ih]

/-- What a constant list of integers answers. -/
theorem answers_integers (config : Config) (known : Name → Option Meta)
    (htype : g.valueType name = .text "int[]") :
    g.Answers config known (.fixed name (.list (t.map .int))) [.ints t] := by
  refine ⟨.constant, [], rfl, rfl, ?_⟩
  have hctx : (g.context config (.fixed name (.list (t.map .int)))).outputTypes
      = [.text "int[]"] := congrArg (fun type => [type]) htype
  have hints :
      (GraphShapes.Node.fixed name (.list (t.map .int))).intsAttribute "value" = .ok t := by
    simp only [Node.intsAttribute, Rule.attr_fixed, ok_bind, Datum.items?, Option.bind_some,
      mapM_asWhole?_int]
    rfl
  simp [Rule.apply, Rule.constant, Rule.constantKind, hctx, Rule.ConstantKind.ofType, hints]

/-- The equation of a constant list of integers: the name is known as these integers. -/
theorem solves_integers_iff (htype : g.valueType name = .text "int[]") :
    A.Solves g config (.fixed name (.list (t.map .int))) ↔ A.meta? name = some (.ints t) := by
  have hans := answers_integers (t := t) config A.meta? htype
  constructor
  · rintro ⟨results, hans', hresults⟩
    rw [hans'.unique hans] at hresults
    exact (List.cons.inj hresults).1
  · intro hmeta
    exact ⟨_, hans, congrArg (fun m => [m]) hmeta⟩

/-- What is declared as a tensor and has a constant node is known as a tensor. -/
theorem exists_tensor_of_fixed {value : Datum} (htype : g.valueType name = .text "Tensor")
    (h : A.Solves g config (.fixed name value)) : ∃ sizes, A.meta? name = some (.tensor sizes) := by
  obtain ⟨results, ⟨op, metas, htag, _, hrule⟩, hresults⟩ := h
  cases htag
  have hctx : (g.context config (.fixed name value)).outputTypes = [.text "Tensor"] :=
    congrArg (fun type => [type]) htype
  simp only [Rule.apply, Rule.constant, Rule.constantKind, hctx, List.headD_cons,
    Rule.ConstantKind.ofType, bind_eq_ok_iff, pure_eq_ok_iff] at hrule
  obtain ⟨sizes, _, rfl⟩ := hrule
  exact ⟨sizes, (List.cons.inj hresults).1⟩

/-- A target of integers is known as these integers. -/
theorem Model.Converts.meta?_of_target (h : m.Converts targets c)
    (hd : Name.Distinct (c.graph.inputs ++ Graph.trackedNames c.graph.nodes))
    (hheld : m.Holds name k) (ht : k.integers = .ok t) (hmem : targets.contains name = true)
    (hsolved : ∀ node ∈ c.graph.nodes, A.Solves c.graph config node) :
    A.meta? name = some (.ints t) := by
  have htype := h.valueType hd hheld ht
  have hlisted := h.mem_nodes hheld ht
  rw [if_pos hmem] at htype hlisted
  exact (solves_integers_iff htype).mp (hsolved _ hlisted)

/-- A constant of integers that is no target is known as a tensor. -/
theorem Model.Converts.exists_tensor_of_not_target (h : m.Converts targets c)
    (hd : Name.Distinct (c.graph.inputs ++ Graph.trackedNames c.graph.nodes))
    (hheld : m.Holds name k) (ht : k.integers = .ok t) (hmem : ¬ targets.contains name = true)
    (hsolved : ∀ node ∈ c.graph.nodes, A.Solves c.graph config node) :
    ∃ sizes, A.meta? name = some (.tensor sizes) := by
  have htype := h.valueType hd hheld ht
  rw [if_neg hmem] at htype
  exact exists_tensor_of_fixed htype (hsolved _ (h.mem_nodes hheld ht))

end Equations

/-! ## §5 Texts -/

/-- The elements that are integers have texts. -/
def Constant.IsWritable (k : Constant) : Prop :=
  ∀ n, Item.int n ∈ k.items → Decimal.isWritable n = true

/-- Element types have few bits. -/
theorem ElementType.bits_le {number : Int} {type : ElementType} (h : ofNumber? number = some type) :
    type.bits ≤ 128 := by
  unfold ofNumber? at h
  split at h
  all_goals cases h
  all_goals decide

/-- An integer that is made of bits is no longer than these. -/
theorem Item.natAbs_le_of_ofBits {type : ElementType} {bits : Nat} {n : Int}
    (h : ofBits type bits = .int n) : n.natAbs ≤ 2 ^ type.bits := by
  have hpos : 0 < 2 ^ type.bits := Nat.two_pow_pos _
  have hlt : bits % 2 ^ type.bits < 2 ^ type.bits := Nat.mod_lt _ hpos
  unfold ofBits at h
  cases hcoding : type.coding with
  | signed =>
    simp only [hcoding, Item.int.injEq] at h
    subst h
    unfold Wire.signed
    have hcast : ((2 ^ type.bits : Nat) : Int) = 2 ^ type.bits := by push_cast; rfl
    rw [Nat.mod_mod, ← hcast]
    dsimp only
    split <;> omega
  | unsigned =>
    simp only [hcoding, Item.int.injEq] at h
    omega
  | truth =>
    simp only [hcoding, Item.int.injEq] at h
    split at h <;> omega
  | float | narrow | power | complex => simp [hcoding] at h

theorem isWritable_of_le {n : Int} {b : Nat} (hb : b ≤ 128) (hn : n.natAbs ≤ 2 ^ b) :
    Decimal.isWritable n = true := by
  rw [Decimal.isWritable, decide_eq_true_eq]
  calc n.natAbs ≤ 2 ^ b := hn
    _ ≤ 2 ^ 128 := Nat.pow_le_pow_right (by decide) hb
    _ < 10 ^ 128 := Nat.pow_lt_pow_left (by decide) (by decide)
    _ ≤ Decimal.bound := Decimal.pow_le_bound (by decide)

theorem Tensor.isWritable_of_read {tensor : Tensor} {k : Constant} (h : tensor.read = .ok k) :
    k.IsWritable := by
  intro n hn
  unfold read at h
  split at h
  · cases h
  split at h
  · cases h
  split at h
  · simp only [bind_eq_ok_iff, pure_eq_ok_iff, mapM_eq_ok_iff] at h
    obtain ⟨items, hitems, sizes, _, rfl⟩ := h
    obtain ⟨bytes, _, hread⟩ := exists_of_forall₂_of_mem hitems hn
    unfold readText at hread
    split at hread <;> cases hread
  · split at h
    · cases h
    · next type htype =>
      have hbits : ∃ patterns : List Nat, k.items = patterns.map (Item.ofBits type) := by
        simp only [readNumbers] at h
        split at h
        · cases h
        · obtain ⟨patterns, _, h⟩ := bind_eq_ok_iff.mp h
          split at h
          · unfold readPacked at h
            dsimp only at h
            split at h
            · cases h
            · cases h
              exact ⟨_, rfl⟩
          · obtain ⟨sizes, _, h⟩ := bind_eq_ok_iff.mp h
            cases h
            exact ⟨_, rfl⟩
      obtain ⟨patterns, hpatterns⟩ := hbits
      rw [hpatterns, List.mem_map] at hn
      obtain ⟨bits, _, hint⟩ := hn
      exact isWritable_of_le (ElementType.bits_le htype) (Item.natAbs_le_of_ofBits hint)

/-- What is put under a name is found among the entries, with the others that were. -/
theorem mem_putEntry {α : Type} {entries : List (Name × α)} {name : Name} {a : α}
    {entry : Name × α} (h : entry ∈ putEntry entries name a) : entry.2 = a ∨ entry ∈ entries := by
  unfold putEntry at h
  split at h
  · obtain ⟨⟨n, old⟩, hmem, rfl⟩ := List.mem_map.mp h
    dsimp only
    split
    · exact Or.inl rfl
    · exact Or.inr hmem
  · rcases List.mem_append.mp h with hold | hnew
    · exact Or.inr hold
    · exact Or.inl (congrArg Prod.snd (List.mem_singleton.mp hnew))

/-- What comes of putting entries in order, as far as all of them are fine. -/
theorem foldlM_entries {α β ε : Type} {step : List (Name × α) → β → Except ε (List (Name × α))}
    {P : α → Prop} (hstep : ∀ acc b acc', step acc b = .ok acc' → (∀ entry ∈ acc, P entry.2) →
      ∀ entry ∈ acc', P entry.2) {bs : List β} {acc acc' : List (Name × α)}
    (h : bs.foldlM step acc = .ok acc') (hacc : ∀ entry ∈ acc, P entry.2) :
    ∀ entry ∈ acc', P entry.2 := by
  induction bs generalizing acc with
  | nil =>
    cases h
    exact hacc
  | cons b bs ih =>
    rw [List.foldlM_cons, bind_eq_ok_iff] at h
    obtain ⟨next, hnext, hrest⟩ := h
    exact ih hrest (hstep acc b next hnext hacc)

theorem Model.isWritable_of_constants {m : Model} {constants : List (Name × Constant)}
    (h : m.constants = .ok constants) : ∀ entry ∈ constants, entry.2.IsWritable := by
  refine foldlM_entries ?_ h nofun
  rintro acc ⟨name, tensor⟩ acc' hstep hacc entry hentry
  simp only [bind_eq_ok_iff, pure_eq_ok_iff] at hstep
  obtain ⟨k, hk, rfl⟩ := hstep
  rcases mem_putEntry hentry with hnew | hold
  · rw [hnew]
    exact Tensor.isWritable_of_read hk
  · exact hacc entry hold

theorem Node.isWritable_of_literal? {n : Node} {k : Constant} (h : n.literal? = some k) :
    k.IsWritable := by
  obtain ⟨settings, hsettings, hvalue⟩ := Node.literal?_eq_some_iff.mp h
  obtain ⟨spelled, hmem, _⟩ := exists_of_lookup? hvalue
  refine foldlM_entries (P := fun s => ∀ k, s = .constant k → k.IsWritable) ?_ hsettings nofun
    _ hmem k rfl
  rintro acc ⟨name, a⟩ acc' hstep hacc entry hentry
  obtain ⟨setting, hread, hstep⟩ := bind_eq_ok_iff.mp hstep
  cases setting with
  | none =>
    cases hstep
    exact hacc entry hentry
  | some setting =>
    cases hstep
    rcases mem_putEntry hentry with hnew | hold
    · rw [hnew]
      cases a with
      | tensor tensor =>
        simp only [Attribute.read, bind_eq_ok_iff, pure_eq_ok_iff, Option.some.injEq] at hread
        obtain ⟨k', hk', rfl⟩ := hread
        rintro k ⟨⟩
        exact Tensor.isWritable_of_read hk'
      | _ =>
        cases hread <;> rintro k ⟨⟩
    · exact hacc entry hold

/-- **Integers.** The integers of a constant that a model holds have texts. -/
theorem Model.Holds.isWritable {m : Model} {name : Name} {k : Constant} {t : List Int}
    (h : m.Holds name k) (ht : k.items = t.map .int) : (Meta.ints t).isWritable = true := by
  have hk : k.IsWritable := by
    cases h with
    | initializer read mem => exact Model.isWritable_of_constants read _ mem
    | node mem literal first held => exact Node.isWritable_of_literal? held
  refine List.all_eq_true.mpr fun n hn => hk n ?_
  rw [ht]
  exact List.mem_map_of_mem hn

end GraphShapes.Onnx
