/-
GraphShapes.Proofs.DeclarationTheorems — what a graph declares after a name is declared.

A declaration replaces the one that the name has, whatever its spelling; names that are
declared as they come up keep what was declared before. So a look-up finds the last
declaration (`value?_addValue`, `value?_declareAll`), and the names stand in the order in
which they came up first (`keys_addValue`, `keys_declareAll`).

  §1 Look-ups — what is declared of a name.
  §2 Order    — the keys of the declared names.
-/
import GraphShapes.Graph.Basic
import GraphShapes.Proofs.NameTheorems

namespace GraphShapes.Graph

/-! ## §1 Look-ups -/

theorem value?_addValue (g : Graph) (name : Name) (v : Value) (n : Name) :
    (g.addValue name v).value? n = if name.same n then some v else g.value? n :=
  lookup?_respellEntry g.values name v n

/-- Names that are declared as they come up keep what was declared before. -/
theorem value?_declareAll (g : Graph) (names : List Name) (n : Name) :
    (g.declareAll names).value? n
      = (g.value? n).or (if n.isAmong names then some {} else none) := by
  induction names generalizing g with
  | nil => simp [declareAll, Name.isAmong]
  | cons name names ih =>
    have hstep : g.declareAll (name :: names)
        = (if g.declares name then g else g.addValue name {}).declareAll names := rfl
    have hamong : n.isAmong (name :: names) = (name.same n || n.isAmong names) := rfl
    rw [hstep, ih, hamong]
    cases hsame : name.same n with
    | true =>
      have hvalue : g.value? name = g.value? n := lookup?_congr g.values (Name.same_iff.mp hsame)
      rw [declares, hvalue]
      cases hn : g.value? n with
      | some v => simp [hn]
      | none => simp [value?_addValue, hsame]
    | false =>
      have hother : (if g.declares name then g else g.addValue name {}).value? n = g.value? n := by
        split
        · rfl
        · rw [value?_addValue, hsame, if_neg Bool.false_ne_true]
      rw [hother, Bool.false_or]

/-- Nothing but declarations changes. -/
theorem exists_values_declareAll (g : Graph) (names : List Name) :
    ∃ values, g.declareAll names = { g with values } := by
  induction names generalizing g with
  | nil => exact ⟨_, rfl⟩
  | cons name names ih =>
    obtain ⟨values, hvalues⟩ := ih (if g.declares name then g else g.addValue name {})
    refine ⟨values, hvalues.trans ?_⟩
    split <;> rfl

@[simp] theorem inputs_declareAll (g : Graph) (names : List Name) :
    (g.declareAll names).inputs = g.inputs := by
  obtain ⟨values, hvalues⟩ := g.exists_values_declareAll names
  rw [hvalues]

@[simp] theorem outputs_declareAll (g : Graph) (names : List Name) :
    (g.declareAll names).outputs = g.outputs := by
  obtain ⟨values, hvalues⟩ := g.exists_values_declareAll names
  rw [hvalues]

@[simp] theorem metadata_declareAll (g : Graph) (names : List Name) :
    (g.declareAll names).metadata = g.metadata := by
  obtain ⟨values, hvalues⟩ := g.exists_values_declareAll names
  rw [hvalues]

@[simp] theorem nodes_declareAll (g : Graph) (names : List Name) :
    (g.declareAll names).nodes = g.nodes := by
  obtain ⟨values, hvalues⟩ := g.exists_values_declareAll names
  rw [hvalues]

theorem declareAll_append (g : Graph) (names more : List Name) :
    g.declareAll (names ++ more) = (g.declareAll names).declareAll more :=
  List.foldl_append

/-- Which declarations are made depends on those that are there and on nothing else. -/
theorem values_declareAll_congr {g g' : Graph} (h : g.values = g'.values) (names : List Name) :
    (g.declareAll names).values = (g'.declareAll names).values := by
  induction names generalizing g g' with
  | nil => exact h
  | cons name names ih =>
    have hdeclares : g.declares name = g'.declares name := by
      rw [declares, declares, value?, value?, h]
    have hstep : (if g.declares name then g else g.addValue name {}).values
        = (if g'.declares name then g' else g'.addValue name {}).values := by
      rw [hdeclares]
      split
      · exact h
      · rw [addValue, addValue, h]
    exact ih hstep

/-! ## §2 Order -/

/-- The keys of the names that a graph declares, in order. -/
def keys (g : Graph) : List Name := (g.values.map Prod.fst).map Name.key

theorem mem_keys_iff {g : Graph} {name : Name} : name.key ∈ g.keys ↔ g.declares name = true := by
  rw [declares, Option.isSome_iff_exists, value?, exists_lookup?_iff, Name.isAmong_iff, keys]

/-- A declaration keeps the place of its name, or stands last. -/
theorem keys_addValue_eq_ite (g : Graph) (name : Name) (v : Value) :
    (g.addValue name v).keys = if g.declares name then g.keys else g.keys ++ [name.key] := by
  have hrespell (entries : List (Name × Value)) :
      ((entries.map fun (n, v) => (if n.same name then name else n, v)).map Prod.fst).map Name.key
        = (entries.map Prod.fst).map Name.key := by
    simp only [List.map_map]
    refine List.map_congr_left fun entry _ => ?_
    simp only [Function.comp_apply]
    split
    · next hsame => exact (Name.same_iff.mp hsame).symm
    · rfl
  have hdeclared : name.isAmong (g.values.map Prod.fst) = g.declares name := by
    rw [Bool.eq_iff_iff, ← mem_keys_iff, keys, Name.isAmong_iff]
  refine (hrespell _).trans ?_
  rw [names_putEntry, hdeclared, apply_ite (List.map Name.key), List.map_append]
  rfl

variable {g : Graph} {ks : List Name}

/-- **Order.** If names stand where they came up first, so they do after a declaration. -/
theorem keys_addValue (h : g.keys = ks.eraseDups) (name : Name) (v : Value) :
    (g.addValue name v).keys = (ks ++ [name.key]).eraseDups := by
  rw [keys_addValue_eq_ite, Name.eraseDups_concat, ← h]
  refine if_congr ?_ rfl rfl
  rw [← mem_keys_iff, h, List.mem_eraseDups]

theorem keys_declareAll (h : g.keys = ks.eraseDups) (names : List Name) :
    (g.declareAll names).keys = (ks ++ names.map Name.key).eraseDups := by
  induction names generalizing g ks with
  | nil => rwa [List.map_nil, List.append_nil]
  | cons name names ih =>
    have hstep : (if g.declares name then g else g.addValue name {}).keys
        = (ks ++ [name.key]).eraseDups := by
      rw [← keys_addValue h name {}, apply_ite keys, keys_addValue_eq_ite]
      split <;> rfl
    rw [List.map_cons, List.append_cons]
    exact ih hstep

end GraphShapes.Graph
