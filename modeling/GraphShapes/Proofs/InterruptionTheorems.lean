/-
GraphShapes.Proofs.InterruptionTheorems — what a step that fails leaves behind.

Values are written one by one, so a step that fails may have written some of them
before. What it leaves is known all the same. Writing goes on up to the first
obstacle (`Store.obstacle?`): a value that cannot be had, or that has no text, or a
name that has an entry by then. Whatever stands in front of it is written, and nothing
else (`Store.StopsBehind`).

Both kinds of steps write in this way. A node that answers writes its results, and a
node that does not answer writes nothing (`Graph.inferNode_cases`); binding writes the
values of the inputs. A run is nothing but such steps, so a run that fails leaves what
the steps before the failing one wrote, and what that one wrote in part.

  §1 Obstacles — what is in the way of one entry.
  §2 Writing   — entries in order, up to the first obstacle.
  §3 Steps     — one node, and the inputs.
  §4 Walks     — the node that a walk stops at.
  §5 Engines   — the store after every step that failed.
-/
import GraphShapes.Proofs.SessionTheorems

namespace GraphShapes

namespace Store

variable {s : Store} {name : Name} {m : Meta} {value : Except Fault Meta} {f : Fault}
  {lead : String}

/-! ## §1 Obstacles -/

/-- What is in the way of writing a value under a name: the value cannot be had or has
no text, or the name has an entry. -/
def obstacle? (s : Store) (name : Name) : Except Fault Meta → Option Fault
  | .error f => some f.settled
  | .ok m =>
    if m.isWritable then
      if name.isAmong s.names then some (Fault.settled (.consistency (.assignedTwice name)))
      else none
    else some (.misuse .badValue)

theorem obstacle?_eq_none_iff :
    s.obstacle? name (.ok m) = none ↔ m.isWritable = true ∧ name.isAmong s.names = false := by
  simp only [obstacle?]
  split
  · next hm => cases name.isAmong s.names <;> simp [hm]
  · next hm => simp [hm]

/-- A value that is there is not written because its name is taken, or for a text that
would be too long. -/
theorem obstacle?_ok_cases (h : s.obstacle? name (.ok m) = some f) :
    f = .misuse .badValue ∨
      f = .consistency (.assignedTwice name) ∧ name.isAmong s.names = true := by
  simp only [obstacle?] at h
  split at h
  · split at h
    · next htaken =>
      rw [← Option.some.inj h, Fault.settled]
      split
      · exact Or.inr ⟨rfl, htaken⟩
      · exact Or.inl rfl
    · cases h
  · exact Or.inl (Option.some.inj h).symm

/-- One entry is written, or its obstacle is in the way. -/
theorem fault_write (lead : String) (s : Store) (name : Name) (m : Meta) :
    (write lead s name m).fault = s.obstacle? name (.ok m) := by
  simp only [write, obstacle?]
  split
  · cases htaken : name.isAmong s.names with
    | true =>
      obtain ⟨m', hm'⟩ := exists_lookup?_iff.mpr htaken
      rw [hm']
      rfl
    | false =>
      rw [lookup?_eq_none_of_names htaken]
      rfl
  · rfl

/-- What is in the way of an entry keeps the store as it is. -/
theorem store_write_of_obstacle (h : s.obstacle? name (.ok m) = some f) :
    (write lead s name m).store = s := by
  have hfault := fault_write lead s name m
  rw [h] at hfault
  unfold write at hfault ⊢
  split
  · next hm =>
    rw [if_pos hm] at hfault
    split
    · rfl
    · next hfresh =>
      rw [hfresh] at hfault
      cases hfault
  · rfl

/-! ## §2 Writing -/

/-- Writes values under names in order, as far as they can be had. -/
def writeEach (lead : String) : Store → List (Name × Except Fault Meta) → Progress
  | s, [] => { store := s }
  | s, (_, .error f) :: _ => Progress.stopped s f
  | s, (name, .ok m) :: rest => (write lead s name m).andThen fun s => writeEach lead s rest

theorem writeAll_eq_writeEach (lead : String) : ∀ (s : Store) (ns : List Name) (ms : List Meta),
    writeAll lead s (ns.zip ms) = writeEach lead s (ns.zip (ms.map .ok))
  | _, [], _ => rfl
  | _, _ :: _, [] => rfl
  | s, name :: ns, m :: ms =>
    congrArg (write lead s name m).andThen (funext fun s' => writeAll_eq_writeEach lead s' ns ms)

/-- The names are different and have no entry. -/
def Lacks (s : Store) (names : List Name) : Prop :=
  Name.Distinct names ∧ ∀ name ∈ names, name.isAmong s.names = false

theorem lacks_nil (s : Store) : s.Lacks [] := ⟨Name.distinct_nil, nofun⟩

/-- One name more has no entry, and none of the others is the same. -/
theorem Lacks.cons {names : List Name} (h : Lacks (s ++ [(name, m)]) names)
    (hname : name.isAmong s.names = false) : s.Lacks (name :: names) := by
  have hother : ∀ n ∈ names, n.isAmong s.names = false ∧ n.isAmong [name] = false := by
    intro n hn
    have hfree := h.2 n hn
    rw [names_append, ← Bool.not_eq_true, Name.isAmong_append, not_or, Bool.not_eq_true,
      Bool.not_eq_true] at hfree
    exact hfree
  refine ⟨Name.distinct_cons.mpr ⟨fun hmem => ?_, h.1⟩, List.forall_mem_cons.mpr ⟨hname, ?_⟩⟩
  · obtain ⟨n, hn, hkey⟩ := List.mem_map.mp hmem
    have htwice : n.isAmong [name] = true := Name.isAmong_iff.mpr (by simp [hkey])
    rw [(hother n hn).2] at htwice
    cases htwice
  · exact fun n hn => (hother n hn).1

/-- A step that was to write entries stopped behind some of them. These are in front of
the others, met no obstacle and are written; and if the step failed, then for the
obstacle of the entry behind them. -/
structure StopsBehind (s : Store) (entries : List (Name × Except Fault Meta))
    (front : List (Name × Meta)) (p : Progress) : Prop where
  taken : entries.take front.length = front.map fun (name, m) => (name, .ok m)
  store : p.store = s ++ front
  lacked : s.Lacks (names front)
  writable : ∀ entry ∈ front, entry.2.isWritable = true
  fault : p.fault = entries[front.length]?.bind fun entry => p.store.obstacle? entry.1 entry.2

variable {rest : List (Name × Except Fault Meta)} {front : List (Name × Meta)} {p q : Progress}

/-- Only the store that a step leaves and its fault count. -/
theorem StopsBehind.congr {entries : List (Name × Except Fault Meta)}
    (h : StopsBehind s entries front p) (hstore : q.store = p.store) (hfault : q.fault = p.fault) :
    StopsBehind s entries front q :=
  ⟨h.taken, hstore.trans h.store, h.lacked, h.writable, by rw [hfault, hstore, h.fault]⟩

theorem stopsBehind_of_obstacle (h : s.obstacle? name value = some f) (hstore : p.store = s)
    (hfault : p.fault = some f) : StopsBehind s ((name, value) :: rest) [] p :=
  ⟨rfl, by rw [hstore, List.append_nil], lacks_nil s, nofun,
    by rw [hfault, hstore]; exact h.symm⟩

/-- One entry is written, and then others up to the first obstacle. -/
theorem StopsBehind.cons (h : StopsBehind (s ++ [(name, m)]) rest front p)
    (hfree : s.obstacle? name (.ok m) = none) :
    StopsBehind s ((name, .ok m) :: rest) ((name, m) :: front) p := by
  obtain ⟨hm, hname⟩ := obstacle?_eq_none_iff.mp hfree
  refine ⟨?_, ?_, h.lacked.cons hname, List.forall_mem_cons.mpr ⟨hm, h.writable⟩, h.fault⟩
  · rw [List.length_cons, List.take_succ_cons, h.taken]
    rfl
  · rw [h.store, List.append_assoc]
    rfl

/-- **Writing stops at the first obstacle.** -/
theorem exists_stopsBehind (lead : String) (s : Store)
    (entries : List (Name × Except Fault Meta)) :
    ∃ front, StopsBehind s entries front (writeEach lead s entries) := by
  induction entries generalizing s with
  | nil => exact ⟨[], rfl, (List.append_nil s).symm, lacks_nil s, nofun, rfl⟩
  | cons entry rest ih =>
    obtain ⟨name, value⟩ := entry
    cases value with
    | error f => exact ⟨[], stopsBehind_of_obstacle rfl rfl rfl⟩
    | ok m =>
      have hwrite := fault_write lead s name m
      rw [writeEach]
      cases hfree : s.obstacle? name (.ok m) with
      | some f =>
        rw [hfree] at hwrite
        rw [Progress.andThen_of_fault hwrite]
        exact ⟨[], stopsBehind_of_obstacle hfree (store_write_of_obstacle hfree) hwrite⟩
      | none =>
        rw [hfree] at hwrite
        obtain ⟨front, hfront⟩ := ih (s ++ [(name, m)])
        refine ⟨(name, m) :: front, (hfront.cons hfree).congr ?_ ?_⟩
        · rw [Progress.store_andThen hwrite, store_write hwrite]
        · rw [Progress.fault_andThen hwrite, store_write hwrite]

/-- The entry that a step failed at, and what was in its way. -/
theorem StopsBehind.exists_obstacle {entries : List (Name × Except Fault Meta)}
    (h : StopsBehind s entries front p) (hf : p.fault = some f) :
    ∃ name value, entries[front.length]? = some (name, value) ∧
      p.store.obstacle? name value = some f := by
  rw [h.fault, Option.bind_eq_some_iff] at hf
  obtain ⟨⟨name, value⟩, hentry, hobstacle⟩ := hf
  exact ⟨name, value, hentry, hobstacle⟩

/-- Where all values are there, the entry that a step failed at has a name that is taken
or a value without a text. -/
theorem StopsBehind.exists_name {ns : List Name} {ms : List Meta}
    (h : StopsBehind s (ns.zip (ms.map .ok)) front p) (hf : p.fault = some f) :
    ∃ name, ns[front.length]? = some name ∧
      (f = .misuse .badValue ∨
        f = .consistency (.assignedTwice name) ∧ name.isAmong p.store.names = true) := by
  obtain ⟨name, value, hentry, hobstacle⟩ := h.exists_obstacle hf
  obtain ⟨hname, hvalue⟩ := List.getElem?_zip_eq_some.mp hentry
  obtain ⟨m, _, rfl⟩ := Option.map_eq_some_iff.mp (List.getElem?_map ▸ hvalue)
  exact ⟨name, hname, obstacle?_ok_cases hobstacle⟩

/-- What is written are values of the first names, in order. -/
theorem StopsBehind.eq_zip {ns : List Name} {values : List (Except Fault Meta)}
    (h : StopsBehind s (ns.zip values) front p) (hlen : values.length = ns.length) :
    ∃ metas : List Meta, values.take front.length = metas.map .ok ∧
      names front = ns.take front.length ∧ front = (ns.take front.length).zip metas := by
  have hnames : names front = ns.take front.length := by
    have hfst := congrArg (List.map Prod.fst) h.taken
    rw [List.map_take, List.map_fst_zip (Nat.le_of_eq hlen.symm), List.map_map] at hfst
    exact hfst.symm
  refine ⟨front.map Prod.snd, ?_, hnames, List.zip_of_prod hnames rfl⟩
  have hsnd := congrArg (List.map Prod.snd) h.taken
  rw [List.map_take, List.map_snd_zip (Nat.le_of_eq hlen), List.map_map] at hsnd
  rw [hsnd, List.map_map]
  rfl

end Store

namespace Graph

variable {g : Graph} {config : Config} {s : Store} {node : Node} {f : Fault}

/-! ## §3 Steps -/

theorem bindEach_eq_writeEach : ∀ (s : Store) (names : List Name) (inputs : List Datum),
    bindEach s (names.zip inputs)
      = Store.writeEach "bind " s (names.zip (inputs.map Input.toMeta))
  | _, [], _ => rfl
  | _, _ :: _, [] => rfl
  | s, name :: names, d :: inputs => by
    rw [List.map_cons, List.zip_cons_cons, List.zip_cons_cons, bindEach]
    cases hd : Input.toMeta d with
    | error f => rfl
    | ok m =>
      refine congrArg (Store.write "bind " s name m).andThen (funext fun s' => ?_)
      exact bindEach_eq_writeEach s' names inputs

/-- A node that does not answer does not say that a name is assigned twice. -/
theorem evaluate_ne_assignedTwice (g : Graph) (config : Config) (s : Store) (node : Node)
    (name : Name) : g.evaluate config s node ≠ .error (.consistency (.assignedTwice name)) := by
  intro h
  unfold evaluate at h
  split at h
  · cases h
  · split at h
    · next hoperands =>
      cases h
      obtain ⟨operand, _, hoperand⟩ := exists_of_mapM_eq_error hoperands
      split at hoperand <;> cases hoperand
    · split at h
      · next r _ => cases r <;> cases h
      · cases h

/-- **One node.** It does not answer with a result for every tracked output and writes
nothing, or it does and writes the results up to the first obstacle. -/
theorem inferNode_cases (g : Graph) (config : Config) (s : Store) (node : Node) :
    ((g.inferNode config s node).store = s ∧
      ∃ f, (g.inferNode config s node).fault = some f ∧
        ∀ name, f ≠ .consistency (.assignedTwice name)) ∨
    ∃ results front, g.Answers config (lookup? s) node results ∧
      results.length = node.tracked.length ∧
      Store.StopsBehind s (node.tracked.zip (results.map .ok)) front
        (g.inferNode config s node) := by
  cases heval : g.evaluate config s node with
  | error f =>
    left
    have hstep : g.inferNode config s node = Progress.stopped s f := by
      simp only [inferNode, heval]
    rw [hstep]
    refine ⟨rfl, f.settled, rfl, fun name hname => ?_⟩
    rw [Fault.eq_of_settled_eq_consistency hname] at heval
    exact evaluate_ne_assignedTwice g config s node name heval
  | ok answer =>
    obtain ⟨op, results⟩ := answer
    obtain ⟨htag, metas, hmetas, hrule⟩ := evaluate_eq_ok_iff.mp heval
    have hans : g.Answers config (lookup? s) node results := ⟨op, metas, htag, hmetas, hrule⟩
    by_cases hlen : results.length = node.tracked.length
    · right
      obtain ⟨lead, hfault, hstore⟩ := inferNode_of_answers hans hlen
      obtain ⟨front, hfront⟩ :=
        Store.exists_stopsBehind lead s (node.tracked.zip (results.map .ok))
      rw [← Store.writeAll_eq_writeEach] at hfront
      exact ⟨results, front, hans, hlen, hfront.congr hstore hfault⟩
    · left
      simp only [inferNode, heval, writeResults, ← Node.tracked_of_ofTag? htag, if_neg hlen]
      refine ⟨rfl, _, rfl, fun name hname => ?_⟩
      cases Fault.eq_of_settled_eq_consistency hname

/-- A node that stops because a name is taken has written the results in front of that
name, and no others. -/
theorem store_inferNode_of_assignedTwice {name : Name}
    (h : (g.inferNode config s node).fault = some (.consistency (.assignedTwice name))) :
    ∃ results j, g.Answers config (lookup? s) node results ∧
      results.length = node.tracked.length ∧ node.tracked[j]? = some name ∧
      name.isAmong (s.names ++ node.tracked.take j) = true ∧ s.Lacks (node.tracked.take j) ∧
      (g.inferNode config s node).store = s ++ (node.tracked.zip results).take j := by
  obtain ⟨_, f, hf, hother⟩ | ⟨results, front, hans, hlen, hstop⟩ :=
    inferNode_cases g config s node
  · rw [h] at hf
    exact absurd (Option.some.inj hf).symm (hother name)
  · obtain ⟨metas, hmetas, hnames, hfront⟩ := hstop.eq_zip ((List.length_map _).trans hlen)
    obtain ⟨name', hname', hbad | ⟨hsame, htaken⟩⟩ := hstop.exists_name h
    · cases hbad
    · cases hsame
      rw [hstop.store, Store.names_append, hnames] at htaken
      have hresults : results.take front.length = metas := by
        rw [← List.map_take] at hmetas
        exact List.map_injective_iff.mpr (fun _ _ => Except.ok.inj) hmetas
      refine ⟨results, front.length, hans, hlen, hname', htaken, hnames ▸ hstop.lacked, ?_⟩
      rw [hstop.store, List.zip, List.take_zipWith, hresults]
      exact congrArg (s ++ ·) hfront

/-- A node that stops for any other reason that can be told has written nothing. -/
theorem store_inferNode_of_fault (h : (g.inferNode config s node).fault = some f)
    (htwice : ∀ name, f ≠ .consistency (.assignedTwice name)) (hmisuse : ∀ m, f ≠ .misuse m) :
    (g.inferNode config s node).store = s := by
  obtain ⟨hstore, _⟩ | ⟨results, front, _, _, hstop⟩ := inferNode_cases g config s node
  · exact hstore
  · obtain ⟨name, _, hbad | ⟨hsame, _⟩⟩ := hstop.exists_name h
    · exact absurd hbad (hmisuse _)
    · exact absurd hsame (htwice name)

/-- An input that is refused for what it is has a code of its own. -/
theorem code_of_toMeta {d : Datum} {err : InferenceError}
    (h : Input.toMeta d = .error (.inference err)) : err.code = "EINPUT_TYPE" := by
  rcases toMeta_eq_error h with ⟨m, hm⟩ | hkind
  · cases hm
  · cases hkind
    rfl

/-- **Inputs.** As many as the graph has are bound up to the first obstacle. -/
theorem stopsBehind_bindInputs {inputs : List Datum} (hlen : inputs.length = g.inputs.length)
    (s : Store) :
    ∃ front, Store.StopsBehind s (g.inputs.zip (inputs.map Input.toMeta)) front
      (g.bindInputs inputs s) := by
  rw [bindInputs, if_pos hlen, bindEach_eq_writeEach]
  exact Store.exists_stopsBehind "bind " s _

/-- Binding that is refused for the number of inputs has bound none. -/
theorem store_bindInputs_of_code {inputs : List Datum} {err : InferenceError}
    (h : (g.bindInputs inputs s).fault = some (.inference err))
    (hcode : err.code = "EINPUT_COUNT") :
    (g.bindInputs inputs s).store = s := by
  by_cases hlen : inputs.length = g.inputs.length
  · obtain ⟨front, hstop⟩ := stopsBehind_bindInputs hlen s
    obtain ⟨name, value, hentry, hobstacle⟩ := hstop.exists_obstacle h
    have hvalue := (List.getElem?_zip_eq_some.mp hentry).2
    obtain ⟨d, _, hd⟩ := Option.map_eq_some_iff.mp (List.getElem?_map ▸ hvalue)
    cases value with
    | error f' =>
      have hsettled : f' = .inference err :=
        Fault.eq_of_settled_eq (Option.some.inj hobstacle) nofun
      rw [code_of_toMeta (hsettled ▸ hd)] at hcode
      exact absurd hcode (by decide)
    | ok m =>
      rcases Store.obstacle?_ok_cases hobstacle with hbad | ⟨htwice, _⟩
      · cases hbad
      · cases htwice
  · rw [bindInputs, if_neg hlen]
    rfl

/-- Binding that stops for any other reason has bound the inputs in front of one, and no
others. -/
theorem store_bindInputs_of_fault {inputs : List Datum} (h : (g.bindInputs inputs s).fault = some f)
    (hcode : ∀ err, f = .inference err → err.code ≠ "EINPUT_COUNT") :
    ∃ k metas name d, g.inputs[k]? = some name ∧ inputs[k]? = some d ∧
      (inputs.take k).map Input.toMeta = metas.map .ok ∧ s.Lacks (g.inputs.take k) ∧
      (g.bindInputs inputs s).store = s ++ (g.inputs.take k).zip metas ∧
      Store.obstacle? (s ++ (g.inputs.take k).zip metas) name (Input.toMeta d) = some f := by
  by_cases hlen : inputs.length = g.inputs.length
  · obtain ⟨front, hstop⟩ := stopsBehind_bindInputs hlen s
    obtain ⟨metas, hmetas, hnames, hfront⟩ := hstop.eq_zip ((List.length_map _).trans hlen)
    obtain ⟨name, value, hentry, hobstacle⟩ := hstop.exists_obstacle h
    obtain ⟨hname, hvalue⟩ := List.getElem?_zip_eq_some.mp hentry
    obtain ⟨d, hd, rfl⟩ := Option.map_eq_some_iff.mp (List.getElem?_map ▸ hvalue)
    have hstore : (g.bindInputs inputs s).store = s ++ (g.inputs.take front.length).zip metas :=
      hstop.store.trans (congrArg (s ++ ·) hfront)
    rw [hstore] at hobstacle
    refine ⟨front.length, metas, name, d, hname, hd, ?_, hnames ▸ hstop.lacked, hstore, hobstacle⟩
    rw [List.map_take, hmetas]
  · rw [bindInputs, if_neg hlen] at h
    exact absurd rfl (hcode _ (Option.some.inj h).symm)

/-- Binding that goes through has bound all inputs. -/
theorem exists_store_bindInputs {inputs : List Datum} (h : (g.bindInputs inputs s).fault = none) :
    ∃ metas : List Meta, inputs.map Input.toMeta = metas.map .ok ∧
      metas.length = g.inputs.length ∧
      (g.bindInputs inputs s).store = s ++ g.inputs.zip metas := by
  by_cases hlen : inputs.length = g.inputs.length
  · have hbind := h
    rw [bindInputs, if_pos hlen] at hbind
    obtain ⟨metas, hmetas⟩ := exists_metas_of_bindEach hlen hbind
    have hcount : metas.length = g.inputs.length := (length_eq_of_map_eq hmetas).symm.trans hlen
    exact ⟨metas, hmetas, hcount, store_bindInputs h hmetas⟩
  · rw [bindInputs, if_neg hlen] at h
    cases h

/-! ## §4 Walks -/

variable {inputs : List Datum} {nodes : List Node}

/-- What a node does is a matter of what the graph declares, not of its other nodes. -/
theorem inferNodes_withNodes (g : Graph) (config : Config) (others nodes : List Node) (s : Store) :
    (g.withNodes others).inferNodes config s nodes = g.inferNodes config s nodes := by
  induction nodes generalizing s with
  | nil => rfl
  | cons node rest ih => exact congrArg (g.inferNode config s node).andThen (funext ih)

theorem walk_withNodes (g : Graph) (config : Config) (inputs : List Datum) (nodes : List Node) :
    (g.withNodes nodes).walk config inputs
      = (g.bindInputs inputs []).andThen fun s => g.inferNodes config s nodes :=
  congrArg (g.bindInputs inputs []).andThen
    (funext fun s => inferNodes_withNodes g config nodes nodes s)

/-- Of nodes that do not all go through, one stops, and what is left is what it leaves. -/
theorem exists_stop_of_inferNodes (h : (g.inferNodes config s nodes).fault = some f) :
    ∃ front node rest, nodes = front ++ node :: rest ∧
      (g.inferNodes config s front).fault = none ∧
      (g.inferNode config (g.inferNodes config s front).store node).fault = some f ∧
      (g.inferNodes config s nodes).store
        = (g.inferNode config (g.inferNodes config s front).store node).store := by
  induction nodes generalizing s with
  | nil => cases h
  | cons node rest ih =>
    rw [inferNodes] at h ⊢
    cases hstep : (g.inferNode config s node).fault with
    | some f' =>
      rw [Progress.andThen_of_fault hstep] at h ⊢
      exact ⟨[], node, rest, rfl, rfl, h, rfl⟩
    | none =>
      rw [Progress.fault_andThen hstep] at h
      obtain ⟨front, node', rest', rfl, hfront, hfault, hstore⟩ := ih h
      refine ⟨node :: front, node', rest', rfl, ?_⟩
      rw [inferNodes, Progress.fault_andThen hstep, Progress.store_andThen hstep,
        Progress.store_andThen hstep]
      exact ⟨hfront, hfault, hstore⟩

/-- **Walks.** A walk that stops does so at the inputs, or at a node behind others that
go through; what is left is what that step leaves. -/
theorem exists_stop_of_walk (h : (g.walk config inputs).fault = some f) :
    (g.bindInputs inputs []).fault = some f ∧
        (g.walk config inputs).store = (g.bindInputs inputs []).store ∨
      ∃ front node rest, g.nodes = front ++ node :: rest ∧
        ((g.withNodes front).walk config inputs).fault = none ∧
        (g.inferNode config ((g.withNodes front).walk config inputs).store node).fault = some f ∧
        (g.walk config inputs).store
          = (g.inferNode config ((g.withNodes front).walk config inputs).store node).store := by
  rw [walk] at h ⊢
  cases hbind : (g.bindInputs inputs []).fault with
  | some f' =>
    left
    rw [Progress.andThen_of_fault hbind] at h ⊢
    exact ⟨hbind.symm.trans h, rfl⟩
  | none =>
    right
    rw [Progress.fault_andThen hbind] at h
    rw [Progress.store_andThen hbind]
    obtain ⟨front, node, rest, hnodes, hfront, hfault, hstore⟩ := exists_stop_of_inferNodes h
    refine ⟨front, node, rest, hnodes, ?_⟩
    rw [walk_withNodes, Progress.fault_andThen hbind, Progress.store_andThen hbind]
    exact ⟨hfront, hfault, hstore⟩

/-- Graph outputs without shapes have one without an entry. -/
theorem exists_of_outputShapes_eq_error (h : g.outputShapes s = .error f) :
    ∃ name ∈ g.outputs, f = Fault.settled (.consistency (.outputWithoutShape name)) ∧
      name.isAmong s.names = false := by
  obtain ⟨name, hmem, hname⟩ := exists_of_mapM_eq_error h
  split at hname
  · cases hname
  · next hnone =>
    exact ⟨name, hmem, (Except.error.inj hname).symm, Store.isAmong_names_of_lookup? hnone⟩

end Graph

namespace Session

/-- The session with another store. -/
def withStore (s : Session) (t : Store) : Session :=
  { s with engine := { s.engine with store := t } }

/-- Nodes that go through one after the other, by hand. -/
theorem perform_inferNodes {nodes : List Node} (s : Session)
    (h : (s.graph.inferNodes s.engine.config s.engine.store nodes).fault = none) :
    s.perform (nodes.map .inferNode)
      = s.withStore (s.graph.inferNodes s.engine.config s.engine.store nodes).store := by
  induction nodes generalizing s with
  | nil => rfl
  | cons node rest ih =>
    rw [Graph.inferNodes, Progress.fault_andThen_eq_none_iff] at h
    rw [List.map_cons, perform_cons, Graph.inferNodes, Progress.store_andThen h.1]
    exact ih (s.after (.inferNode node)) h.2

/-- A walk that goes through is binding and then inferring the nodes by hand. -/
theorem perform_eq_walk {g : Graph} {config : Config} {inputs : List Datum} {nodes : List Node}
    (h : ((g.withNodes nodes).walk config inputs).fault = none) :
    (start g inputs config).perform (.bindInputs :: nodes.map .inferNode)
      = (start g inputs config).withStore ((g.withNodes nodes).walk config inputs).store := by
  rw [Graph.walk_withNodes] at h ⊢
  obtain ⟨hbind, hnodes⟩ := Progress.fault_andThen_eq_none_iff.mp h
  rw [perform_cons, Progress.store_andThen hbind]
  exact perform_inferNodes ((start g inputs config).after .bindInputs) hnodes

end Session

namespace Engine

variable {g : Graph} {e : Engine} {f : Fault} {p : Progress}

/-! ## §5 Engines -/

theorem result_afterStep_eq_error_iff : (e.afterStep p).result = .error f ↔ p.fault = some f := by
  unfold afterStep
  cases p.fault <;> simp

theorem result_afterStep_eq_ok_iff : (e.afterStep p).result = .ok () ↔ p.fault = none := by
  unfold afterStep
  cases p.fault <;> simp

/-- **The store after a failure.** A node that is refused or that comes too early leaves
the store as it is. If the name of its `j`-th tracked output is taken, by an entry or by
an output in front of it, the first `j` tracked outputs are written with the results of
its rule, and nothing else; if it goes through, all of them are. Binding leaves the store
as it is if there are not as many inputs as the graph has; if the `k`-th input has no
value or its name is taken, the first `k` are bound. So a run that fails past validation
leaves what the first step that failed leaves: binding, or a node behind others that are
all written; unless no step failed and a graph output has no entry. -/
theorem store_after_failure (g : Graph) (e : Engine) :
    (∀ node,
      let o := e.inferNode g node
      (∀ err, o.result = .error (.inference err) → o.engine.store = e.store) ∧
        (∀ tag name, o.result = .error (.consistency (.notYetProduced tag name)) →
          o.engine.store = e.store) ∧
        (∀ name, o.result = .error (.consistency (.assignedTwice name)) →
          ∃ results j, g.Answers e.config (lookup? e.store) node results ∧
            results.length = node.tracked.length ∧ node.tracked[j]? = some name ∧
            name.isAmong (e.store.names ++ node.tracked.take j) = true ∧
            e.store.Lacks (node.tracked.take j) ∧
            o.engine.store = e.store ++ (node.tracked.zip results).take j) ∧
        (o.result = .ok () →
          ∃ results, g.Answers e.config (lookup? e.store) node results ∧
            results.length = node.tracked.length ∧
            o.engine.store = e.store ++ node.tracked.zip results)) ∧
    (let o := e.bindInputs g
     (∀ err, o.result = .error (.inference err) → err.code = "EINPUT_COUNT" →
        o.engine.store = e.store) ∧
      (∀ f, o.result = .error f → (∀ err, f = .inference err → err.code ≠ "EINPUT_COUNT") →
        ∃ k metas name d, g.inputs[k]? = some name ∧ e.inputs[k]? = some d ∧
          (e.inputs.take k).map Input.toMeta = metas.map .ok ∧
          e.store.Lacks (g.inputs.take k) ∧
          o.engine.store = e.store ++ (g.inputs.take k).zip metas ∧
          Store.obstacle? (e.store ++ (g.inputs.take k).zip metas) name (Input.toMeta d)
            = some f) ∧
      (o.result = .ok () →
        ∃ metas, e.inputs.map Input.toMeta = metas.map .ok ∧ metas.length = g.inputs.length ∧
          o.engine.store = e.store ++ g.inputs.zip metas)) ∧
    ((e.config.validateGraph = true → g.validate = .ok ()) →
      ∀ f, (e.run g).result = .error f →
        let new := Session.start g e.inputs e.config
        ((new.engine.bindInputs g).result = .error f ∧
            (e.run g).engine.store = (new.engine.bindInputs g).engine.store) ∨
          (∃ front node rest, g.nodes = front ++ node :: rest ∧
            let s := new.perform (.bindInputs :: front.map .inferNode)
            s.engine.store.names = g.inputs ++ Graph.trackedNames front ∧
              s.engine.store.assignment.Solution (g.withNodes front) e.config e.inputs ∧
              (s.engine.inferNode g node).result = .error f ∧
              (e.run g).engine.store = (s.engine.inferNode g node).engine.store) ∨
          ∃ name ∈ g.outputs, f = Fault.settled (.consistency (.outputWithoutShape name)) ∧
            let s := new.perform (.bindInputs :: g.nodes.map .inferNode)
            s.engine.store.names = g.inputs ++ Graph.trackedNames g.nodes ∧
              s.engine.store.assignment.Solution g e.config e.inputs ∧
              name.isAmong s.engine.store.names = false ∧
              (e.run g).engine.store = s.engine.store) := by
  refine ⟨fun node => ⟨fun err h => ?_, fun tag name h => ?_, fun name h => ?_, fun h => ?_⟩,
    ⟨fun err h hcode => ?_, fun f h hcode => ?_, fun h => ?_⟩, fun hvalid f h => ?_⟩
  · exact Graph.store_inferNode_of_fault (result_afterStep_eq_error_iff.mp h) nofun nofun
  · exact Graph.store_inferNode_of_fault (result_afterStep_eq_error_iff.mp h) nofun nofun
  · exact Graph.store_inferNode_of_assignedTwice (result_afterStep_eq_error_iff.mp h)
  · exact Graph.exists_store_inferNode (result_afterStep_eq_ok_iff.mp h)
  · exact Graph.store_bindInputs_of_code (result_afterStep_eq_error_iff.mp h) hcode
  · exact Graph.store_bindInputs_of_fault (result_afterStep_eq_error_iff.mp h) hcode
  · exact Graph.exists_store_bindInputs (result_afterStep_eq_ok_iff.mp h)
  · rw [run_of_validate hvalid] at h
    rw [store_run hvalid]
    cases hwalk : (g.walk e.config e.inputs).fault with
    | some f' =>
      rw [finish, hwalk] at h
      cases h
      obtain hbind | ⟨front, node, rest, hnodes, hfront, hstop⟩ := Graph.exists_stop_of_walk hwalk
      · exact Or.inl ⟨result_afterStep_eq_error_iff.mpr hbind.1, hbind.2⟩
      · obtain ⟨_, hnames, _, hsolution⟩ := Graph.walked_walk hfront
        refine Or.inr (Or.inl ⟨front, node, rest, hnodes, ?_⟩)
        rw [Session.perform_eq_walk hfront]
        exact ⟨hnames, hsolution, result_afterStep_eq_error_iff.mpr hstop.1, hstop.2⟩
    | none =>
      obtain ⟨_, hnames, _, hsolution⟩ := Graph.walked_walk hwalk
      have hall : ((g.withNodes g.nodes).walk e.config e.inputs).fault = none := hwalk
      rw [finish, hwalk] at h
      dsimp only at h
      split at h
      · next f' hshapes =>
        cases h
        obtain ⟨name, hmem, hf, hnone⟩ := Graph.exists_of_outputShapes_eq_error hshapes
        refine Or.inr (Or.inr ⟨name, hmem, hf, ?_⟩)
        rw [Session.perform_eq_walk hall]
        exact ⟨hnames, hsolution, hnone, rfl⟩
      · cases h

/-- A cut into three pieces, the last of which is named like the first. -/
def repeated : Node where
  op := .text "prim::ConstantChunk"
  inputs := [.text "x"]
  outputs := ["a", "b", "a"].map .text
  attributes := [(.text "chunks", .int 3), (.text "dim", .int 0)]

/-- The graph of this cut. -/
def repeating : Graph where
  nodes := [repeated]
  inputs := [.text "x"]
  outputs := [.text "a"]

/-- A run of it fails over the third piece. It leaves what the cut leaves by hand behind the
binding of the input: the first two pieces are written. -/
theorem store_after_failure_repeating :
    let o := inferShapes repeating [.array [5, 2] .float32]
    let s := Session.start repeating [.array [5, 2] .float32] {}
    let bound := (s.perform [.bindInputs]).engine
    (∃ f, o.result = .error f ∧ (bound.inferNode repeating repeated).result = .error f) ∧
      o.engine.store = (bound.inferNode repeating repeated).engine.store ∧
      o.engine.store = [(.text "x", .tensor [5, 2]), (.text "a", .tensor [2, 2]),
        (.text "b", .tensor [2, 2])] := by
  intro o s bound
  obtain ⟨f, hf⟩ : ∃ f, o.result = .error f := exists_error_of_toOption (by decide +kernel)
  obtain ⟨-, -, hrun⟩ := store_after_failure repeating { inputs := [.array [5, 2] .float32] }
  rcases hrun nofun f hf with ⟨hbind, -⟩ | ⟨front, node, rest, hnodes, hstop⟩ |
    ⟨name, hname, -, hout⟩
  · have hbound : (Engine.bindInputs repeating { inputs := [.array [5, 2] .float32] }).result
        = .ok () := eq_ok_of_toOption (by decide +kernel)
    cases hbound.symm.trans hbind
  · obtain ⟨rfl, rfl, -⟩ : front = [] ∧ node = repeated ∧ rest = [] := by
      cases front with
      | nil => exact ⟨rfl, (List.cons.inj hnodes).1.symm, (List.cons.inj hnodes).2.symm⟩
      | cons _ front => simp [repeating] at hnodes
    exact ⟨⟨f, hf, hstop.2.2.1⟩, hstop.2.2.2, by decide +kernel⟩
  · have hwritten : name = .text "a" := List.mem_singleton.mp hname
    subst hwritten
    exact absurd hout.2.2.1 (by decide +kernel)

end Engine

end GraphShapes
