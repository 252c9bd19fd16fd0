/-
GraphShapes.Proofs.ReportTheorems — what a report keeps of a run.

A report shows a value through its sizes and, if it has any, its integers. Real
tensors have the sizes `[1]` and `[n, 1]` as well, so the sizes alone do not tell
what a value is. Together with the integers they do: only a value without a shape
and a tensor without axes look the same (`toReport_eq_iff`), and everything else
can be read back (`toMeta_toReport`).

The outputs of a report are listed by name, and a graph may name an output twice.
Both entries are then the shape of one value, so nothing is lost there either.
`report_perform` puts this together for an engine that ran successfully, whatever
was bound, inferred by hand or set since.

  §1 Entries — a value and its entry.
  §2 Keys    — entries under names that may be listed more than once.
  §3 Reports — the report of an engine after a run.
-/
import GraphShapes.Report
import GraphShapes.Proofs.SessionTheorems

namespace GraphShapes

/-! ## §1 Entries -/

/-- The value as far as an entry tells: a value without a shape counts as a tensor
without axes. -/
def Meta.blurred : Meta → Meta
  | .nothing => .tensor []
  | m => m

/-- The value that an entry tells of. A list of one integer has two sizes, an integer
has one. -/
def ReportEntry.toMeta : ReportEntry → Meta
  | ⟨sizes, none⟩ => .tensor sizes
  | ⟨[_], some [n]⟩ => .scalar n
  | ⟨_, some ns⟩ => .ints ns

namespace Meta

variable {m n : Meta}

theorem toMeta_toReport (m : Meta) : m.toReport.toMeta = m.blurred := by
  cases m with
  | tensor sizes => rfl
  | scalar x => rfl
  | ints ns =>
    match ns with
    | [] => rfl
    | [_] => rfl
    | _ :: _ :: _ => rfl
  | nothing => rfl

theorem toReport_blurred (m : Meta) : m.blurred.toReport = m.toReport := by
  cases m <;> rfl

/-- Values have the same entry when they are the same as far as an entry tells. -/
theorem toReport_eq_iff_blurred : m.toReport = n.toReport ↔ m.blurred = n.blurred := by
  constructor
  · intro h
    rw [← toMeta_toReport, h, toMeta_toReport]
  · intro h
    rw [← toReport_blurred, h, toReport_blurred]

/-- **Ambiguity.** Different values have the same entry only if one of them has no shape
and the other no axes. -/
theorem toReport_eq_iff :
    m.toReport = n.toReport ↔
      m = n ∨ (m = .nothing ∧ n = .tensor []) ∨ (m = .tensor [] ∧ n = .nothing) := by
  rw [toReport_eq_iff_blurred]
  cases m <;> cases n <;> simp [blurred, eq_comm]

end Meta

/-! ## §2 Keys -/

namespace Report

variable {α : Type} {entries : List (Name × α)} {name : Name}

theorem keyed_concat (entries : List (Name × α)) (entry : Name × α) :
    keyed (entries ++ [entry]) = putEntry (keyed entries) entry.1 entry.2 := by
  rw [keyed, List.foldl_append]
  rfl

/-- Names stand in the order in which they are listed first, each of them once. -/
theorem keys_keyed (entries : List (Name × α)) :
    ((keyed entries).map Prod.fst).map Name.key
      = ((entries.map Prod.fst).map Name.key).eraseDups := by
  induction entries using List.reverseRecOn with
  | nil => rfl
  | append_singleton entries entry ih =>
    have hknown : entry.1.isAmong ((keyed entries).map Prod.fst) = true ↔
        entry.1.key ∈ (entries.map Prod.fst).map Name.key := by
      rw [Name.isAmong_iff, ih, List.mem_eraseDups]
    rw [keyed_concat, names_putEntry, apply_ite (List.map Name.key)]
    simp only [List.map_append, List.map_cons, List.map_nil, Name.eraseDups_concat, hknown, ih]

/-- The entry listed last under a name is the one that stays. -/
theorem lookup?_keyed (entries : List (Name × α)) (name : Name) :
    lookup? (keyed entries) name = lookup? entries.reverse name := by
  induction entries using List.reverseRecOn with
  | nil => rfl
  | append_singleton entries entry ih =>
    rw [keyed_concat, lookup?_putEntry, ih, List.reverse_concat, ← lookup?_cons]

/-- Entries that say of every name what is to be said of it, said once. -/
theorem lookup?_keyed_of_forall {f : Name → Option α}
    (hf : ∀ {a b : Name}, a.key = b.key → f a = f b)
    (hentries : ∀ entry ∈ entries, f entry.1 = some entry.2)
    (hname : name ∈ entries.map Prod.fst) : lookup? (keyed entries) name = f name := by
  have hlisted : name.isAmong (entries.reverse.map Prod.fst) = true :=
    Name.isAmong_of_mem (by rwa [List.map_reverse, List.mem_reverse])
  obtain ⟨a, ha⟩ := exists_lookup?_iff.mpr hlisted
  obtain ⟨n, hn, hkey⟩ := exists_of_lookup? ha
  rw [lookup?_keyed, ha, ← hf hkey]
  exact (hentries _ (List.mem_reverse.mp hn)).symm

end Report

/-! ## §3 Reports -/

namespace Report

variable {g : Graph} {s : Store} {shapes : List Shape}

/-- The shapes of the graph outputs, put under their names. -/
theorem outputs_of_shapes
    (h : g.outputs.map (fun name => (lookup? s name).map Meta.shape) = shapes.map some) :
    ((keyed (g.outputs.zip shapes)).map Prod.fst).map Name.key
        = (g.outputs.map Name.key).eraseDups ∧
      ∀ name ∈ g.outputs, ∃ m, lookup? s name = some m ∧
        lookup? (keyed (g.outputs.zip shapes)) name = some m.shape := by
  have hnames : (g.outputs.zip shapes).map Prod.fst = g.outputs :=
    List.map_fst_zip (Nat.le_of_eq (length_eq_of_map_eq h))
  have hpairs := map_eq_map_some_iff.mp h
  have hentries : ∀ entry ∈ g.outputs.zip shapes,
      (lookup? s entry.1).map Meta.shape = some entry.2 := by
    intro entry hentry
    exact (List.forall₂_iff_zip.mp hpairs).2 hentry
  refine ⟨by rw [keys_keyed, hnames], fun name hname => ?_⟩
  have hfound : (lookup? s name).map Meta.shape ∈ shapes.map some := by
    rw [← h]
    exact List.mem_map_of_mem hname
  obtain ⟨shape, _, hshape⟩ := List.mem_map.mp hfound
  obtain ⟨m, hm, _⟩ := Option.map_eq_some_iff.mp hshape.symm
  have hcongr {a b : Name} (hkey : a.key = b.key) :
      (lookup? s a).map Meta.shape = (lookup? s b).map Meta.shape := by
    rw [lookup?_congr s hkey]
  refine ⟨m, hm, ?_⟩
  rw [lookup?_keyed_of_forall (f := fun n => (lookup? s n).map Meta.shape) hcongr hentries
    (hnames.symm ▸ hname), hm, Option.map_some]

end Report

namespace Session

variable {s : Session} {steps : List Step} {shapes : List Shape}

/-- After a successful run the shapes stay readable, and stay those of the values of the
graph outputs, until the next run. -/
theorem answers_perform (hrun : s.run.result = .ok shapes) (hlater : .run ∉ steps) :
    let t := (s.after .run).perform steps
    Name.Distinct t.engine.store.names ∧ t.engine.outputShapes = .ok shapes ∧
      s.graph.outputs.map (fun name => (lookup? t.engine.store name).map Meta.shape)
        = shapes.map some := by
  intro t
  have hvalid := (Engine.run_eq_ok_iff.mp hrun).1
  have hcoherent : t.Coherent := (coherent_run hvalid).perform steps
  have hpublished : t.engine.published = some shapes := by
    rw [published_perform hlater]
    exact (Engine.published_run hvalid).trans (congrArg Except.toOption hrun)
  have hanswered : t.answered = s.graph.outputs := by
    rw [answered_perform hlater]
    simp only [after, hrun]
  exact ⟨hcoherent.distinct, Engine.outputShapes_eq_ok_iff.mpr hpublished,
    hanswered ▸ hcoherent.answers shapes hpublished⟩

/-- **The report of a run.** After a successful run of an engine, and until its next run,
whatever is bound, inferred by hand or set, if the graph is what it was, there is a
report. It lists the graph outputs, each once, with the shape of its value, and the
values of the store in order, each with its entry. The store can be read back from it,
but for the one ambiguity of entries. -/
theorem report_perform (hrun : s.run.result = .ok shapes) (hlater : .run ∉ steps)
    (hgraph : ((s.after .run).perform steps).graph = s.graph) :
    let t := (s.after .run).perform steps
    ∃ r, Report.ofEngine t.graph t.engine = .ok r ∧
      (r.outputs.map Prod.fst).map Name.key = (t.graph.outputs.map Name.key).eraseDups ∧
      (∀ name ∈ t.graph.outputs, ∃ m, lookup? t.engine.store name = some m ∧
        lookup? r.outputs name = some m.shape) ∧
      Name.Distinct t.engine.store.names ∧ r.values.map Prod.fst = t.engine.store.names ∧
      (∀ name, lookup? r.values name = (lookup? t.engine.store name).map Meta.toReport) ∧
      (∀ m n : Meta, m.toReport = n.toReport ↔
        m = n ∨ (m = .nothing ∧ n = .tensor []) ∨ (m = .tensor [] ∧ n = .nothing)) ∧
      r.values.map (fun (name, entry) => (name, entry.toMeta))
        = t.engine.store.map fun (name, m) => (name, m.blurred) := by
  intro t
  obtain ⟨hdistinct, hshapes, hanswers⟩ := answers_perform hrun hlater
  rw [← hgraph] at hanswers
  obtain ⟨hkeys, houtputs⟩ := Report.outputs_of_shapes hanswers
  have hreport : Report.ofEngine t.graph t.engine = .ok
      ⟨Report.keyed (t.graph.outputs.zip shapes),
        t.engine.store.map fun (name, m) => (name, m.toReport)⟩ := by
    rw [Report.ofEngine, hshapes]
  refine ⟨_, hreport, hkeys, houtputs, hdistinct, ?_, fun name => ?_,
    fun m n => Meta.toReport_eq_iff, ?_⟩
  · simp [Store.names, Function.comp_def]
  · exact lookup?_map_value (f := fun _ => Meta.toReport) fun _ _ => rfl
  · simp [Function.comp_def, Meta.toMeta_toReport]

end Session

/-- A graph that names an output twice, beside a constant without a shape. -/
def Graph.echoing : Graph where
  nodes := [{ op := .text "prim::Constant", outputs := [.text "n"] }]
  values := [(.text "n", { type := .text "None" })]
  inputs := [.text "x"]
  outputs := ["x", "n", "x"].map .text

namespace Session

/-- A session over it, with a tensor without axes as the input. -/
def echoing : Session := start .echoing [.placeholder []] {}

/-- The input and the constant are reported alike, also after inputs are replaced that
cannot be bound any more. -/
theorem report_echoing :
    ∃ r, Report.ofEngine .echoing ((echoing.after .run).perform [.setInputs [], .bindInputs]).engine
        = .ok r ∧
      (r.outputs.map Prod.fst).map Name.key = ["x", "n"].map .text ∧
      r.values.map (fun (name, entry) => (name, entry.toMeta))
        = [(.text "x", .tensor []), (.text "n", .tensor [])] := by
  have hrun : echoing.run.result = .ok [[], [], []] := eq_ok_of_toOption (by decide +kernel)
  obtain ⟨r, hr, hkeys, _, _, _, _, _, hvalues⟩ :=
    report_perform hrun (show Step.run ∉ [.setInputs [], .bindInputs] by simp) rfl
  exact ⟨r, hr, hkeys.trans (by decide +kernel), hvalues.trans (by decide +kernel)⟩

end Session

end GraphShapes
