/-
GraphShapes.Proofs.FieldTheorems — reports that can be written.

A report is written under the names of values, and not every name can be the key of a
field: bytes cannot, nor what was taken out of an array. A report has a text when its
names can be keys (`exists_text_iff`). They are names that the graph uses
(`exists_ofEngine`), and those of a document are words, numbers and texts
(`hasField_of_ofDatum`): whatever a document holds, the report of a run can be written.

  §1 Names     — names that can be keys.
  §2 Reports   — when a report has a text.
  §3 Documents — the names of a document.
-/
import GraphShapes.Proofs.DocumentTheorems
import GraphShapes.Proofs.ReaderTheorems
import GraphShapes.Proofs.ReportTheorems

namespace GraphShapes

/-! ## §1 Names -/

/-- Can the name be the key of a field? -/
def Name.HasField (name : Name) : Prop := ∃ k, Report.fieldKey name = .ok k

theorem Name.hasField_of_isValue {name : Name} (h : Json.IsValue name.toDatum) :
    name.HasField := by
  generalize hd : name.toDatum = d at h
  cases h with
  | leaf hleaf =>
    cases name with
    | null | bool | int | float => exact ⟨_, rfl⟩
    | _ =>
      subst hd
      cases hleaf
  | text p =>
    unfold Datum.ofPoints at hd
    split at hd <;> cases name <;> cases hd <;> exact ⟨_, rfl⟩
  | list | fields => cases name <;> cases hd

/-! ## §2 Reports -/

/-- The names that a run learns something of are in use. -/
theorem Graph.trackedNames_subset_uses (g : Graph) :
    g.inputs ++ Graph.trackedNames g.nodes ⊆ g.uses := by
  refine List.append_subset.mpr ⟨fun name hname => ?_, fun name hname => ?_⟩
  · exact List.mem_append_right _ (List.mem_append_left _ hname)
  · obtain ⟨node, hnode, hname⟩ := List.mem_flatMap.mp hname
    refine List.mem_append_left _ (List.mem_flatMap.mpr ⟨node, hnode, ?_⟩)
    exact List.mem_append_right _ (node.tracked_sublist.subset hname)

namespace Report

variable {α : Type} {entries : List (Name × α)} {g : Graph} {e : Engine} {shapes : List Shape}

theorem exists_fields_iff (tree : α → Json.Tree) :
    (∃ fs, fields tree entries = .ok fs) ↔ ∀ name ∈ entries.map Prod.fst, name.HasField := by
  rw [List.forall_mem_map]
  induction entries with
  | nil => exact ⟨fun _ => nofun, fun _ => ⟨[], rfl⟩⟩
  | cons entry rest ih =>
    rw [List.forall_mem_cons, ← ih]
    simp only [fields, List.mapM_cons, bind_eq_ok_iff, pure_eq_ok_iff, Name.HasField]
    constructor
    · rintro ⟨_, _, ⟨k, hk, rfl⟩, fs, hfs, rfl⟩
      exact ⟨⟨k, hk⟩, fs, hfs⟩
    · rintro ⟨⟨k, hk⟩, fs, hfs⟩
      exact ⟨_, _, ⟨k, hk, rfl⟩, fs, hfs, rfl⟩

/-- **Texts.** A report has a text when all names in it can be keys. -/
theorem exists_text_iff {r : Report} :
    (∃ s, r.text = .ok s) ↔
      (∀ name ∈ r.outputs.map Prod.fst, name.HasField) ∧
        ∀ name ∈ r.values.map Prod.fst, name.HasField := by
  rw [← exists_fields_iff integersTree, ← exists_fields_iff entryTree]
  simp only [text, toTree, bind_eq_ok_iff, pure_eq_ok_iff]
  constructor
  · rintro ⟨_, _, ⟨outputs, houtputs, values, hvalues, rfl⟩, rfl⟩
    exact ⟨⟨outputs, houtputs⟩, values, hvalues⟩
  · rintro ⟨⟨outputs, houtputs⟩, values, hvalues⟩
    exact ⟨_, _, ⟨outputs, houtputs, values, hvalues, rfl⟩, rfl⟩

/-- No name comes up that was not listed. -/
theorem names_keyed_subset (entries : List (Name × α)) :
    (keyed entries).map Prod.fst ⊆ entries.map Prod.fst := by
  induction entries using List.reverseRecOn with
  | nil => exact List.Subset.refl _
  | append_singleton entries entry ih =>
    rw [keyed_concat, names_putEntry, List.map_append]
    split
    · exact List.subset_append_of_subset_left _ ih
    · exact List.append_subset.mpr
        ⟨List.subset_append_of_subset_left _ ih, List.subset_append_right _ _⟩

/-- A successful run has a report, on names that the graph uses. -/
theorem exists_ofEngine (h : (Engine.run g e).result = .ok shapes) :
    ∃ r, ofEngine g (Engine.run g e).engine = .ok r ∧
      r.outputs.map Prod.fst ⊆ g.uses ∧ r.values.map Prod.fst ⊆ g.uses := by
  obtain ⟨hvalid, hwalk, -⟩ := Engine.run_eq_ok_iff.mp h
  have hpublished : (Engine.run g e).engine.outputShapes = .ok shapes := by
    rw [Engine.outputShapes_eq_ok_iff, Engine.published_run hvalid, h]
    rfl
  have hnames : (Engine.run g e).engine.store.names = g.inputs ++ Graph.trackedNames g.nodes := by
    rw [Engine.store_run hvalid]
    exact (Graph.walked_walk hwalk).2.1
  have hreport : ofEngine g (Engine.run g e).engine = .ok
      ⟨keyed (g.outputs.zip shapes),
        (Engine.run g e).engine.store.map fun entry => (entry.1, entry.2.toReport)⟩ := by
    rw [ofEngine, hpublished]
  refine ⟨_, hreport, ?_, ?_⟩
  · refine List.Subset.trans (names_keyed_subset _) fun name hname => ?_
    obtain ⟨⟨n, shape⟩, hentry, rfl⟩ := List.mem_map.mp hname
    exact List.mem_append_right _ (List.mem_append_right _ (List.of_mem_zip hentry).1)
  · have hvalues : (Engine.run g e).engine.store.names ⊆ g.uses := by
      rw [hnames]
      exact g.trackedNames_subset_uses
    rwa [List.map_map]

end Report

/-! ## §3 Documents -/

/-- **Documents.** All names in a graph that is read of a text can be keys. -/
theorem Document.hasField_of_ofDatum {validate : Bool} {d : Datum} {g : Graph}
    (hd : Json.IsValue d) (h : ofDatum validate d = .ok g) :
    ∀ name ∈ g.uses, name.HasField := by
  obtain ⟨es, rfl, hreads⟩ := reads_of_ofDatum h
  exact fun name hname =>
    Name.hasField_of_isValue (hreads.parts Json.hereditary_isValue hd name hname)

end GraphShapes
