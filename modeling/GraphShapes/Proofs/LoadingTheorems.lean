/-
GraphShapes.Proofs.LoadingTheorems — the file that a graph is loaded from.

A file of documents is given by a text or by a path, and a path is passed on as its text. But
of a text only the first character says whether it names a file: one that begins with a brace,
blanks aside, is taken for the document itself. No document ends like the name of a file of
documents, so such a text is refused, whatever the file holds (`loadGraph_eq_error`). A file is
read as what its bytes hold, then, exactly if the text by which it is given does not begin with
a brace (`loadGraph_eq_graph_iff`).

  §1 Refusals — texts that are taken for documents.
  §2 Files    — texts that are taken for paths.
-/
import GraphShapes.Proofs.FormatTheorems

namespace GraphShapes

variable {files : Files} {validate : Bool} {given s text : String} {bytes : List UInt8}
  {fault : Fault} {p : Path}

/-! ## §1 Refusals -/

/-- A text is no document: it breaks the grammar, or it is not a keyed container, or a number
in it is too long, or its containers are nested too deeply. -/
inductive Fault.IsNoDocument : Fault → Prop
  | malformed (e : ValidationError) (hcode : e.code = "EPARSE") : IsNoDocument (.validation e)
  | overlong : IsNoDocument (.misuse .badValue)
  | tooDeep : IsNoDocument (.misuse .tooDeep)

theorem Document.isNoDocument_of_ofText [Json.Nesting] (h : ofText text = .error fault) :
    fault.IsNoDocument := by
  unfold ofText at h
  split at h
  · cases h
  · cases h
    exact .malformed _ rfl
  · cases h
    exact .overlong
  · cases h
    exact .tooDeep

/-- What does not hold a document is no graph, validated or not. -/
theorem Document.exists_error_of_not_read [Json.Nesting]
    (h : ∀ es, Json.read text ≠ .ok (.dict es)) :
    ∃ fault : Fault, fault.IsNoDocument ∧
      ∀ validate, (ofText text >>= ofDatum validate) = .error fault := by
  cases htext : ofText text with
  | error fault => exact ⟨fault, isNoDocument_of_ofText htext, fun _ => rfl⟩
  | ok d =>
    refine ⟨.validation .notObject, .malformed _ rfl, fun validate => ?_⟩
    have hd : ∀ es, d ≠ .dict es := by
      rintro es rfl
      exact h es (ofText_eq_ok_iff.mp htext)
    cases d with
    | dict es => exact absurd rfl (hd es)
    | _ => rfl

/-- **Refusals.** A text that is taken for a document and ends in the suffix of documents is
refused, whatever files there are. -/
theorem loadGraph_eq_error [Json.Nesting]
    (hf : Format.ofSuffix (Path.ofString given).suffix = .ok .json)
    (hinline : Document.isInline given = true) :
    ∃ fault : Fault, fault.IsNoDocument ∧
      ∀ files validate, loadGraph files validate given = .error fault := by
  obtain ⟨fault, hkind, hfails⟩ :=
    Document.exists_error_of_not_read (Format.not_read_of_ofSuffix hf)
  refine ⟨fault, hkind, fun files validate => ?_⟩
  rw [← hfails validate, loadGraph, hf, ok_bind, Format.read, Document.graph, Document.load,
    if_pos hinline]

/-! ## §2 Files -/

theorem Format.ofSuffix_of_lower (h : Text.lower s = ".json") : Format.ofSuffix s = .ok .json := by
  simp [Format.ofSuffix, h, Format.get?_registered]

/-- A file at a path is loaded by a text as the path's document, whatever the file holds. -/
def LoadsFile [Json.Nesting] (given : String) (p : Path) : Prop :=
  ∀ (files : Files) (validate : Bool) (bytes : List UInt8),
    files.readBytes p.toString = .ok bytes →
      loadGraph files validate given = Document.graph files validate (.path p)

theorem loadsFile_of_plain [Json.Nesting]
    (hf : Format.ofSuffix (Path.ofString given).suffix = .ok .json)
    (hpath : Document.isInline given = false) : LoadsFile given (Path.ofString given) := by
  intro files validate bytes _
  rw [loadGraph, hf, ok_bind, Format.read_eq_graph_path hpath]

/-- The empty document is read wherever a document is. -/
theorem Json.read_braces [Nesting] : read "\x7b\x7d" = .ok (.dict []) := by
  have henter : State.enter [] (.firstKey []) = .ok (.firstKey []) := if_pos Nesting.room_pos
  refine read_eq_ok_iff.mpr ?_
  change readTokens 2 (.value []) [⟨.openFields, 0⟩, ⟨.closeFields, 1⟩] = _
  exact readTokens_cons_eq_ok_iff.mpr ⟨_, henter, rfl⟩

/-- The file could hold the empty document, which is not refused. -/
theorem not_loadsFile [Json.Nesting] (hfile : files.readBytes p.toString = .ok bytes)
    (hrefused : ∀ files validate, loadGraph files validate given = .error fault) :
    ¬ LoadsFile given p := by
  intro h
  have hempty := Files.readBytes_of_readBytes hfile [0x7b, 0x7d]
  have hloads := h _ true _ hempty
  have htext : Document.ofText "\x7b\x7d" = .ok (.dict []) :=
    Document.ofText_eq_ok_iff.mpr Json.read_braces
  have hgraph : Format.json.ofBytes true [0x7b, 0x7d] = .ok {} := by
    change (Document.ofText "\x7b\x7d" >>= Document.ofDatum true) = _
    rw [htext]
    rfl
  rw [hrefused, Format.graph_path_eq_ofBytes hempty, hgraph] at hloads
  cases hloads

/-- **Loading.** A file that is there, with the suffix of documents in whatever case, is given
by a text or as a path. The document of its path is what its bytes hold. To load it gives the
same graph or the same fault, whatever it holds, exactly if what it is given by does not begin
with a brace, blanks aside. Otherwise the loading fails, and always alike: the file is not
looked at. -/
theorem loadGraph_eq_graph_iff [Json.Nesting]
    (hfile : files.readBytes (Path.ofString s).toString = .ok bytes)
    (hsuffix : Text.lower (Path.ofString s).suffix = ".json")
    (hgiven : given = s ∨ given = (Path.ofString s).toString) :
    (∀ validate, Document.graph files validate (.path (Path.ofString s))
      = Format.json.ofBytes validate bytes) ∧
    (LoadsFile given (Path.ofString s) ↔ Document.isInline given = false) ∧
    (Document.isInline given = true → ∃ fault : Fault, fault.IsNoDocument ∧
      ∀ files validate, loadGraph files validate given = .error fault) := by
  have hpath : Path.ofString given = Path.ofString s := by
    rcases hgiven with rfl | rfl
    · rfl
    · exact Path.ofString_toString (Path.isNormal_ofString s)
  have hf : Format.ofSuffix (Path.ofString given).suffix = .ok .json := by
    rw [hpath]
    exact Format.ofSuffix_of_lower hsuffix
  refine ⟨fun validate => Format.graph_path_eq_ofBytes hfile, ?_, loadGraph_eq_error hf⟩
  constructor
  · intro hloads
    by_contra hinline
    obtain ⟨fault, -, hrefused⟩ := loadGraph_eq_error hf (Bool.of_not_eq_false hinline)
    exact not_loadsFile hfile hrefused hloads
  · intro hplain
    rw [← hpath]
    exact loadsFile_of_plain hf hplain

/-- A store with an empty document under a name. -/
def Files.blankAt (name : String) : Files := ⟨[(Path.ofString name, [0x7b, 0x7d])]⟩

/-- A brace further behind makes no difference. -/
theorem loadsFile_versioned :
    (Files.blankAt "models/\x7bv2\x7d.JSON").readBytes
        (Path.ofString "models/\x7bv2\x7d.JSON").toString = .ok [0x7b, 0x7d] ∧
      Text.lower (Path.ofString "models/\x7bv2\x7d.JSON").suffix = ".json" ∧
      LoadsFile "models/\x7bv2\x7d.JSON" (Path.ofString "models/\x7bv2\x7d.JSON") := by
  have hpath : (Path.ofString "models/\x7bv2\x7d.JSON").toString = "models/\x7bv2\x7d.JSON" := by
    decide +kernel
  have hfile : (Files.blankAt "models/\x7bv2\x7d.JSON").readBytes
      (Path.ofString "models/\x7bv2\x7d.JSON").toString = .ok [0x7b, 0x7d] := by
    rw [hpath]
    exact Files.readBytes_only (by decide +kernel) (by decide +kernel) (by decide +kernel)
      (by decide +kernel) _
  have hsuffix : Text.lower (Path.ofString "models/\x7bv2\x7d.JSON").suffix = ".json" := by
    decide +kernel
  obtain ⟨-, hloads, -⟩ := loadGraph_eq_graph_iff hfile hsuffix (.inl rfl)
  exact ⟨hfile, hsuffix, hloads.mpr (by decide +kernel)⟩

/-- A brace in front does: the file holds a document, and is refused for its name. -/
theorem not_loadsFile_braced :
    Document.graph (Files.blankAt "\x7bm\x7d.json") true (.path (Path.ofString "\x7bm\x7d.json"))
        = .ok {} ∧
      (∃ e, loadGraph (Files.blankAt "\x7bm\x7d.json") true "\x7bm\x7d.json"
        = .error (.validation e) ∧ e.code = "EPARSE") ∧
      ¬ LoadsFile "\x7bm\x7d.json" (Path.ofString "\x7bm\x7d.json") := by
  have hpath : (Path.ofString "\x7bm\x7d.json").toString = "\x7bm\x7d.json" := by decide +kernel
  have hfile : (Files.blankAt "\x7bm\x7d.json").readBytes (Path.ofString "\x7bm\x7d.json").toString
      = .ok [0x7b, 0x7d] := by
    rw [hpath]
    exact Files.readBytes_singleton (by decide +kernel) (by decide +kernel) (by decide +kernel)
      (by decide +kernel) _
  have hgraph : Document.graph (Files.blankAt "\x7bm\x7d.json") true
      (.path (Path.ofString "\x7bm\x7d.json")) = .ok {} := by
    rw [Format.graph_path_eq_ofBytes hfile]
    rfl
  have hrefused : ∃ e, loadGraph (Files.blankAt "\x7bm\x7d.json") true "\x7bm\x7d.json"
      = .error (.validation e) ∧ e.code = "EPARSE" :=
    ⟨_, by rfl, by rfl⟩
  refine ⟨hgraph, hrefused, ?_⟩
  intro hloads
  obtain ⟨e, herror, -⟩ := hrefused
  have hsame := hloads _ true _ hfile
  rw [herror, hgraph] at hsame
  cases hsame

end GraphShapes
