/-
GraphShapes.Proofs.FormatTheorems — the graph in a file.

Of a file's name only the suffix says what its bytes hold: `Format.ofBytes` is the graph
in bytes of a format, and a file that can be read is read as that (`read_eq_ofBytes`).
Documents are an exception, since a name that begins with a brace is taken for a document
itself. But a document ends with a brace, and no suffix that stands for a format does:
such a name is never read successfully (`isInline_eq_false_of_read`).

To validate a graph does not change it (`ofBytes_of_validated`).

  §1 Suffixes — the formats and how their suffixes end.
  §2 Bytes    — the graph in bytes of a format.
  §3 Files    — the graph in a file with a suffix.
-/
import GraphShapes.Format
import GraphShapes.Proofs.ConversionTheorems
import GraphShapes.Proofs.PathTheorems
import GraphShapes.Proofs.SourceTheorems

namespace GraphShapes

/-! ## §1 Suffixes -/

/-- Where a text ends with a character that is its own lower case, so does the lower case
of the text. -/
theorem Text.getLast?_lower {s : String} {c : Char} (hlast : s.toList.getLast? = some c)
    (hsigma : c.toNat ≠ 0x3a3) (hlower : lowerLetter c = [c]) :
    (lower s).toList.getLast? = some c := by
  obtain ⟨front, hs⟩ := List.getLast?_eq_some_iff.mp hlast
  have hfrom (front before : List Char) : (lowerFrom before (front ++ [c])).getLast? = some c := by
    induction front generalizing before with
    | nil => simp [lowerFrom, hsigma, hlower]
    | cons d front ih =>
      rw [List.cons_append, lowerFrom]
      rw [List.getLast?_append, ih]
      rfl
  rw [lower, String.toList_ofList, hs]
  exact hfrom front []

namespace Format

variable {f : Format} {files : Files} {validate : Bool} {name suffix : String}
  {bytes : List UInt8} {g : Graph} {p : Path}

theorem entries_registered : registered.entries =
    [(Registry.key kind ".json", ⟨kind, ".json", json⟩),
      (Registry.key kind ".onnx", ⟨kind, ".onnx", onnx⟩)] := by
  rfl

/-- Two suffixes are registered. -/
theorem get?_registered (suffix : String) :
    registered.get? kind suffix =
      if suffix = ".json" then some ⟨kind, ".json", json⟩
      else if suffix = ".onnx" then some ⟨kind, ".onnx", onnx⟩
      else none := by
  have hkey (s : String) : (Registry.key kind suffix == Registry.key kind s) = (suffix == s) := by
    rw [Registry.key, Registry.key, Bool.eq_iff_iff, beq_iff_eq, beq_iff_eq,
      String.append_right_inj]
  rw [Registry.get?, entries_registered, List.lookup_cons, List.lookup_cons, hkey, hkey]
  by_cases hjson : suffix = ".json"
  · simp [hjson]
  · rw [if_neg hjson, beq_eq_false_iff_ne.mpr hjson]
    by_cases honnx : suffix = ".onnx"
    · simp [honnx]
    · rw [if_neg honnx, beq_eq_false_iff_ne.mpr honnx]
      rfl

theorem names_registered : registered.names kind = [".json", ".onnx"] := by
  simp only [Registry.names, entries_registered, List.map_cons, List.map_nil, beq_self_eq_true,
    List.filter_cons_of_pos, List.filter_nil]
  exact List.mergeSort_of_pairwise (by decide)

/-- A suffix without a format is told, in small letters, together with those that have one. -/
theorem eq_of_ofSuffix_eq_error {fault : Fault} (h : ofSuffix suffix = .error fault) :
    fault = .validation (.unknownFormat (Text.lower suffix) ".json, .onnx") := by
  have hknown : ", ".intercalate [".json", ".onnx"] = ".json, .onnx" := by decide +kernel
  simp only [ofSuffix, names_registered, hknown] at h
  split at h
  · cases h
  · cases h
    rfl

theorem lower_of_ofSuffix (h : ofSuffix suffix = .ok f) :
    Text.lower suffix = ".json" ∨ Text.lower suffix = ".onnx" := by
  simp only [ofSuffix, get?_registered] at h
  split at h
  · next c hfound =>
    split at hfound
    · next hjson => exact .inl hjson
    · split at hfound
      · next honnx => exact .inr honnx
      · cases hfound
  · cases h

/-- Neither a brace nor a blank ends the suffix of a format. -/
theorem getLast?_ne_of_ofSuffix {c : Char} (h : ofSuffix suffix = .ok f)
    (hc : c = '\x7d' ∨ Json.isBlank c = true) : suffix.toList.getLast? ≠ some c := by
  intro hlast
  have hcases : c = '\x7d' ∨ c = ' ' ∨ c = '\t' ∨ c = '\n' ∨ c = '\r' := by
    simpa [Json.isBlank, or_assoc] using hc
  have hlower : (Text.lower suffix).toList.getLast? = some c := by
    refine Text.getLast?_lower hlast ?_ ?_
    · rcases hcases with rfl | rfl | rfl | rfl | rfl <;> decide
    · rcases hcases with rfl | rfl | rfl | rfl | rfl <;> decide
  obtain hname | hname := lower_of_ofSuffix h
  all_goals
    rw [hname] at hlower
    cases hlower
    revert hcases
    decide

theorem suffix_ne_of_ofSuffix (h : ofSuffix suffix = .ok f) : suffix ≠ "" := by
  rintro rfl
  have hlower := lower_of_ofSuffix h
  revert hlower
  decide

/-- A text that the suffix of a format ends is not the text of a document, which a brace or a
blank ends. -/
theorem not_read_of_ofSuffix [Json.Nesting] (hf : ofSuffix (Path.ofString name).suffix = .ok f)
    (es : List (Datum × Datum)) : Json.read name ≠ .ok (.dict es) := by
  intro hread
  obtain ⟨c, hlast, hc⟩ := Document.exists_getLast?_of_read hread
  have hplain : c ≠ '/' ∧ c ≠ '.' := by
    constructor
    all_goals
      rintro rfl
      revert hc
      decide
  exact getLast?_ne_of_ofSuffix hf hc
    (Path.getLast?_suffix hlast hplain.1 hplain.2 (suffix_ne_of_ofSuffix hf))

/-! ## §2 Bytes -/

/-- The graph in bytes of a format. -/
def ofBytes [Json.Nesting] (f : Format) (validate : Bool) (bytes : List UInt8) :
    Except Fault Graph :=
  match f with
  | json => do
    Document.ofDatum validate (← Document.ofText (← Fault.ofMisuse (Files.textOf bytes)))
  | onnx => do (← Fault.ofMisuse (Onnx.Model.decodeFile bytes)).toGraph validate

/-- **Validation.** To validate a graph does not change it. -/
theorem ofBytes_of_validated [Json.Nesting] (h : f.ofBytes true bytes = .ok g) (validate : Bool) :
    f.ofBytes validate bytes = .ok g := by
  cases f with
  | json =>
    obtain ⟨text, htext, h⟩ := bind_eq_ok_iff.mp h
    obtain ⟨d, hd, h⟩ := bind_eq_ok_iff.mp h
    obtain ⟨hread, hvalid⟩ := Document.ofDatum_eq_ok_iff.mp h
    exact bind_eq_ok_iff.mpr ⟨text, htext, bind_eq_ok_iff.mpr
      ⟨d, hd, Document.ofDatum_eq_ok_iff.mpr ⟨hread, fun _ => hvalid rfl⟩⟩⟩
  | onnx =>
    obtain ⟨m, hm, h⟩ := bind_eq_ok_iff.mp h
    obtain ⟨hconvert, hvalid⟩ := Onnx.toGraph_eq_ok_iff.mp h
    exact bind_eq_ok_iff.mpr
      ⟨m, hm, Onnx.toGraph_eq_ok_iff.mpr ⟨hconvert, fun _ => hvalid rfl⟩⟩

/-! ## §3 Files -/

/-- A document that is given as a path is what the bytes of the file hold. -/
theorem graph_path_eq_ofBytes [Json.Nesting] (hfile : files.readBytes p.toString = .ok bytes) :
    Document.graph files validate (.path p) = json.ofBytes validate bytes := by
  rw [Document.graph, Document.load, Document.ofFile, Files.readText, hfile, ok_bind, bind_assoc]
  rfl

/-- A name that is not taken for a document is taken for its path. -/
theorem read_eq_graph_path [Json.Nesting] (hpath : Document.isInline name = false) :
    json.read files validate name = Document.graph files validate (.path (Path.ofString name)) := by
  rw [read, Document.graph, Document.load, hpath, if_neg Bool.false_ne_true]
  rfl

/-- A file is read as its bytes, unless its name is taken for a document. -/
theorem read_eq_ofBytes [Json.Nesting] (hfile : files.readBytes name = .ok bytes)
    (hpath : f = .json → Document.isInline name = false) :
    f.read files validate name = f.ofBytes validate bytes := by
  cases f with
  | json =>
    rw [read_eq_graph_path (hpath rfl), graph_path_eq_ofBytes (Files.readBytes_toString hfile)]
  | onnx =>
    rw [read, Onnx.graph, Onnx.load, hfile, ok_bind]
    rfl

/-- **Paths.** A path with the suffix of documents is never a document itself. -/
theorem isInline_eq_false_of_read [Json.Nesting] (hp : p.IsNormal) (hf : ofSuffix p.suffix = .ok f)
    (h : json.read files validate p.toString = .ok g) : Document.isInline p.toString = false := by
  by_contra hinline
  rw [Bool.not_eq_false] at hinline
  obtain ⟨d, hload, hgraph⟩ := bind_eq_ok_iff.mp h
  rw [Document.load, if_pos hinline] at hload
  obtain ⟨es, rfl, -⟩ := Document.reads_of_ofDatum hgraph
  rw [← Path.ofString_toString hp] at hf
  exact not_read_of_ofSuffix hf es (Document.ofText_eq_ok_iff.mp hload)

end Format

variable {f : Format} {files : Files} {validate : Bool} {name s : String} {bytes : List UInt8}
  {g : Graph}

theorem loadGraph_eq_ofBytes [Json.Nesting] (hfile : files.readBytes name = .ok bytes)
    (hf : Format.ofSuffix (Path.ofString name).suffix = .ok f)
    (hpath : f = .json → Document.isInline name = false) :
    loadGraph files validate name = f.ofBytes validate bytes := by
  rw [loadGraph, hf, ok_bind, Format.read_eq_ofBytes hfile hpath]

/-- **Files.** What is read of a file under the text of its path is what its bytes hold in
the format of its suffix. -/
theorem exists_ofBytes_of_loadGraph [Json.Nesting] (hfile : files.readBytes s = .ok bytes)
    (h : loadGraph files validate (Path.ofString s).toString = .ok g) :
    ∃ f, Format.ofSuffix (Path.ofString s).suffix = .ok f ∧ f.ofBytes validate bytes = .ok g ∧
      (f = .json → Document.isInline (Path.ofString s).toString = false) := by
  have hnormal := Path.isNormal_ofString s
  obtain ⟨f, hf, hread⟩ := bind_eq_ok_iff.mp h
  rw [Path.ofString_toString hnormal] at hf
  have hpath : f = .json → Document.isInline (Path.ofString s).toString = false := by
    rintro rfl
    exact Format.isInline_eq_false_of_read hnormal hf hread
  rw [Format.read_eq_ofBytes (Files.readBytes_toString hfile) hpath] at hread
  exact ⟨f, hf, hread, hpath⟩

/-- A graph that can be read with validation is the same without. -/
theorem loadGraph_of_validated [Json.Nesting] (hfile : files.readBytes s = .ok bytes)
    (h : loadGraph files true (Path.ofString s).toString = .ok g) (validate : Bool) :
    loadGraph files validate (Path.ofString s).toString = .ok g := by
  obtain ⟨f, hf, hbytes, hpath⟩ := exists_ofBytes_of_loadGraph hfile h
  have hsuffix : Format.ofSuffix (Path.ofString (Path.ofString s).toString).suffix = .ok f := by
    rw [Path.ofString_toString (Path.isNormal_ofString s)]
    exact hf
  rw [loadGraph_eq_ofBytes (Files.readBytes_toString hfile) hsuffix hpath]
  exact Format.ofBytes_of_validated hbytes validate

end GraphShapes
