/-
GraphShapes.Proofs.SourceTheorems — documents in all their forms.

A document may be given as a value, as its text, or as a file that holds the text. A text
that is a keyed container begins with a brace, and what stands in front of it are blanks
of a document, which are blanks of plain text too: so it is never taken for a path
(`isInline_of_read`). It ends with one likewise, or with blanks (`exists_getLast?_of_read`).
A file is read with its line ends rewritten, which leaves the value of its text as it is
(`ofFile_eq_ok`). So all forms are the same graph or fail alike (`graph_of_read`).

Whatever the form, the graph is closed: it declares what it uses (`closed_of_graph`). Only
a value can hold integers that have no texts, for no text of a document writes them
(`isWritable_of_load`); so of texts and files every defect is told.

  §1 Forms   — values, texts and files.
  §2 Closure — the graph of a document declares what it uses.
-/
import GraphShapes.Document.Source
import GraphShapes.Proofs.DocumentTheorems
import GraphShapes.Proofs.EncodingTheorems
import GraphShapes.Proofs.LineEndTheorems

namespace GraphShapes

/-! ## §1 Forms -/

theorem Json.read_eq_ok_iff [Nesting] {s : String} {d : Datum} :
    Json.read s = .ok d ↔ Json.readChars s.toList = .ok d := by
  unfold read
  split <;> simp_all

/-- A blank of a document is one of plain text. -/
theorem Text.isBlank_of_isBlank {c : Char} (h : Json.isBlank c = true) : isBlank c = true := by
  simp only [Json.isBlank, Bool.or_eq_true, decide_eq_true_eq] at h
  rcases h with ((rfl | rfl) | rfl) | rfl <;> decide

namespace Document

variable {files : Files} {s : String} {es : List (Datum × Datum)} {d : Datum}
  {p : Path} {cs : List Char} {source : Source} {g : Graph}

/-- A row of tokens that opens a keyed container is that of a text with a brace in front. -/
theorem head?_trimLeft_of_scan {offset start : Nat} {rest : List Json.Placed}
    (h : Json.scan 0 offset cs = ⟨.openFields, start⟩ :: rest) :
    (Text.trimLeft cs).head? = some '\x7b' := by
  induction cs generalizing offset with
  | nil => cases h
  | cons c cs ih =>
    rw [Json.scan] at h
    split at h
    · next hblank =>
      rw [Text.trimLeft_cons_blank (Text.isBlank_of_isBlank hblank)]
      exact ih h
    · have htoken : (Json.firstToken c cs).1 = .openFields :=
        congrArg Json.Placed.token (List.cons.inj h).1
      rw [Json.eq_sign_of_firstToken htoken rfl, Text.trimLeft,
        List.dropWhile_cons_of_neg (by decide)]
      rfl

/-- A text that is a document is not taken for a path. -/
theorem isInline_of_read [Json.Nesting] (h : Json.read s = .ok (.dict es)) : isInline s = true := by
  obtain ⟨offset, rest, hscan⟩ := Json.exists_openFields_of_readChars (Json.read_eq_ok_iff.mp h)
  rw [isInline, head?_trimLeft_of_scan hscan]
  rfl

theorem isBlank_of_scan_eq_nil {offset : Nat} (h : Json.scan 0 offset cs = []) :
    ∀ c ∈ cs, Json.isBlank c = true := by
  induction cs generalizing offset with
  | nil => exact nofun
  | cons c cs ih =>
    rw [Json.scan] at h
    split at h
    · next hblank => exact List.forall_mem_cons.mpr ⟨hblank, ih h⟩
    · cases h

/-- A row of tokens that closes a keyed container is that of a text with a brace at its end,
blanks aside. -/
theorem exists_getLast?_of_scan {skip offset start : Nat} {front : List Json.Placed}
    (h : Json.scan skip offset cs = front ++ [⟨.closeFields, start⟩]) :
    ∃ c, cs.getLast? = some c ∧ (c = '\x7d' ∨ Json.isBlank c = true) := by
  have hbehind (c : Char) {cs : List Char} {p : Char → Prop}
      (h : ∃ d, cs.getLast? = some d ∧ p d) : ∃ d, (c :: cs).getLast? = some d ∧ p d := by
    obtain ⟨d, hd, hp⟩ := h
    exact ⟨d, by rw [List.getLast?_cons, hd, Option.getD_some], hp⟩
  induction cs generalizing skip offset front with
  | nil => cases skip <;> simp [Json.scan] at h
  | cons c cs ih =>
    cases skip with
    | succ skip => exact hbehind c (ih h)
    | zero =>
      rw [Json.scan] at h
      split at h
      · exact hbehind c (ih h)
      · cases front with
        | cons placed front => exact hbehind c (ih (List.cons.inj h).2)
        | nil =>
          obtain ⟨hfirst, hrest⟩ := List.cons.inj h
          have htoken : (Json.firstToken c cs).1 = .closeFields := congrArg Json.Placed.token hfirst
          cases Json.eq_sign_of_firstToken htoken rfl
          have hblanks := isBlank_of_scan_eq_nil hrest
          cases hlast : cs.getLast? with
          | none => exact ⟨_, by rw [List.getLast?_cons, hlast, Option.getD_none], .inl rfl⟩
          | some d => exact hbehind _ ⟨d, hlast, .inr (hblanks d (List.mem_of_getLast? hlast))⟩

/-- The text of a document ends with its brace or with a blank. -/
theorem exists_getLast?_of_read [Json.Nesting] (h : Json.read s = .ok (.dict es)) :
    ∃ c, s.toList.getLast? = some c ∧ (c = '\x7d' ∨ Json.isBlank c = true) := by
  obtain ⟨front, offset, hscan⟩ := Json.exists_closeFields_of_readChars (Json.read_eq_ok_iff.mp h)
  exact exists_getLast?_of_scan hscan

theorem ofText_eq_ok_iff [Json.Nesting] : ofText s = .ok d ↔ Json.read s = .ok d := by
  unfold ofText
  split <;> simp_all

/-- What the text of a file says does not depend on its line ends. -/
theorem ofFile_eq_ok [Json.Nesting] (hread : Json.read s = .ok d)
    (hfile : files.readBytes p.toString = .ok (Text.Utf8.encode s)) :
    ofFile files p = .ok d := by
  have htext : files.readText p = .ok (String.ofList (Files.unifyLineEnds s.toList)) := by
    rw [Files.readText, hfile, ok_bind, Files.textOf, Text.Utf8.decode?_encode]
  rw [ofFile, htext]
  refine ofText_eq_ok_iff.mpr (Json.read_eq_ok_iff.mpr ?_)
  rw [String.toList_ofList]
  exact Json.readChars_unifyLineEnds (Json.read_eq_ok_iff.mp hread)

/-- **Forms.** A document, its text, and a file that holds the text are the same graph, or
fail alike. Line ends and the blanks around the text make no difference. -/
theorem graph_of_read [Json.Nesting] (validate : Bool) (hread : Json.read s = .ok (.dict es))
    (hfile : files.readBytes p.toString = .ok (Text.Utf8.encode s)) :
    graph files validate (.value (.dict es)) = ofDatum validate (.dict es) ∧
      graph files validate (.value (.text s)) = ofDatum validate (.dict es) ∧
      graph files validate (.path p) = ofDatum validate (.dict es) := by
  refine ⟨rfl, ?_, ?_⟩
  · rw [graph, load, if_pos (isInline_of_read hread), ofText_eq_ok_iff.mpr hread, ok_bind]
  · rw [graph, load, ofFile_eq_ok hread hfile, ok_bind]

/-- A document with line ends of all kinds and blanks around it. -/
def spaced : String := " \r\n\x7b\"inputs\": [\"x\"],\r\"outputs\":\t[\"x\"]\x7d\n\r\n"

/-- A store in which one file holds the document. -/
def spacedStore : Files := ⟨[(Path.ofString "model.json", Text.Utf8.encode spaced)]⟩

/-- The text and the file are the same graph, although the file is read with other line
ends. -/
theorem graph_spaced :
    Files.unifyLineEnds spaced.toList ≠ spaced.toList ∧
      ∃ g, g.inputs = [.text "x"] ∧
        graph spacedStore true (.value (.text spaced)) = .ok g ∧
        graph spacedStore true (.path (Path.ofString "model.json")) = .ok g := by
  have hread : Json.read spaced = .ok (.dict [
      (.text "inputs", .list [.text "x"]), (.text "outputs", .list [.text "x"])]) := by
    rfl
  have hpath : (Path.ofString "model.json").toString = "model.json" := by decide +kernel
  have hplain : "model.json".contains '\x00' = false := by simp
  have hfile : spacedStore.readBytes (Path.ofString "model.json").toString
      = .ok (Text.Utf8.encode spaced) := by
    rw [hpath, Files.readBytes, hplain, if_neg Bool.false_ne_true, if_neg (by decide),
      if_neg (by decide)]
    rfl
  obtain ⟨-, htext, hpath⟩ := graph_of_read true hread hfile
  rw [htext, hpath]
  exact ⟨by decide +kernel, _, rfl, rfl, rfl⟩

/-! ## §2 Closure -/

/-- The integers of a source have texts. Those of texts and files do anyway. -/
def Source.IsWritable : Source → Prop
  | .value d => d.isWritable = true
  | .path _ => True

theorem isWritable_of_ofText [Json.Nesting] (h : ofText s = .ok d) : d.isWritable = true :=
  Json.isWritable_of_readChars (Json.read_eq_ok_iff.mp (ofText_eq_ok_iff.mp h))

theorem isWritable_of_ofFile [Json.Nesting] (h : ofFile files p = .ok d) : d.isWritable = true := by
  obtain ⟨text, -, htext⟩ := bind_eq_ok_iff.mp h
  exact isWritable_of_ofText htext

theorem isWritable_of_load [Json.Nesting] (h : load files source = .ok d)
    (hsource : source.IsWritable) : d.isWritable = true := by
  unfold load at h
  split at h
  · exact isWritable_of_ofFile h
  · cases h
    exact hsource
  · split at h
    · exact isWritable_of_ofText h
    · exact isWritable_of_ofFile h
  · cases h

/-- **Closure.** A graph that is read and not checked declares every name that it uses.
Declarations stand in the order of the document's and then in the order in which the other
names come up; what the document says of a name counts, and nothing is said of any other.
The nodes are those of the document. To check the graph as well can only show an output
that repeats or a cycle, which is told where integers have texts. -/
theorem closed_of_graph [Json.Nesting] (h : graph files false source = .ok g) :
    ∃ es specs values raws, load files source = .ok (.dict es) ∧
      fieldOr es "values" (.dict []) = .dict specs ∧ List.Forall₂ DeclaresEntry specs values ∧
      (fieldOr es "nodes" (.list [])).yields = .ok raws ∧ List.Forall₂ Describes raws g.nodes ∧
      Lists (fieldOr es "inputs" (.list [])) g.inputs ∧
      Lists (fieldOr es "outputs" (.list [])) g.outputs ∧
      (∀ name ∈ g.uses, g.declares name = true) ∧
      g.keys = ((values.map Prod.fst ++ g.uses).map Name.key).eraseDups ∧
      (∀ name, g.value? name
        = (lookup? values.reverse name).or (if name.isAmong g.uses then some {} else none)) ∧
      (graph files true source = .ok g ∨
        ∃ e, graph files true source = .error (Fault.validation e).settled ∧
          (e.code = "EDUP_PRODUCER" ∨ e.code = "ECYCLE") ∧
          (source.IsWritable → graph files true source = .error (.validation e))) := by
  obtain ⟨d, hload, hread⟩ := bind_eq_ok_iff.mp h
  have hgraph : graph files true source = ofDatum true d := by
    rw [graph, hload, ok_bind]
  have hchecked := checked_of_ofDatum hread
  obtain ⟨es, rfl, _, hkeyed, hentries, hrow, hnodes, hinputs, houtputs, hdeclares⟩ :=
    reads_of_ofDatum hread
  refine ⟨es, _, _, _, hload, hkeyed, hentries, hrow, hnodes, hinputs, houtputs,
    fun _ hname => declares_of_mem_uses hdeclares hname, keys_of_declares hdeclares,
    value?_of_declares hdeclares, ?_⟩
  rw [hgraph]
  obtain hok | ⟨e, hsettled, hcode, htold⟩ := hchecked
  · exact .inl hok
  · exact .inr ⟨e, hsettled, hcode, fun hsource => htold (isWritable_of_load hload hsource)⟩

/-- A product and what becomes of it; the weight is declared, and one of its sizes open. -/
def projection : Datum :=
  .dict [
    (.text "values", .dict [(.text "w", .dict [(.text "shape", .list [.int 4, .int (-1)])])]),
    (.text "nodes", .list [
      .dict [(.text "op", .text "aten::mm"), (.text "inputs", .list [.text "x", .text "w"]),
        (.text "outputs", .list [.text "h"])],
      .dict [(.text "op", .text "aten::relu"), (.text "inputs", .list [.text "h"]),
        (.text "outputs", .list [.text "y"])]]),
    (.text "inputs", .list [.text "x"]), (.text "outputs", .list [.text "y"])]

/-- The weight keeps its sizes and its place in front of the names that come up later. -/
theorem closed_projection :
    ∃ g, graph {} false (.value projection) = .ok g ∧
      (∀ name ∈ g.uses, g.declares name = true) ∧ g.uses.length = 7 ∧
      g.keys = [.text "w", .text "x", .text "h", .text "y"] := by
  obtain ⟨g, hg, huses, hkeys⟩ : ∃ g, graph {} false (.value projection) = .ok g ∧
      g.uses.length = 7 ∧ g.keys = [.text "w", .text "x", .text "h", .text "y"] :=
    ⟨_, rfl, rfl, by rfl⟩
  obtain ⟨_, _, _, _, _, _, _, _, _, _, _, hall, _⟩ := closed_of_graph hg
  exact ⟨g, hg, hall, huses, hkeys⟩

end Document

end GraphShapes
