/-
GraphShapes.Document.Source — where documents come from.

A document is given as a value, as a path, or as a text. A text that begins
with a brace, blanks aside, is the document itself; any other text is a path.
Texts in which half a surrogate pair stands alone are left out: they are no
sources here, whatever they begin with.
-/
import GraphShapes.Document
import GraphShapes.Files
import GraphShapes.Json.Reader

namespace GraphShapes.Document

/-- What a document is given as. -/
inductive Source where
  /-- A value of any kind: the document, its text, or a path in text. -/
  | value (d : Datum)
  | path (p : Path)
  deriving Repr, Inhabited

variable [Json.Nesting]

/-- The value of a text. -/
def ofText (s : String) : Except Fault Datum :=
  match Json.read s with
  | .ok d => .ok d
  | .error (.malformed e) => .error (.validation (.notJson e))
  | .error .overlong => .error (.misuse .badValue)
  | .error .tooDeep => .error (.misuse .tooDeep)

/-- The value of a file. -/
def ofFile (files : Files) (p : Path) : Except Fault Datum := do
  ofText (← Fault.ofMisuse (files.readText p))

/-- Is a text a document rather than a path? -/
def isInline (s : String) : Bool := (Text.trimLeft s.toList).head? == some '\x7b'

/-- The document that a source gives. -/
def load (files : Files) : Source → Except Fault Datum
  | .path p => ofFile files p
  | .value (.dict es) => .ok (.dict es)
  | .value (.text s) => if isInline s then ofText s else ofFile files (Path.ofString s)
  | .value _ => .error .unsupportedSource

/-- The graph that a source describes. -/
def graph (files : Files) (validate : Bool) (s : Source) : Except Fault Graph := do
  ofDatum validate (← load files s)

end GraphShapes.Document
