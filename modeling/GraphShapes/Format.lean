/-
GraphShapes.Format — formats of model files.

The suffix of a file's name, in small letters, says in which format it is. The
formats are components of a registry, so a suffix without a format is reported
together with those that have one.
-/
import GraphShapes.Document.Source
import GraphShapes.Onnx.Decoder
import GraphShapes.Registry

namespace GraphShapes

/-- A format of model files. -/
inductive Format where
  | json
  | onnx
  deriving DecidableEq, Repr, Inhabited

namespace Format

/-- The kind under which formats are registered. -/
def kind : String := "parser"

/-- The registered formats. -/
def registered : Registry Format :=
  (Registry.register {} kind ".json" json).register kind ".onnx" onnx

/-- The format of a suffix. -/
def ofSuffix (suffix : String) : Except Fault Format :=
  let suffix := Text.lower suffix
  match registered.get? kind suffix with
  | some c => .ok c.content
  | none =>
    .error (.validation (.unknownFormat suffix (", ".intercalate (registered.names kind))))

variable [Json.Nesting]

/-- The graph in a file of a format. -/
def read (f : Format) (files : Files) (validate : Bool) (name : String) : Except Fault Graph :=
  match f with
  | json => Document.graph files validate (.value (.text name))
  | onnx => Onnx.graph files validate (.value (.text name))

end Format

variable [Json.Nesting]

/-- The graph in the file that a text names. -/
def loadGraph (files : Files) (validate : Bool) (name : String) : Except Fault Graph := do
  (← Format.ofSuffix (Path.ofString name).suffix).read files validate name

end GraphShapes
