/-
GraphShapes.Report — what a run is reported as.

A report gives the shape of every output by name and, for every value in the
order in which it was learnt, its sizes and, if it has any, its integers. The
listing gives the same sizes as plain lines.
-/
import GraphShapes.Inference.Engine
import GraphShapes.Json.Writer

namespace GraphShapes

/-- A value in a report. -/
structure ReportEntry where
  shape : Shape
  integers : Option (List Int)
  deriving DecidableEq, Repr, Inhabited

/-- The entry of a value. -/
def Meta.toReport (m : Meta) : ReportEntry := ⟨m.shape, m.integers?⟩

/-- What a run is reported as. -/
structure Report where
  outputs : List (Name × Shape)
  values : List (Name × ReportEntry)
  deriving DecidableEq, Repr, Inhabited

namespace Report

/-- Entries under names, a name listed again taking the later entry. -/
def keyed {α : Type} (entries : List (Name × α)) : List (Name × α) :=
  entries.foldl (fun acc (name, a) => putEntry acc name a) []

/-- The report of an engine's last run over a graph. -/
def ofEngine (g : Graph) (e : Engine) : Except Fault Report :=
  match e.outputShapes with
  | .error f => .error f
  | .ok shapes =>
    .ok ⟨keyed (g.outputs.zip shapes), e.store.map fun (name, m) => (name, m.toReport)⟩

/-- A number as the key of a field. -/
def numberKey : Binary → Points
  | .nan _ => "NaN"
  | .infinite negative => if negative then "-Infinity" else "Infinity"
  | x => x.text

/-- A name as the key of a field. Only texts, numbers, truth values and null
have one. -/
def fieldKey : Name → Except Misuse Points
  | .null => .ok "null"
  | .bool b => .ok (if b then "true" else "false")
  | .int n => .ok (Decimal.render n)
  | .float x => .ok (numberKey x)
  | .elementFloat x => .ok (numberKey x)
  | .text s => .ok s
  | .ragged p => .ok p
  | _ => .error .wrongKind

/-- Integers as a document. -/
def integersTree (ns : List Int) : Json.Tree := .list (ns.map .number)

/-- An entry as a document. -/
def entryTree (e : ReportEntry) : Json.Tree :=
  let integers := match e.integers with
    | some ns => [("int_values", integersTree ns)]
    | none => []
  .fields (("shape", integersTree e.shape) :: integers)

/-- Entries as fields. -/
def fields {α : Type} (tree : α → Json.Tree) (entries : List (Name × α)) :
    Except Misuse (List (Points × Json.Tree)) :=
  entries.mapM fun (name, a) => do return (← fieldKey name, tree a)

/-- A report as a document. -/
def toTree (r : Report) : Except Misuse Json.Tree := do
  let outputs ← fields integersTree r.outputs
  let values ← fields entryTree r.values
  return .fields [("outputs", .fields outputs), ("values", .fields values)]

/-- The text of a report. -/
def text (r : Report) : Except Misuse String := do return (← r.toTree).text

/-- One line of the listing. -/
def line (name : Name) (m : Meta) : Points :=
  let sizes := " ".intercalate (m.shape.map Decimal.render)
  name.display ++ ":[ " ++ (if sizes.isEmpty then "]" else sizes ++ " ]")

/-- The listing of a store. -/
def listing (s : Store) : Points := .join "\n" (s.map fun (name, m) => line name m)

end Report

end GraphShapes
