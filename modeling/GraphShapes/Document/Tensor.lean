/-
GraphShapes.Document.Tensor — arrays that a document describes.

A tensor description gives sizes and, if it likes, an element type. The type
is mostly spelled in text; null and a few containers ask for types too. A
spelling with repeats asks for an array in place of every element; that array
has to spread over the sizes.
-/
import GraphShapes.Datum.Cast
import GraphShapes.Element.Record

namespace GraphShapes.Document

/-- A type that takes no sizes of its own. -/
def single (e : Element) : Element.Repeated := ⟨Element.Spelled.ofSized e e.name, []⟩

/-- The field of a record at a place, given its name and its type. -/
def toField (earlier : List (String × Element.Repeated)) (name type : Datum) :
    Except Misuse (String × Element.Repeated) := do
  let r ← match type with
    | .text s => Element.ofSpelling s
    | _ => .error .wrongKind
  match name with
  | .text s => if (earlier.lookup s).isSome then .error .badValue else return (s, r)
  | _ => .error .wrongKind

/-- The fields of a record, given their names and their types in order. -/
def toFields : List (String × Element.Repeated) → List Datum → List Datum →
    Except Misuse (List (String × Element.Repeated))
  | earlier, [], _ => .ok earlier
  | _, _ :: _, [] => .error .badValue
  | earlier, name :: names, type :: types => do
    toFields (earlier ++ [← toField earlier name type]) names types

/-- The record that names and types in order describe. -/
def toRecord (names types : Datum) : Except Misuse Element :=
  match names, types with
  | .list names, .list types =>
    if types.length < names.length then .error .badValue
    else do return Element.Repeated.record (← toFields [] names types)
  | _, _ => .error .wrongKind

/-- Refuses fields that are no pair of a type and an offset. -/
def checkFields : List Datum → Except Misuse Unit
  | [] => .ok ()
  | .text _ :: _ => .error .badValue
  | .ragged _ :: _ => .error .badValue
  | .list _ :: _ => .error .badValue
  | .dict _ :: _ => .error .badValue
  | _ :: _ => .error .wrongKind

/-- The element type that a value in the place of its spelling asks for: null
is the common one, an empty container a record without fields, and names and
types in a container are those of a record. -/
def toType : Datum → Except Misuse Element.Repeated
  | .null => .ok (single Element.float64)
  | .text s => Element.ofSpelling s
  | .ragged _ => .error .unencodable
  | .bytes bs =>
    if bs.all (· < 0x80) then Element.ofSpelling (String.ofList (Datum.byteChars bs))
    else .error .wrongKind
  | .elementInt _ => .ok (single Element.int64)
  | .elementBool _ => .ok (single Element.bool)
  | .elementFloat _ => .ok (single Element.float64)
  | .elementSpan s => .ok ⟨Element.Spelled.moment .native true s.step, []⟩
  | .list [] => .ok (single (Element.Repeated.record []))
  | .dict es =>
    match Datum.lookup es "names", Datum.lookup es "formats" with
    | some names, some types => (toRecord names types).map single
    | _, _ => do
      checkFields (es.map (·.2))
      return single (Element.Repeated.record [])
  | _ => .error .wrongKind

/-- Can an array of some sizes be spread over others? Aligned on the right,
every size is one or equal to the other. -/
def spreads (inner outer : List Nat) : Bool :=
  inner.length ≤ outer.length
    && (inner.reverse.zip outer.reverse).all fun (a, b) => a == 1 || a == b

/-- The array of some sizes whose elements have the type that was asked for. -/
def toArray (type : Datum) (sizes : List Datum) : Except Misuse Datum := do
  let r ← toType type
  let e := r.spelled.element
  let ns ← Datum.toSizes e.size sizes
  if spreads r.sizes ns then return .array ns e else .error .badValue

end GraphShapes.Document
