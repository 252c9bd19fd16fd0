/-
GraphShapes.Datum — values of any kind.

Attributes, operator tags, declared types and shapes, and concrete inputs come
from documents and callers and may be anything, so there is one type for all
of them. Besides the kinds of a document there are arrays, known by their
sizes and element type; single elements taken out of an array, of which spans
of time pass for whole numbers without being any; placeholders that stand for a
tensor of given sizes; and foreign objects of which only the sizes are known.

`display` is the text of a value in a message: a text stands for itself at top
level and is quoted inside a container, where single elements also show the
type that they were taken out with.
-/
import GraphShapes.Element
import GraphShapes.Element.Span
import GraphShapes.Number.Decimal
import GraphShapes.Number.Shortest
import GraphShapes.Text.Grid
import GraphShapes.Text.Quoted

namespace GraphShapes

/-- A value of any kind. -/
inductive Datum where
  | null
  | bool (b : Bool)
  | int (n : Int)
  | float (x : Binary)
  | text (s : String)
  /-- A text in which half a surrogate pair stands alone. -/
  | ragged (p : Points)
  | bytes (bs : List UInt8)
  | list (items : List Datum)
  | tuple (items : List Datum)
  | dict (entries : List (Datum × Datum))
  /-- An array of given sizes. -/
  | array (sizes : List Nat) (element : Element)
  /-- A whole number taken out of an array. -/
  | elementInt (n : Int)
  /-- A truth value taken out of an array. -/
  | elementBool (b : Bool)
  /-- A floating-point number taken out of an array. -/
  | elementFloat (x : Binary)
  /-- A span of time taken out of an array. -/
  | elementSpan (s : Element.Span)
  /-- Stands for a tensor of given sizes. -/
  | placeholder (sizes : List Datum)
  /-- A foreign object that exposes its sizes, as a list or as a tuple. -/
  | shaped (asList : Bool) (sizes : List Datum)
  deriving Repr, Inhabited

namespace Datum

/-- The word for a value's kind. -/
def kind : Datum → String
  | .null => "NoneType"
  | .bool _ => "bool"
  | .int _ => "int"
  | .float _ => "float"
  | .text _ => "str"
  | .ragged _ => "str"
  | .bytes _ => "bytes"
  | .list _ => "list"
  | .tuple _ => "tuple"
  | .dict _ => "dict"
  | .array _ _ => "ndarray"
  | .elementInt _ => "int64"
  | .elementBool _ => "bool"
  | .elementFloat _ => "float64"
  | .elementSpan _ => "timedelta64"
  | .placeholder _ => "TensorInput"
  | .shaped _ _ => "Shaped"

/-- The word for a truth value. -/
def boolWord (b : Bool) : String := if b then "True" else "False"

/-- Parts between parentheses; a single one is followed by a comma. -/
def tupleText : List String → String
  | [part] => "(" ++ part ++ ",)"
  | parts => "(" ++ ", ".intercalate parts ++ ")"

mutual

/-- A value as it stands inside a container. -/
def literal : Datum → String
  | .null => "None"
  | .bool b => boolWord b
  | .int n => Decimal.render n
  | .float x => x.text
  | .text s => Text.quoted s
  | .ragged p => Text.quotedPoints p
  | .bytes bs => Text.quotedBytes bs
  | .list items => "[" ++ ", ".intercalate (literals items) ++ "]"
  | .tuple items => tupleText (literals items)
  | .dict entries => "\x7b" ++ ", ".intercalate (entryLiterals entries) ++ "\x7d"
  | .array sizes _ => Text.Grid.literal sizes
  | .elementInt n => "np.int64(" ++ Decimal.render n ++ ")"
  | .elementBool b => "np." ++ boolWord b ++ "_"
  | .elementFloat x => "np.float64(" ++ x.text ++ ")"
  | .elementSpan s => s.literal
  | .placeholder sizes => "TensorInput(shape=" ++ tupleText (literals sizes) ++ ")"
  | .shaped _ sizes => "Shaped(" ++ ", ".intercalate (literals sizes) ++ ")"

/-- The values of a container. -/
def literals : List Datum → List String
  | [] => []
  | d :: rest => literal d :: literals rest

/-- The entries of a container. -/
def entryLiterals : List (Datum × Datum) → List String
  | [] => []
  | (k, v) :: rest => (literal k ++ ": " ++ literal v) :: entryLiterals rest

end

/-- A value in a message. -/
def display : Datum → Points
  | .text s => s
  | .ragged p => p
  | .array sizes _ => Text.Grid.plain sizes
  | .elementInt n => Decimal.render n
  | .elementBool b => boolWord b
  | .elementFloat x => x.text
  | .elementSpan s => s.plain
  | d => literal d

/-- The text of code points. -/
def ofPoints (p : Points) : Datum :=
  match p.toString? with
  | some s => .text s
  | none => .ragged p

@[simp] theorem ofPoints_ofString (s : String) : ofPoints (Points.ofString s) = .text s := by
  simp [ofPoints]

mutual

/-- Has every integer inside a value a text? -/
def isWritable : Datum → Bool
  | .int n => Decimal.isWritable n
  | .elementInt n => Decimal.isWritable n
  | .elementSpan s => s.isWritable
  | .list items => areWritable items
  | .tuple items => areWritable items
  | .placeholder sizes => areWritable sizes
  | .shaped _ sizes => areWritable sizes
  | .dict entries => entriesAreWritable entries
  | _ => true

/-- Has every integer inside the values a text? -/
def areWritable : List Datum → Bool
  | [] => true
  | d :: rest => isWritable d && areWritable rest

/-- Has every integer inside the entries a text? -/
def entriesAreWritable : List (Datum × Datum) → Bool
  | [] => true
  | (k, v) :: rest => isWritable k && isWritable v && entriesAreWritable rest

end

/-- The entry of a keyed container under a text key. -/
def lookup (entries : List (Datum × Datum)) (key : String) : Option Datum :=
  (entries.find? fun (k, _) => match k with
    | .text s => s == key
    | _ => false).map (·.2)

/-- The integer that a whole number or truth value is. -/
def asInt? : Datum → Option Int
  | .bool b => some b.toInt
  | .int n => some n
  | .elementInt n => some n
  | .elementBool b => some b.toInt
  | .elementSpan s => s.whole?
  | _ => none

/-- Is the value a whole number, or does it pass for one? Truth values are, but
for those taken out of an array. -/
def isWhole : Datum → Bool
  | .bool _ => true
  | .int _ => true
  | .elementInt _ => true
  | .elementSpan _ => true
  | _ => false

/-- Is the value a whole number or a truth value? -/
def isIntegral : Datum → Bool
  | .elementBool _ => true
  | d => d.isWhole

/-- The integers of a list or tuple that holds nothing else. -/
def asInts? : Datum → Option (List Int)
  | .list items => items.mapM asInt?
  | .tuple items => items.mapM asInt?
  | _ => none

/-- Is the value a list or tuple that holds nothing but whole numbers and truth
values? -/
def areIntegral : Datum → Bool
  | .list items => items.all isIntegral
  | .tuple items => items.all isIntegral
  | _ => false

end Datum

/-- Puts a value under a key: in place of the one it has, or at the end. -/
def putField {κ α : Type} [BEq κ] (fields : List (κ × α)) (key : κ) (a : α) : List (κ × α) :=
  if fields.any fun (k, _) => k == key then
    fields.map fun (k, old) => if k == key then (k, a) else (k, old)
  else fields ++ [(key, a)]

end GraphShapes
