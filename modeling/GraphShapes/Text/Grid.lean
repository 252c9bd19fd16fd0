/-
GraphShapes.Text.Grid — the text of an array of zeros.

Arrays matter for their sizes only, and the arrays that a message may have to
show hold zeros. Each axis has a pair of brackets. Elements of the last axis
fill lines of limited width; along the other axes every part begins a line,
with as many line feeds between parts as the part has axes. Of an array with
many elements, an axis shows the parts at its two ends.

`plain` is an array on its own, `literal` an array inside a container: there
the elements have commas between them, and what the elements do not tell of
the array follows them.
-/
namespace GraphShapes.Text.Grid

/-- One element. -/
def element : String := "0."

/-- The most characters on a line. -/
def lineWidth : Nat := 75

/-- The most elements of an array that is shown in full. -/
def mostElements : Nat := 1000

/-- How many parts are shown at each end of a shortened axis. -/
def edge : Nat := 3

/-- The number of elements. -/
def count (sizes : List Nat) : Nat := sizes.foldl (· * ·) 1

/-- Blanks in a row. -/
def blanks (n : Nat) : String := String.ofList (List.replicate n ' ')

/-- The equal parts of an axis of size `n`. -/
def parts (shortened : Bool) (n : Nat) (part : String) : List String :=
  if shortened && 2 * edge < n then
    List.replicate edge part ++ "..." :: List.replicate edge part
  else List.replicate n part

/-- Words on lines of a width, the first line having begun. Every word but the
last is followed by a mark. -/
def fill (mark : String) (width : Nat) : String → List String → List String
  | line, [] => [line]
  | line, w :: rest =>
    let marked := if rest.isEmpty then w else w ++ mark
    if line.isEmpty then fill mark width marked rest
    else if width < line.length + 1 + w.length then line :: fill mark width marked rest
    else fill mark width (line ++ " " ++ marked) rest

/-- The text of an array whose further lines are indented. -/
def layout (mark : String) (shortened : Bool) : (indent width : Nat) → List Nat → String
  | _, _, [] => element
  | indent, width, [n] =>
    let words := parts shortened n element
    "[" ++ ("\n" ++ blanks indent).intercalate (fill mark (width - 1 - indent) "" words) ++ "]"
  | indent, width, n :: rest =>
    let part := layout mark shortened (indent + 1) (width - 1) rest
    let feeds := String.ofList (List.replicate rest.length '\n')
    "[" ++ (mark ++ feeds ++ blanks indent).intercalate (parts shortened n part) ++ "]"

/-- Is the array too large to be shown in full? -/
def isLarge (sizes : List Nat) : Bool := mostElements < count sizes

/-- An array on its own. -/
def plain (sizes : List Nat) : String :=
  if sizes.isEmpty then "0.0"
  else if count sizes = 0 then "[]"
  else layout "" (isLarge sizes) 1 lineWidth sizes

/-- Sizes between parentheses; a single one is followed by a comma. -/
def sizesText : List Nat → String
  | [n] => "(" ++ toString n ++ ",)"
  | sizes => "(" ++ ", ".intercalate (sizes.map toString) ++ ")"

/-- What the elements do not tell: the sizes of an array that is empty or
shortened, and the element type of an empty one. -/
def remarks (sizes : List Nat) : List String :=
  let empty := count sizes == 0
  (if empty && sizes != [0] || isLarge sizes then ["shape=" ++ sizesText sizes] else [])
    ++ if empty then ["dtype=float64"] else []

/-- The characters behind the last line feed. -/
def lastLine (s : String) : Nat := (s.toList.reverse.takeWhile (· ≠ '\n')).length

/-- An array inside a container. -/
def literal (sizes : List Nat) : String :=
  let opening := "array("
  let body :=
    if count sizes = 0 then "[]"
    else layout "," (isLarge sizes) (opening.length + 1) (lineWidth - 1) sizes
  match remarks sizes with
  | [] => opening ++ body ++ ")"
  | rs =>
    let front := opening ++ body ++ ","
    let back := ", ".intercalate rs ++ ")"
    let gap := if lineWidth < lastLine front + back.length + 1 then "\n" ++ blanks opening.length
      else " "
    front ++ gap ++ back

end GraphShapes.Text.Grid
