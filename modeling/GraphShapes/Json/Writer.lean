/-
GraphShapes.Json.Writer — documents as text.

A document is laid out with one item or field per line, two blanks deeper than
what holds it; an empty container is its two brackets. Text is ASCII: every
other code point, and every character that would not show, is written by
number, a character beyond the first plane as a pair of units.
-/
import GraphShapes.Number.Decimal
import GraphShapes.Text.Quoted

namespace GraphShapes.Json

/-- A document to be written. -/
inductive Tree where
  | number (n : Int)
  | list (items : List Tree)
  | fields (entries : List (Points × Tree))
  deriving Repr, Inhabited

/-- A unit by number. -/
def unitText (n : Nat) : List Char := '\\' :: 'u' :: Text.hex 4 n

/-- A code point by number. -/
def numberedText (n : Nat) : List Char :=
  if n < 0x10000 then unitText n
  else
    let n := n - 0x10000
    unitText (0xd800 + n / 0x400) ++ unitText (0xdc00 + n % 0x400)

/-- A code point of a text. -/
def codeText (n : Nat) : List Char :=
  if n = 0x22 || n = 0x5c then ['\\', Char.ofNat n]
  else if n = 0x0a then ['\\', 'n']
  else if n = 0x0d then ['\\', 'r']
  else if n = 0x09 then ['\\', 't']
  else if n = 0x08 then ['\\', 'b']
  else if n = 0x0c then ['\\', 'f']
  else if 0x20 ≤ n && n ≤ 0x7e then [Char.ofNat n]
  else numberedText n

/-- A text between quotes. -/
def quotedText (p : Points) : String :=
  String.ofList ('"' :: p.codes.flatMap codeText ++ ['"'])

/-- A line end and the blanks in front of what stands at a depth. -/
def lineStart (depth : Nat) : String := "\n" ++ String.ofList (List.replicate (2 * depth) ' ')

/-- Parts on lines of their own between brackets. -/
def bracketed (opening closing : String) (depth : Nat) : List String → String
  | [] => opening ++ closing
  | parts =>
    opening ++ lineStart (depth + 1) ++ ("," ++ lineStart (depth + 1)).intercalate parts
      ++ lineStart depth ++ closing

namespace Tree

mutual

/-- The text of a document that stands at a depth. -/
def layout (depth : Nat) : Tree → String
  | number n => Decimal.render n
  | list items => bracketed "[" "]" depth (itemLayouts (depth + 1) items)
  | fields entries => bracketed "\x7b" "\x7d" depth (fieldLayouts (depth + 1) entries)

/-- The texts of items. -/
def itemLayouts (depth : Nat) : List Tree → List String
  | [] => []
  | t :: rest => layout depth t :: itemLayouts depth rest

/-- The texts of fields. -/
def fieldLayouts (depth : Nat) : List (Points × Tree) → List String
  | [] => []
  | (k, t) :: rest => (quotedText k ++ ": " ++ layout depth t) :: fieldLayouts depth rest

end

/-- The text of a document. -/
def text (t : Tree) : String := layout 0 t

end Tree

end GraphShapes.Json
