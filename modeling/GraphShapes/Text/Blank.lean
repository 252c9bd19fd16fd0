/-
GraphShapes.Text.Blank — the blanks that surround text and numbers.

Blanks are the twenty-nine characters that Unicode gives the bidirectional
class of a separator or the general class of a space. The four information
separators are blanks around a text, but not around a number. A document's own
blanks are fewer; see `GraphShapes.Json.Token`.
-/
namespace GraphShapes.Text

/-- A blank of plain text. -/
def isBlank (c : Char) : Bool :=
  (9 ≤ c.toNat && c.toNat ≤ 13) || (0x1c ≤ c.toNat && c.toNat ≤ 0x20)
    || (0x2000 ≤ c.toNat && c.toNat ≤ 0x200a)
    || [0x85, 0xa0, 0x1680, 0x2028, 0x2029, 0x202f, 0x205f, 0x3000].contains c.toNat

/-- A control that marks the end of a unit, record, group or file. -/
def isSeparator (c : Char) : Bool := 0x1c ≤ c.toNat && c.toNat ≤ 0x1f

/-- A blank that may stand beside a number. -/
def isMargin (c : Char) : Bool := isBlank c && !isSeparator c

/-- Text without the characters of a class at either end. -/
def strip (p : Char → Bool) (cs : List Char) : List Char :=
  ((cs.dropWhile p).reverse.dropWhile p).reverse

/-- Text without the blanks in front. -/
def trimLeft (cs : List Char) : List Char := cs.dropWhile isBlank

/-- Text without the blanks at either end. -/
def trim (cs : List Char) : List Char := strip isBlank cs

theorem trimLeft_cons_blank {c : Char} (h : isBlank c = true) (cs : List Char) :
    trimLeft (c :: cs) = trimLeft cs := by
  simp [trimLeft, h]

end GraphShapes.Text
