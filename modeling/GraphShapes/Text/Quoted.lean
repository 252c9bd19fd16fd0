/-
GraphShapes.Text.Quoted — text between quotes.

A quoted text is put between apostrophes, or between double quotes when it
holds an apostrophe and no double quote. The quote, the backslash and the
three common line controls are escaped by letter, characters that do not stand
for themselves by number, two, four or eight hexadecimal digits wide; half a
surrogate pair is one of those. Raw bytes are quoted the same way behind a `b`.
-/
import GraphShapes.Text.Points
import GraphShapes.Text.Printable

namespace GraphShapes.Text

/-- The quote that a text is put between. -/
def quoteOf (cs : List Char) : Char :=
  if cs.contains '\'' && !cs.contains '"' then '"' else '\''

/-- Lower-case hexadecimal digits, padded to a width. -/
def hex (width n : Nat) : List Char :=
  let digits := Nat.toDigits 16 n
  List.replicate (width - digits.length) '0' ++ digits

/-- A code point by number. -/
def numbered (n : Nat) : List Char :=
  if n ≤ 0xff then '\\' :: 'x' :: hex 2 n
  else if n ≤ 0xffff then '\\' :: 'u' :: hex 4 n
  else '\\' :: 'U' :: hex 8 n

/-- The escape of the quote, the backslash and the three line controls. -/
def letterEscape? (quote c : Char) : Option (List Char) :=
  if c = quote || c = '\\' then some ['\\', c]
  else if c = '\n' then some ['\\', 'n']
  else if c = '\r' then some ['\\', 'r']
  else if c = '\t' then some ['\\', 't']
  else none

/-- One character of a quoted text. -/
def quotedChar (quote c : Char) : List Char :=
  match letterEscape? quote c with
  | some escape => escape
  | none => if isPrintable c then [c] else numbered c.toNat

/-- A text between quotes. -/
def quoted (s : String) : String :=
  let cs := s.toList
  let quote := quoteOf cs
  String.ofList (quote :: cs.flatMap (quotedChar quote) ++ [quote])

/-- One code point of a quoted text. -/
def quotedCode (quote : Char) (n : Nat) : List Char :=
  if Points.isHalf n then numbered n else quotedChar quote (Char.ofNat n)

/-- A text by code points between quotes. -/
def quotedPoints (p : Points) : String :=
  let quote := quoteOf ((p.codes.filter (!Points.isHalf ·)).map Char.ofNat)
  String.ofList (quote :: p.codes.flatMap (quotedCode quote) ++ [quote])

/-- One byte of quoted bytes. -/
def quotedByte (quote : Char) (b : UInt8) : List Char :=
  let c := Char.ofNat b.toNat
  match letterEscape? quote c with
  | some escape => escape
  | none => if 0x20 ≤ b.toNat && b.toNat < 0x7f then [c] else numbered b.toNat

/-- Bytes between quotes. -/
def quotedBytes (bs : List UInt8) : String :=
  let quote := quoteOf (bs.map fun b => Char.ofNat b.toNat)
  String.ofList ('b' :: quote :: bs.flatMap (quotedByte quote) ++ [quote])

end GraphShapes.Text
