/-
GraphShapes.Json.Token — the tokens of a document.

A document is a row of brackets, separators, texts and literals with blanks
between them. `scan` cuts a text into tokens and keeps the offset of each. It
never fails: a text that is not closed or not well escaped is a token of its
own that says what is wrong and how far behind its start, and a character that
begins nothing is a token too. Whether such a token is an error at its place,
and which, is for the reader of the tokens to say.

Numbers with a point or an exponent are floating-point numbers, others are
integers; the three words for numbers that are not finite are read as well. An
escape may write half a surrogate pair, so texts are read as code points.
-/
import GraphShapes.Datum
import GraphShapes.Json.Error
import GraphShapes.Number.Binary

namespace GraphShapes.Json

/-- A token of a document. -/
inductive Token where
  | openList
  | closeList
  | openFields
  | closeFields
  | colon
  | comma
  | text (p : Points)
  /-- A word or a number. -/
  | literal (d : Datum)
  /-- A whole number with too many digits. -/
  | overlong
  /-- A text with a problem at a distance from its start. -/
  | broken (p : Problem) (distance : Nat)
  /-- A character that begins no token. -/
  | other
  deriving Repr, Inhabited

/-- A token and its offset in the text. -/
structure Placed where
  token : Token
  offset : Nat
  deriving Repr, Inhabited

/-- A blank between tokens. -/
def isBlank (c : Char) : Bool := c = ' ' || c = '\t' || c = '\n' || c = '\r'

/-! ## Texts -/

/-- The value of a hexadecimal digit. -/
def hexValue? (c : Char) : Option Nat :=
  if '0' ≤ c && c ≤ '9' then some (c.toNat - 48)
  else if 'a' ≤ c && c ≤ 'f' then some (c.toNat - 87)
  else if 'A' ≤ c && c ≤ 'F' then some (c.toNat - 55)
  else none

/-- The number that four hexadecimal digits write. -/
def unit? (a b c d : Char) : Option Nat := do
  return ((← hexValue? a) * 16 + (← hexValue? b)) * 256 + (← hexValue? c) * 16 + (← hexValue? d)

/-- Is the unit the first half of a pair? -/
def isLeading (n : Nat) : Bool := 0xd800 ≤ n && n ≤ 0xdbff

/-- Is the unit the second half of a pair? -/
def isTrailing (n : Nat) : Bool := 0xdc00 ≤ n && n ≤ 0xdfff

/-- The code point of a pair of units. -/
def ofPair (n m : Nat) : Nat := 0x10000 + (n - 0xd800) * 0x400 + (m - 0xdc00)

/-- The character that an escape letter stands for. -/
def letterEscape? : Char → Option Char
  | '"' => some '"'
  | '\\' => some '\\'
  | '/' => some '/'
  | 'b' => some '\x08'
  | 'f' => some '\x0c'
  | 'n' => some '\n'
  | 'r' => some '\r'
  | 't' => some '\t'
  | _ => none

/-- What a text yields at some place: the code point and the number of
characters it takes, or a problem and its distance. -/
abbrev Piece := Except (Problem × Nat) (Nat × Nat)

/-- The escape of a leading unit, given what stands behind its digits. A second
escape is taken along if it completes the pair. -/
def leadingEscape (n : Nat) : List Char → Piece
  | '\\' :: 'u' :: a :: b :: c :: d :: _ :: _ =>
    match unit? a b c d with
    | none => .error (.unicodeEscape, 7)
    | some m => if isTrailing m then .ok (ofPair n m, 11) else .ok (n, 5)
  | _ => .ok (n, 5)

/-- An escape by number, given what stands behind its letter. The text must go
on behind the digits. -/
def numberEscape : List Char → Piece
  | a :: b :: c :: d :: e :: rest =>
    match unit? a b c d with
    | none => .error (.unicodeEscape, 1)
    | some n => if isLeading n then leadingEscape n (e :: rest) else .ok (n, 5)
  | _ => .error (.unicodeEscape, 1)

/-- An escape, given what stands behind the backslash; distances are from it. -/
def escape : List Char → Piece
  | [] => .error (.unterminated, 0)
  | 'u' :: rest => numberEscape rest
  | c :: _ =>
    match letterEscape? c with
    | some d => .ok (d.toNat, 1)
    | none => .error (.escape, 0)

/-- A problem seen from the start of a text; a text without an end has its
problem at its start. -/
def fromStart (distance : Nat) : Problem × Nat → Problem × Nat
  | (.unterminated, _) => (.unterminated, 0)
  | (p, n) => (p, distance + n)

/-- The code points of a text up to its closing quote, and how many characters
the whole takes. `distance` is the distance from the opening quote; `skip`
characters still belong to an escape. -/
def textBody : (skip distance : Nat) → List Char → Except (Problem × Nat) (List Nat × Nat)
  | _, _, [] => .error (.unterminated, 0)
  | skip + 1, distance, _ :: rest => textBody skip (distance + 1) rest
  | 0, distance, c :: rest =>
    if c = '"' then .ok ([], distance + 1)
    else if c = '\\' then
      match escape rest with
      | .error e => .error (fromStart distance e)
      | .ok (d, width) =>
        (textBody width (distance + 1) rest).map fun (ps, n) => (d :: ps, n)
    else if c.toNat < 0x20 then .error (.controlCharacter, distance)
    else (textBody 0 (distance + 1) rest).map fun (ps, n) => (c.toNat :: ps, n)

/-- The token of a text, given what stands behind its opening quote. -/
def textToken (cs : List Char) : Token × Nat :=
  match textBody 0 1 cs with
  | .ok (body, width) => (.text ⟨body⟩, width)
  | .error (p, distance) => (.broken p distance, 1)

/-! ## Literals -/

/-- A literal that is a word. -/
def word? : List Char → Option (Datum × Nat)
  | 'n' :: 'u' :: 'l' :: 'l' :: _ => some (.null, 4)
  | 't' :: 'r' :: 'u' :: 'e' :: _ => some (.bool true, 4)
  | 'f' :: 'a' :: 'l' :: 's' :: 'e' :: _ => some (.bool false, 5)
  | 'N' :: 'a' :: 'N' :: _ => some (.float (.nan 0), 3)
  | 'I' :: 'n' :: 'f' :: 'i' :: 'n' :: 'i' :: 't' :: 'y' :: _ =>
    some (.float (.infinite false), 8)
  | '-' :: 'I' :: 'n' :: 'f' :: 'i' :: 'n' :: 'i' :: 't' :: 'y' :: _ =>
    some (.float (.infinite true), 9)
  | _ => none

/-- The digits of a number before its point; a leading zero stands alone. -/
def wholeDigits : List Char → List Char
  | '0' :: _ => ['0']
  | cs => cs.takeWhile Char.isDigit

/-- The digits behind a point. -/
def fractionDigits : List Char → List Char
  | '.' :: cs => cs.takeWhile Char.isDigit
  | _ => []

/-- An exponent without its sign, and how many characters it takes. -/
def unsignedExponent? (cs : List Char) : Option (Nat × Nat) :=
  let digits := cs.takeWhile Char.isDigit
  if digits.isEmpty then none else some (Binary.ofDigitChars digits, digits.length)

/-- An exponent with its sign, and how many characters it takes. -/
def signedExponent? : List Char → Option (Int × Nat)
  | '-' :: cs => (unsignedExponent? cs).map fun (n, width) => (-(n : Int), width + 1)
  | '+' :: cs => (unsignedExponent? cs).map fun (n, width) => ((n : Int), width + 1)
  | cs => (unsignedExponent? cs).map fun (n, width) => ((n : Int), width)

/-- An exponent, and how many characters it takes. -/
def exponent? : List Char → Option (Int × Nat)
  | c :: cs =>
    if c = 'e' || c = 'E' then (signedExponent? cs).map fun (n, width) => (n, width + 1) else none
  | [] => none

/-- A whole number. -/
def integerToken (negative : Bool) (digits : List Char) : Token :=
  if digits.length > Decimal.maxDigits then .overlong
  else
    let n : Int := Binary.ofDigitChars digits
    .literal (.int (if negative then -n else n))

/-- A number without its sign, and how many characters it takes. -/
def unsignedNumber? (negative : Bool) (cs : List Char) : Option (Token × Nat) :=
  let whole := wholeDigits cs
  if whole.isEmpty then none
  else
    let cs := cs.drop whole.length
    let fraction := fractionDigits cs
    let point := if fraction.isEmpty then 0 else fraction.length + 1
    match exponent? (cs.drop point) with
    | some (e, width) =>
      some (.literal (.float (Binary.assemble negative whole fraction e)),
        whole.length + point + width)
    | none =>
      if fraction.isEmpty then some (integerToken negative whole, whole.length)
      else some (.literal (.float (Binary.assemble negative whole fraction 0)),
        whole.length + point)

/-- A number, and how many characters it takes. -/
def number? : List Char → Option (Token × Nat)
  | '-' :: cs => (unsignedNumber? true cs).map fun (t, width) => (t, width + 1)
  | cs => unsignedNumber? false cs

/-- The literal that a text begins with, if any. -/
def literalToken (cs : List Char) : Token × Nat :=
  match word? cs with
  | some (d, width) => (.literal d, width)
  | none => (number? cs).getD (.other, 1)

/-! ## Rows of tokens -/

/-- The token that a text begins with, and how many characters it takes. -/
def firstToken (c : Char) (rest : List Char) : Token × Nat :=
  match c with
  | '[' => (.openList, 1)
  | ']' => (.closeList, 1)
  | '\x7b' => (.openFields, 1)
  | '\x7d' => (.closeFields, 1)
  | ':' => (.colon, 1)
  | ',' => (.comma, 1)
  | '"' => textToken rest
  | c => literalToken (c :: rest)

/-- The tokens of a text that begins at an offset; `skip` characters still
belong to the last token. -/
def scan : (skip offset : Nat) → List Char → List Placed
  | _, _, [] => []
  | skip + 1, offset, _ :: rest => scan skip (offset + 1) rest
  | 0, offset, c :: rest =>
    if isBlank c then scan 0 (offset + 1) rest
    else
      let (token, width) := firstToken c rest
      ⟨token, offset⟩ :: scan (width - 1) (offset + 1) rest

end GraphShapes.Json
