/-
GraphShapes.Json.Error — where and why a text is no JSON document.

A place is given as line, column and offset. Lines and columns count from one,
offsets from zero, all in characters; a line feed ends a line.
-/
import GraphShapes.Number.Decimal

namespace GraphShapes.Json

/-- Why a text is no document. -/
inductive Problem where
  | byteOrderMark
  | value
  | key
  | colon
  | comma
  | extraData
  | unterminated
  | controlCharacter
  | escape
  | unicodeEscape
  deriving DecidableEq, Repr, Inhabited

/-- The words for a problem. -/
def Problem.words : Problem → String
  | .byteOrderMark => "Unexpected UTF-8 BOM (decode using utf-8-sig)"
  | .value => "Expecting value"
  | .key => "Expecting property name enclosed in double quotes"
  | .colon => "Expecting ':' delimiter"
  | .comma => "Expecting ',' delimiter"
  | .extraData => "Extra data"
  | .unterminated => "Unterminated string starting at"
  | .controlCharacter => "Invalid control character at"
  | .escape => "Invalid \\escape"
  | .unicodeEscape => "Invalid \\uXXXX escape"

/-- A problem and the offset at which it shows. -/
structure Error where
  problem : Problem
  offset : Nat
  /-- The line of the offset. -/
  line : Nat
  /-- The column of the offset. -/
  column : Nat
  deriving DecidableEq, Repr, Inhabited

/-- The line feeds before an offset, and the characters after the last one. -/
def placeOf : Nat → List Char → Nat × Nat
  | 0, _ => (0, 0)
  | _ + 1, [] => (0, 0)
  | n + 1, c :: rest =>
    let (lines, columns) := placeOf n rest
    if c = '\n' then (lines + 1, columns)
    else if lines = 0 then (0, columns + 1) else (lines, columns)

/-- A problem at an offset of a text. -/
def Error.within (cs : List Char) (problem : Problem) (offset : Nat) : Error :=
  let (lines, columns) := placeOf offset cs
  ⟨problem, offset, lines + 1, columns + 1⟩

/-- The text of an error. -/
def Error.message (e : Error) : String :=
  e.problem.words ++ ": line " ++ Decimal.render e.line ++ " column "
    ++ Decimal.render e.column ++ " (char " ++ Decimal.render e.offset ++ ")"

/-- Why a text has no value: it is no document, it holds a whole number with
more digits than can be read, or its containers are nested too deeply. -/
inductive Failure where
  | malformed (e : Error)
  | overlong
  | tooDeep
  deriving DecidableEq, Repr, Inhabited

end GraphShapes.Json
