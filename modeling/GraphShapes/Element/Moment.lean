/-
GraphShapes.Element.Moment — element types for points and spans of time.

Times are counted in a multiple of a unit, which stands in brackets behind the
type's code or name. A fraction of a unit is written with a divisor and kept as
a multiple of a finer unit, so the divisor has to divide the number of finer
units that make up the unit. Without brackets the unit is left open.
-/
import GraphShapes.Misuse
import GraphShapes.Number.Decimal

namespace GraphShapes.Element.Moment

/-- A unit of time, by its letters; the open unit has none. -/
structure Unit where
  letters : String
  deriving DecidableEq, Repr, Inhabited

/-- The unit that letters stand for. -/
def Unit.ofLetters? (s : String) : Option Unit :=
  if s = "generic" then some ⟨""⟩
  else if s = "\u03bcs" then some ⟨"us"⟩
  else if ["Y", "M", "W", "D", "h", "m", "s", "ms", "us", "ns", "ps", "fs", "as"].contains s then
    some ⟨s⟩
  else none

/-- How many of which finer units make up a unit. -/
def Unit.finer (u : Unit) : List (Nat × String) :=
  match u.letters with
  | "Y" => [(12, "M"), (52, "W"), (365, "D")]
  | "M" => [(4, "W"), (30, "D"), (720, "h")]
  | "W" => [(7, "D"), (168, "h"), (10080, "m")]
  | "D" => [(24, "h"), (1440, "m"), (86400, "s")]
  | "h" => [(60, "m"), (3600, "s")]
  | "m" => [(60, "s"), (60000, "ms")]
  | "s" => [(1000, "ms"), (1000000, "us")]
  | "ms" => [(1000, "us"), (1000000, "ns")]
  | "us" => [(1000, "ns"), (1000000, "ps")]
  | "ns" => [(1000, "ps"), (1000000, "fs")]
  | "ps" => [(1000, "fs"), (1000000, "as")]
  | "fs" => [(1000, "as")]
  | _ => []

/-- A multiple of a unit. -/
structure Step where
  count : Int
  unit : Unit
  deriving DecidableEq, Repr, Inhabited

/-- A step as the name of a type shows it. -/
def Step.text (s : Step) : String :=
  if s.unit.letters.isEmpty then ""
  else if s.count = 1 then "[" ++ s.unit.letters ++ "]"
  else "[" ++ Decimal.render s.count ++ s.unit.letters ++ "]"

/-- A step divided by a number. -/
def Step.over (s : Step) (n : Int) : Except Misuse Step :=
  if n = 1 then .ok s
  else
    match s.unit.finer.find? fun (k, _) => n ≠ 0 && Int.tmod k n == 0 with
    | some (k, letters) => .ok ⟨s.count * Int.tdiv k n, ⟨letters⟩⟩
    | none => .error .badValue

/-- The greatest multiple. -/
def maxCount : Int := 2 ^ 31 - 1

/-- The unit and the divisor, given what stands behind the multiple. -/
def readUnit (count : Int) (cs : List Char) : Except Misuse Step :=
  match Unit.ofLetters? (String.ofList (cs.takeWhile (· ≠ '/'))) with
  | none => .error .wrongKind
  | some u =>
    match cs.dropWhile (· ≠ '/') with
    | [] => .ok ⟨count, u⟩
    | _ :: divisor =>
      match Decimal.leading? divisor with
      | some (n, []) => Step.over ⟨count, u⟩ n
      | _ => .error .wrongKind

/-- What stands between the brackets. -/
def readInner (cs : List Char) : Except Misuse Step :=
  match Decimal.leading? cs with
  | none => readUnit 1 cs
  | some (n, rest) => if n < 0 || maxCount < n then .error .wrongKind else readUnit n rest

/-- The step that stands behind a code or name. -/
def readStep : List Char → Except Misuse Step
  | [] => .ok ⟨1, ⟨""⟩⟩
  | '[' :: cs =>
    if cs.dropWhile (· ≠ ']') = [']'] then readInner (cs.takeWhile (· ≠ ']'))
    else .error .wrongKind
  | _ => .error .wrongKind

/-- The word that a text begins with, and what follows it. -/
def behind? (word : String) (cs : List Char) : Option (List Char) :=
  if word.toList.isPrefixOf cs then some (cs.drop word.length) else none

/-- Is the type one for spans of time, and what follows its code or name? -/
def split? (cs : List Char) : Option (Bool × List Char) :=
  ((behind? "m8" cs).map (true, ·)) <|> ((behind? "M8" cs).map (false, ·))
    <|> ((behind? "timedelta64" cs).map (true, ·)) <|> ((behind? "datetime64" cs).map (false, ·))

end GraphShapes.Element.Moment
