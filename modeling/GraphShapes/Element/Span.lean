/-
GraphShapes.Element.Span — spans of time taken out of arrays.

An array of spans counts them in steps, and a span taken out of it counts as a
whole number. Not every one can be made an integer, though. In units of weeks
down to microseconds it is a time, unless it is too long for one; in the other
units, and where the unit is left open, it is the number of its steps. A span
that is no time at all is neither.
-/
import GraphShapes.Element.Moment

namespace GraphShapes.Element

namespace Moment.Unit

/-- The word for a unit in the plural. -/
def word (u : Unit) : String :=
  match u.letters with
  | "Y" => "years"
  | "M" => "months"
  | "W" => "weeks"
  | "D" => "days"
  | "h" => "hours"
  | "m" => "minutes"
  | "s" => "seconds"
  | "ms" => "milliseconds"
  | "us" => "microseconds"
  | "ns" => "nanoseconds"
  | "ps" => "picoseconds"
  | "fs" => "femtoseconds"
  | "as" => "attoseconds"
  | _ => "generic time units"

/-- How many microseconds make up a unit that times are told in. -/
def microseconds? (u : Unit) : Option Int :=
  match u.letters with
  | "W" => some 604800000000
  | "D" => some 86400000000
  | "h" => some 3600000000
  | "m" => some 60000000
  | "s" => some 1000000
  | "ms" => some 1000
  | "us" => some 1
  | _ => none

end Moment.Unit

/-- A span of time. -/
structure Span where
  /-- How many steps it takes, if it is any time at all. -/
  steps : Option Int
  step : Moment.Step
  deriving DecidableEq, Repr, Inhabited

namespace Span

/-- The most days of a time, forwards or backwards. -/
def maxDays : Int := 999999999

/-- The integer that a span can be made, if it is no time. -/
def whole? (s : Span) : Option Int := do
  let n ← s.steps
  match s.step.unit.microseconds? with
  | none => some n
  | some k =>
    let days := n * s.step.count * k / 86400000000
    if days < -maxDays || maxDays < days then some n else none

/-- A span on its own. -/
def plain (s : Span) : String :=
  match s.steps with
  | none => "NaT"
  | some n => Decimal.render (n * s.step.count) ++ " " ++ s.step.unit.word

/-- The step of a span as it stands inside a container. -/
def unitLiteral (step : Moment.Step) : String :=
  if step.unit.letters.isEmpty then ""
  else if step.count = 1 then ",'" ++ step.unit.letters ++ "'"
  else ",'" ++ Decimal.render step.count ++ step.unit.letters ++ "'"

/-- A span inside a container. -/
def literal (s : Span) : String :=
  let count := match s.steps with
    | none => "'NaT'"
    | some n => Decimal.render n
  "np.timedelta64(" ++ count ++ unitLiteral s.step ++ ")"

/-- Have the integers of a span's texts texts? -/
def isWritable (s : Span) : Bool :=
  match s.steps with
  | none => Decimal.isWritable s.step.count
  | some n =>
    Decimal.isWritable n && Decimal.isWritable s.step.count
      && Decimal.isWritable (n * s.step.count)

end Span

end GraphShapes.Element
