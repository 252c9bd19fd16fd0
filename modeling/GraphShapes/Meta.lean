/-
GraphShapes.Meta — what is known of a value.

A value is a tensor of known sizes, a compile-time integer, a compile-time
list of integers, or a value without a shape. Reports show all four through
one pair of fields, sizes and integers: an integer has the sizes `[1]`, a list
of `n` integers the sizes `[n, 1]`, a value without a shape no sizes.
-/
import GraphShapes.Number.Decimal

namespace GraphShapes

/-- The sizes of a tensor along its axes. -/
abbrev Shape := List Int

/-- What is known of a value. -/
inductive Meta where
  | tensor (sizes : Shape)
  | scalar (n : Int)
  | ints (ns : List Int)
  | nothing
  deriving DecidableEq, Repr, Inhabited

namespace Meta

/-- The sizes that a report shows. -/
def shape : Meta → Shape
  | .tensor sizes => sizes
  | .scalar _ => [1]
  | .ints ns => [(ns.length : Int), 1]
  | .nothing => []

/-- The integers that a report shows. -/
def integers? : Meta → Option (List Int)
  | .scalar n => some [n]
  | .ints ns => some ns
  | _ => none

/-- The number of axes of a tensor. -/
def rank? : Meta → Option Nat
  | .tensor sizes => some sizes.length
  | _ => none

/-- A value in a message. -/
def describe : Meta → String
  | .tensor sizes => "Tensor" ++ Decimal.renderList sizes
  | .scalar n => "Scalar(" ++ Decimal.render n ++ ")"
  | .ints ns => "IntList" ++ Decimal.renderList ns
  | .nothing => "None"

/-- Has every integer of the value a text? -/
def isWritable : Meta → Bool
  | .tensor sizes => sizes.all Decimal.isWritable
  | .scalar n => Decimal.isWritable n
  | .ints ns => ns.all Decimal.isWritable
  | .nothing => true

end Meta

end GraphShapes
